import JsonAudit.Proofs.Path.Nesting

/-!
# Conditions

A condition is a nested path, an operator and a literal, alone in its bracket or in a wrapper.  The
path of a condition that is read can stand in a condition again (`isNestedPath_of_readCondition`).
Conversely, the scanner awaits a literal inside the bracket behind the first operator outside the
path, and there the condition is cut, whatever its wrapper (`readCondition_of_unwrap`,
`Wrapped.unwrap_trim`).
-/

namespace JsonAudit

open Scanner

/-! ### Conditions that were read -/

/-- What stands before the condition in its wrapper is idle. -/
theorem exists_of_unwrap {text body : List Char} (h : unwrap text = some body) :
  ∃ opening ending, text = opening ++ (body ++ ending) ∧ ∀ c ∈ opening, isIdle c = true
  := by
  unfold unwrap at h
  split at h
  · rename_i rest
    obtain ⟨blanks, hb, hr⟩ := exists_trimStart rest
    have hi := isIdle_of_mem_blanks hb
    split at h
    · rename_i inner hs
      split at h
      · rename_i hl
        cases h
        obtain ⟨first, last, hf, -, ht⟩ := exists_trim inner.dropLast
        have he : inner = first ++ (trim inner.dropLast ++ (last ++ [')'])) := by
          obtain ⟨init, rfl⟩ := List.getLast?_eq_some_iff.mp (eq_of_beq hl)
          rw [List.dropLast_concat] at ht ⊢
          rw [← List.append_assoc (trim init), ← List.append_assoc first, ← ht]
        refine ⟨'?' :: (blanks ++ '(' :: first), last ++ [')'], ?_, ?_⟩
        · rw [hs] at hr
          rw [List.cons_append, List.append_assoc, List.cons_append, ← he, ← hr]
        · refine List.forall_mem_cons.mpr ⟨rfl, List.forall_mem_append.mpr ⟨hi, ?_⟩⟩
          exact List.forall_mem_cons.mpr ⟨rfl, isIdle_of_mem_blanks hf⟩
      · cases h
    · cases h
      refine ⟨'?' :: blanks, [], ?_, List.forall_mem_cons.mpr ⟨rfl, hi⟩⟩
      rw [List.append_nil, List.cons_append, ← hr]
  · cases h
    exact ⟨[], [], by simp, nofun⟩

/-- A condition that is read stands in its wrapper as a path, an operator outside brackets and a
literal. -/
theorem readCondition_eq_some {text : List Char} {condition : Condition}
    (h : readCondition text = some condition) :
  ∃ before after, unwrap text
      = some ('@' :: '.' :: (before ++ condition.operator.firstChar :: '=' :: after))
    ∧ ((start 0).run before).depth = 0
    ∧ (∀ other : Operator,
        (start 0).Hides other.text.toList (before ++ [condition.operator.firstChar]))
    ∧ condition.property = trim before ∧ trim before ≠ []
    ∧ (∀ c ∈ trim before, isBlank c = false)
    ∧ trim after ≠ [] ∧ condition.literal = unquote (trim after)
  := by
  unfold readCondition at h
  split at h
  · rename_i body hu
    split at h
    · rename_i before operator after hs
      obtain ⟨rfl, hd, hh⟩ := splitOperator_spec (sound_start 0) hs
      rw [Condition.ofParts] at h
      split at h
      · cases h
      · rename_i hn
        cases h
        simp only [Bool.or_eq_true, List.isEmpty_iff, not_or] at hn
        obtain ⟨⟨hp, hb⟩, ha⟩ := hn
        refine ⟨before, after, hu, hd, hh, rfl, hp, ?_, ha, rfl⟩
        intro c hc
        exact Bool.eq_false_iff.mpr fun ht => hb (List.any_eq_true.mpr ⟨c, hc, ht⟩)
    · cases h
  · cases h

/-- The path of a condition between brackets can stand in a condition. -/
theorem isNestedPath_of_readCondition {content : List Char}
    (hc : closeFrom (start 1) content = none) {condition : Condition}
    (h : readCondition (trim content) = some condition) :
  IsNestedPath condition.property
  := by
  obtain ⟨before, after, hu, hd, hh, hp, hn, hb, -⟩ := readCondition_eq_some h
  obtain ⟨opening, ending, ht, hi⟩ := exists_of_unwrap hu
  obtain ⟨first, last, hf, -, ht'⟩ := exists_trim content
  have ho : ∀ operator : Operator, (start 0).Hides operator.text.toList before := by
    intro operator
    exact (hh operator).of_append
  have hidle : ∀ c ∈ first ++ (opening ++ ['@', '.']), isIdle c = true := by
    refine List.forall_mem_append.mpr ⟨isIdle_of_mem_blanks hf, ?_⟩
    exact List.forall_mem_append.mpr ⟨hi, isIdle_of_mem_sign⟩
  have hs : content = (first ++ (opening ++ ['@', '.']))
      ++ (before ++ (condition.operator.firstChar :: '=' :: after ++ (ending ++ last))) := by
    rw [ht', ht]
    simp
  rw [hs, closeFrom_append_eq_none_iff] at hc
  obtain ⟨-, hc⟩ := hc
  rw [closeFrom_alike ((Alike.refl _).run_idle hidle), closeFrom_append_eq_none_iff] at hc
  have hhides := (closeFrom_deeper_iff (sound_start 0) (hidesOperators_start ho)).mp hc.1
  rw [hp]
  apply isNestedPath_trim hn hb hd hhides ho

/-! ### Up to the operator -/

/-- The scanner behind the operator of a condition. -/
def Scanner.expecting : Scanner := ⟨1, none, true, some '='⟩

/-- Only a quote mark opens a quoted literal, where one is awaited. -/
theorem Scanner.opens_of_quote_next {s : Scanner} (hs : s.quote = none) {c : Char}
    (h : (s.next c).quote ≠ none) :
  s.awaitingLiteral = true ∧ isQuoteMark c = true
  := by
  rw [Scanner.next, hs] at h
  simp only at h
  split at h
  · rename_i ha
    split at h
    · cases h rfl
    · split at h
      · rename_i hc
        exact ⟨ha, hc⟩
      · cases h (nextPlain_spec s c).1
  · cases h (nextPlain_spec s c).1

/-- Only a quote mark opens a quoted literal. -/
theorem Scanner.quote_next {s : Scanner} (hs : s.quote = none) {c : Char}
    (hc : isQuoteMark c = false) :
  (s.next c).quote = none
  := by
  apply Classical.byContradiction
  intro h
  rw [(opens_of_quote_next hs h).2] at hc
  cases hc

/-- A text without quote marks opens no quoted literal. -/
theorem Scanner.quote_run {s : Scanner} (hs : s.quote = none) {text : List Char}
    (ht : ∀ c ∈ text, isQuoteMark c = false) :
  (s.run text).quote = none
  := by
  induction text generalizing s with
  | nil => exact hs
  | cons c rest ih =>
    obtain ⟨hc, hr⟩ := List.forall_mem_cons.mp ht
    exact ih (quote_next hs hc) hr

/-- A quote mark is not blank. -/
theorem isBlank_of_isQuoteMark {c : Char} (h : isQuoteMark c = true) :
  isBlank c = false
  := by
  rw [isQuoteMark, Bool.or_eq_true, beq_iff_eq, beq_iff_eq] at h
  rcases h with rfl | rfl <;> decide

theorem isQuoteMark_of_isBlank {c : Char} (h : isBlank c = true) :
  isQuoteMark c = false
  := by
  apply Bool.eq_false_iff.mpr
  intro hm
  rw [isBlank_of_isQuoteMark hm] at h
  cases h

theorem isQuoteMark_firstChar (operator : Operator) :
  isQuoteMark operator.firstChar = false
  := by
  cases operator <;> rfl

/-- Behind an operator in one bracket a literal is awaited. -/
theorem Scanner.next_operator_end {s : Scanner} (hd : s.depth = 1) (hq : s.quote = none)
    (hp : s.previous.any beginsOperator = true) :
  s.next '=' = expecting
  := by
  obtain ⟨depth, quote, awaiting, previous⟩ := s
  simp only at hd hq hp
  subst hd hq
  have hb : isBlank '=' = false := by decide
  have hm : isQuoteMark '=' = false := by decide
  have hn : nextPlain ⟨1, none, awaiting, previous⟩ '=' = expecting := by
    simp only [nextPlain, hp]
    rfl
  cases awaiting <;> simp only [Scanner.next, hb, hm, hn] <;> rfl

/-- After an operator inside brackets a literal is awaited, whatever was before. -/
theorem Scanner.run_operator {s : Scanner} (hd : s.depth = 1) (hq : s.quote = none)
    (operator : Operator) :
  s.run operator.text.toList = expecting
  := by
  rw [Operator.toList_text]
  apply next_operator_end
  · rw [depth_next_operator, hd]
  · exact quote_next hq (isQuoteMark_firstChar operator)
  · rw [previous_next]
    exact beginsOperator_firstChar operator

/-- What stands in a bracket before the literal of a condition. -/
def conditionHead (opening property blanks : List Char) (operator : Operator) : List Char :=
  opening ++ ['@', '.'] ++ property ++ blanks ++ operator.text.toList

/-- Up to its operator a condition leaves the bracket open: over its path the scanner is where the
one of the path alone is, one bracket deeper. -/
theorem run_conditionHead {opening property blanks : List Char}
    (ho : ∀ c ∈ opening, isIdle c = true) (hp : IsNestedPath property)
    (hb : allBlank blanks = true) (operator : Operator) :
  closeFrom (start 1) (conditionHead opening property blanks operator) = none
    ∧ (start 1).run (conditionHead opening property blanks operator) = expecting
  := by
  have hidle : ∀ c ∈ opening ++ ['@', '.'], isIdle c = true :=
    List.forall_mem_append.mpr ⟨ho, isIdle_of_mem_sign⟩
  have hstart : ((start 1).run (opening ++ ['@', '.'])).Alike (start 0).deeper :=
    (Alike.refl _).run_idle hidle
  have hpath : ((start 1).run (opening ++ ['@', '.'] ++ property)).Alike
      ((start 0).run property).deeper := by
    rw [run_append, ← run_deeper (hidesOperators_start hp.operators) hp.brackets]
    apply hstart.run
  have hblank := isIdle_of_mem_blanks hb
  have hd : ((start 1).run (opening ++ ['@', '.'] ++ property ++ blanks)).depth = 1 := by
    rw [run_append, depth_run (not_mem_idle hblank rfl) (not_mem_idle hblank rfl), hpath.depth]
    exact congrArg (· + 1) hp.closed
  have hq : ((start 1).run (opening ++ ['@', '.'] ++ property ++ blanks)).quote = none := by
    rw [run_append]
    apply quote_run
    · rw [hpath.quote]
      exact (((sound_start 0).run property).settled hp.closed).quote
    · intro c hc
      exact isQuoteMark_of_isBlank (List.all_eq_true.mp hb c hc)
  constructor
  · have hc : ']' ∉ operator.text.toList := by
      cases operator <;> decide
    rw [conditionHead, closeFrom_append_eq_none_iff, closeFrom_append_eq_none_iff,
      closeFrom_append_eq_none_iff]
    refine ⟨⟨⟨closeFrom_of_not_mem (not_mem_idle hidle rfl) _, ?_⟩, ?_⟩, ?_⟩
    · rw [closeFrom_alike hstart,
        closeFrom_deeper_iff (sound_start 0) (hidesOperators_start hp.operators)]
      exact hp.brackets
    · apply closeFrom_of_not_mem (not_mem_idle hblank rfl)
    · apply closeFrom_of_not_mem hc
  · rw [conditionHead, run_append]
    apply run_operator hd hq

/-- Blanks make no difference to the end of what they follow. -/
theorem Scanner.Hides.append_blanks {s : Scanner} {text blanks : List Char} {operator : Operator}
    (h : s.Hides operator.text.toList text) (hb : allBlank blanks = true) :
  s.Hides operator.text.toList (text ++ blanks)
  := by
  induction blanks generalizing text with
  | nil =>
    rw [List.append_nil]
    exact h
  | cons c rest ih =>
    rw [allBlank, List.all_cons, Bool.and_eq_true] at hb
    rw [List.append_cons]
    apply ih _ hb.2
    apply h.snoc
    rintro ⟨before, he⟩
    rw [Operator.toList_text, List.append_cons] at he
    cases (List.append_inj' he rfl).2
    cases hb.1

/-- The operator behind a nested path is the first that is not hidden, unless its first character
completes one that the end of the path begins. -/
theorem splitOperator_of_isNestedPath {property blanks : List Char} (hp : IsNestedPath property)
    (hb : allBlank blanks = true) {operator : Operator}
    (he : operator = .equal → property.getLast?.any beginsOperator = false)
    (after : List Char) :
  splitOperator (start 0) (property ++ blanks ++ (operator.text.toList ++ after))
    = some (property ++ blanks, operator, after)
  := by
  have hi := isIdle_of_mem_blanks hb
  rw [Operator.toList_text]
  apply splitOperator_of_hides (sound_start 0)
  · rw [run_append, depth_run (not_mem_idle hi rfl) (not_mem_idle hi rfl), hp.closed]
  · intro other
    apply ((hp.operators other).append_blanks hb).snoc
    rintro ⟨before, ht⟩
    rw [Operator.toList_text, List.append_cons] at ht
    obtain ⟨ht, hf⟩ := List.append_inj' ht rfl
    have hl : (property ++ blanks).getLast? = some other.firstChar := by
      rw [← ht, List.getLast?_concat]
    have ho : operator = .equal := by
      cases operator with
      | equal => rfl
      | notEqual => cases hf
    rw [List.getLast?_append, Option.or_eq_some_iff] at hl
    rcases hl with hl | ⟨-, hl⟩
    · have hc := hi _ (List.mem_of_getLast? hl)
      cases other <;> cases hc
    · have hc := he ho
      rw [hl] at hc
      cases other <;> cases hc

/-- A condition in any wrapper is read in three parts. -/
theorem readCondition_of_unwrap {text property blanks after : List Char} {operator : Operator}
    (hu : unwrap text = some (conditionHead [] property blanks operator ++ after))
    (hp : IsNestedPath property)
    (he : operator = .equal → property.getLast?.any beginsOperator = false)
    (hb : allBlank blanks = true) (ha : trim after ≠ []) :
  readCondition text = some ⟨property, operator, unquote (trim after)⟩
  := by
  have hs : unwrap text
      = some ('@' :: '.' :: (property ++ blanks ++ (operator.text.toList ++ after))) := by
    rw [hu]
    simp [conditionHead]
  have ht : trim (property ++ blanks) = property := by
    have hn : trim ([] ++ (property ++ blanks)) = trim property := trim_blanks rfl hb property
    rw [List.nil_append] at hn
    rw [hn, trim_of_no_blank hp.noBlank]
  have hc : ((trim (property ++ blanks)).isEmpty || (trim (property ++ blanks)).any isBlank
      || (trim after).isEmpty) = false := by
    rw [ht, Bool.or_eq_false_iff, Bool.or_eq_false_iff, List.isEmpty_eq_false_iff,
      List.isEmpty_eq_false_iff, List.any_eq_false]
    refine ⟨⟨hp.ne_nil, ?_⟩, ha⟩
    intro c hc
    rw [hp.noBlank c hc]
    nofun
  rw [readCondition, hs]
  simp only
  rw [splitOperator_of_isNestedPath hp hb he]
  simp only
  rw [Condition.ofParts, hc, ht, if_neg nofun]

/-! ### Wrappers -/

/-- The ways in which a condition may fill a bracket: alone, behind `?`, or in parentheses behind
`?`, with blanks at every place between. -/
inductive Wrapped (condition : List Char) : List Char → Prop where
  | alone {before after : List Char} :
    allBlank before = true → allBlank after = true →
      Wrapped condition (before ++ (condition ++ after))
  | marked {before gap after : List Char} :
    allBlank before = true → allBlank gap = true → allBlank after = true →
      Wrapped condition (before ++ ('?' :: gap ++ (condition ++ after)))
  | enclosed {before gap first last after : List Char} :
    allBlank before = true → allBlank gap = true → allBlank first = true →
      allBlank last = true → allBlank after = true →
      Wrapped condition
        (before ++ ('?' :: gap ++ '(' :: first ++ (condition ++ (last ++ ')' :: after))))

/-- A wrapper puts idle characters around a condition. -/
theorem Wrapped.exists_idle {condition content : List Char} (h : Wrapped condition content) :
  ∃ opening ending, content = opening ++ (condition ++ ending)
    ∧ (∀ c ∈ opening, isIdle c = true) ∧ ∀ c ∈ ending, isIdle c = true
  := by
  cases h with
  | alone hb ha => exact ⟨_, _, rfl, isIdle_of_mem_blanks hb, isIdle_of_mem_blanks ha⟩
  | @marked before gap after hb hg ha =>
    refine ⟨before ++ '?' :: gap, after, by simp, ?_, isIdle_of_mem_blanks ha⟩
    refine List.forall_mem_append.mpr ⟨isIdle_of_mem_blanks hb, ?_⟩
    exact List.forall_mem_cons.mpr ⟨rfl, isIdle_of_mem_blanks hg⟩
  | @enclosed before gap first last after hb hg hf hl ha =>
    refine ⟨before ++ '?' :: gap ++ '(' :: first, last ++ ')' :: after, by simp, ?_, ?_⟩
    · rw [List.forall_mem_append, List.forall_mem_append]
      refine ⟨⟨isIdle_of_mem_blanks hb, ?_⟩, ?_⟩
      · exact List.forall_mem_cons.mpr ⟨rfl, isIdle_of_mem_blanks hg⟩
      · exact List.forall_mem_cons.mpr ⟨rfl, isIdle_of_mem_blanks hf⟩
    · refine List.forall_mem_append.mpr ⟨isIdle_of_mem_blanks hl, ?_⟩
      exact List.forall_mem_cons.mpr ⟨rfl, isIdle_of_mem_blanks ha⟩

/-- Blanks around a question mark make no difference. -/
theorem unwrap_trim_marked {before gap after rest : List Char} {c : Char}
    (hb : allBlank before = true) (hg : allBlank gap = true) (ha : allBlank after = true)
    (hc : isBlank c = false) (he : (c :: rest).getLast?.any isBlank = false) :
  unwrap (trim (before ++ ('?' :: gap ++ (c :: rest ++ after)))) = unwrap ('?' :: c :: rest)
  := by
  have hs : before ++ ('?' :: gap ++ (c :: rest ++ after))
      = before ++ (('?' :: gap ++ c :: rest) ++ after) := by
    rw [List.append_assoc]
  have hq : isBlank '?' = false := by decide
  have hl : ('?' :: gap ++ c :: rest).getLast?.any isBlank = false := by
    rw [List.getLast?_cons] at he
    rw [List.getLast?_append, List.getLast?_cons, Option.some_or]
    exact he
  have hm : trim ('?' :: gap ++ c :: rest) = '?' :: gap ++ c :: rest := trim_of_ends hq hl
  have hu : trimStart (gap ++ c :: rest) = c :: rest := by
    rw [trimStart_append hg, trimStart_cons hc]
  rw [hs, trim_blanks hb ha, hm, List.cons_append, unwrap, unwrap, hu, trimStart_cons hc]

/-- The wrapper is taken off a condition whose ends are not blank. -/
theorem Wrapped.unwrap_trim {rest content : List Char} (h : Wrapped ('@' :: rest) content)
    (he : ('@' :: rest).getLast?.any isBlank = false) :
  unwrap (trim content) = some ('@' :: rest)
  := by
  have hs : isBlank '@' = false := by decide
  have ht : trim ('@' :: rest) = '@' :: rest := trim_of_ends hs he
  cases h with
  | alone hb ha =>
    rw [trim_blanks hb ha, ht]
    rfl
  | marked hb hg ha =>
    rw [unwrap_trim_marked hb hg ha hs he, unwrap, trimStart_cons hs]
    rfl
  | @enclosed before gap first last after hb hg hf hl ha =>
    have hc : isBlank '(' = false := by decide
    have hd : isBlank ')' = false := by decide
    have hi : trim (first ++ ('@' :: rest ++ last)) = '@' :: rest := by
      rw [trim_blanks hf hl, ht]
    have hn : before ++ ('?' :: gap ++ '(' :: first ++ ('@' :: rest ++ (last ++ ')' :: after)))
        = before ++ ('?' :: gap
          ++ ('(' :: (first ++ ('@' :: rest ++ last) ++ [')']) ++ after)) := by
      simp
    have hl' : ('(' :: (first ++ ('@' :: rest ++ last) ++ [')'])).getLast?.any isBlank = false := by
      rw [← List.cons_append, List.getLast?_concat]
      exact hd
    rw [hn, unwrap_trim_marked hb hg ha hc hl', unwrap, trimStart_cons hc]
    simp only
    rw [List.getLast?_concat, List.dropLast_concat, hi]
    rfl

end JsonAudit
