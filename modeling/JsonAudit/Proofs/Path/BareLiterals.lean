import JsonAudit.Proofs.Path.Conditions
import Mathlib.Data.List.Induction

/-!
# Bare literals

A literal without quote marks around it is read as it stands, unless a quoted literal is open at
its end (`parsePath_bare`).  That takes a quote mark behind another operator in the literal; with
one the bracket may be malformed, as at `parsePath_bare_quote_behind_operator`.
-/

namespace JsonAudit

open Scanner

/-! ### Quoted literals in bare ones -/

/-- A quoted literal is open at the end of the text behind the operator of a condition. -/
def EndsInQuote (literal : List Char) : Prop := (expecting.run literal).quote ≠ none

instance (literal : List Char) : Decidable (EndsInQuote literal) :=
  inferInstanceAs (Decidable (_ ≠ _))

/-- The text ends in an operator with blanks behind it. -/
def EndsInOperator (text : List Char) : Prop :=
  ∃ (before blanks : List Char) (operator : Operator),
    text = before ++ operator.text.toList ++ blanks ∧ allBlank blanks = true

/-- A quote mark comes next after an operator, blanks aside. -/
def HasQuoteBehindOperator (text : List Char) : Prop :=
  ∃ before mark after, text = before ++ mark :: after ∧ EndsInOperator before
    ∧ isQuoteMark mark = true

/-- A literal is awaited behind a character if it was before a blank, or if the character ends an
operator. -/
theorem Scanner.awaiting_next {s : Scanner} (hs : s.Sound) {c : Char}
    (h : (s.next c).awaitingLiteral = true) :
  s.awaitingLiteral = true ∧ isBlank c = true ∨ c = '=' ∧ s.previous.any beginsOperator = true
  := by
  have hp : (s.nextPlain c).awaitingLiteral = true
      → c = '=' ∧ s.previous.any beginsOperator = true := by
    unfold nextPlain
    split <;> simp
  rw [Scanner.next] at h
  split at h
  · rename_i mark hq
    have ha : s.awaitingLiteral = false := hs.apart (by simp [hq])
    rw [ha] at h
    cases h
  · split at h
    · rename_i ha
      split at h
      · rename_i hb
        exact .inl ⟨ha, hb⟩
      · split at h
        · cases h
        · exact .inr (hp h)
    · exact .inr (hp h)

theorem Scanner.previous_run_concat (s : Scanner) (text : List Char) (c : Char) :
  (s.run (text ++ [c])).previous = some c
  := by
  rw [run_append]
  apply previous_next

/-- A literal is awaited only behind an operator: whether the wait begins depends on the last
character and the one before it, so that the text is taken apart from its end. -/
theorem Scanner.endsInOperator_of_awaiting {depth : Nat} {text : List Char}
    (h : ((start depth).run text).awaitingLiteral = true) :
  EndsInOperator text
  := by
  induction text using List.reverseRecOn with
  | nil => cases h
  | append_singleton text c ih =>
    rw [run_append] at h
    rcases awaiting_next ((sound_start depth).run text) h with ⟨ha, hc⟩ | ⟨rfl, hp⟩
    · obtain ⟨before, blanks, operator, rfl, hb⟩ := ih ha
      refine ⟨before, blanks ++ [c], operator, by simp, ?_⟩
      rw [allBlank, List.all_append, Bool.and_eq_true]
      exact ⟨hb, by simp [hc]⟩
    · rcases List.eq_nil_or_concat text with rfl | ⟨init, d, rfl⟩
      · cases hp
      · rw [List.concat_eq_append, previous_run_concat] at hp
        obtain ⟨operator, rfl⟩ := exists_operator hp
        refine ⟨init, [], operator, ?_, rfl⟩
        simp [Operator.toList_text]

/-- A quoted literal is open only behind an operator and a quote mark. -/
theorem Scanner.hasQuoteBehindOperator_of_quote {depth : Nat} {text : List Char}
    (h : ((start depth).run text).quote ≠ none) :
  HasQuoteBehindOperator text
  := by
  induction text using List.reverseRecOn with
  | nil => cases h rfl
  | append_singleton text c ih =>
    by_cases hq : ((start depth).run text).quote = none
    · rw [run_append] at h
      obtain ⟨ha, hc⟩ := opens_of_quote_next hq h
      exact ⟨text, c, [], rfl, endsInOperator_of_awaiting ha, hc⟩
    · obtain ⟨before, mark, after, rfl, ho, hm⟩ := ih hq
      exact ⟨before, mark, after ++ [c], by simp, ho, hm⟩

/-- Where a literal ends in an open quote, a quote mark stands behind an operator: the one before
the literal, or one in it. -/
theorem EndsInQuote.hasQuoteBehindOperator {literal : List Char} (h : EndsInQuote literal)
    (operator : Operator) :
  HasQuoteBehindOperator (operator.text.toList ++ literal)
  := by
  have hq : ((start 1).run (operator.text.toList ++ literal)).quote ≠ none := by
    rw [run_append, run_operator rfl rfl]
    exact h
  exact hasQuoteBehindOperator_of_quote hq

/-! ### Reading -/

/-- A text without brackets does not go up to the `]` behind it if a quoted literal is open
there. -/
theorem closeFrom_concat {s : Scanner} (hd : s.depth = 1) {text : List Char} (ho : '[' ∉ text)
    (hc : ']' ∉ text) :
  closeFrom s (text ++ [']']) = if (s.run text).quote ≠ none then none else some (text, [])
  := by
  by_cases hq : (s.run text).quote = none
  · rw [if_neg (not_not_intro hq), closeFrom_of_quote hd ho hc hq]
  · have hn : ¬ (s.run text).isOutermost ']' ']' = true := by
      intro h
      exact hq (isOutermost_bracket_iff.mp h).1
    rw [if_pos hq, closeFrom_append (closeFrom_of_not_mem hc s), closeFrom, if_neg hn]
    rfl

/-- A condition with a bare literal goes up to the end of its bracket, unless the literal ends in
a quoted one. -/
theorem closeFrom_bareLiteral {property literal : List Char} (hp : IsNestedPath property)
    (operator : Operator) (ho : '[' ∉ literal) (hc : ']' ∉ literal) :
  closeFrom (start 1) (conditionHead [] property [] operator ++ literal ++ [']'])
    = if EndsInQuote literal then none
      else some (conditionHead [] property [] operator ++ literal, [])
  := by
  have hh : closeFrom (start 1) (conditionHead [] property [] operator) = none
      ∧ (start 1).run (conditionHead [] property [] operator) = expecting :=
    run_conditionHead (List.forall_mem_nil _) hp rfl operator
  rw [List.append_assoc, closeFrom_append hh.1, hh.2, closeFrom_concat rfl ho hc]
  show Option.map _ (if EndsInQuote literal then _ else _) = _
  split <;> rfl

/-- A bare literal is what stands behind the first operator. -/
theorem readCondition_bareLiteral {property literal : List Char} {operator : Operator}
    (hp : IsNestedPath property)
    (he : operator = .equal → property.getLast?.any beginsOperator = false) (hl : literal ≠ [])
    (hs : literal.head?.any isBlank = false) (hs' : literal.getLast?.any isBlank = false)
    (hq : literal.head?.any isQuoteMark = false) :
  readCondition (trim (conditionHead [] property [] operator ++ literal))
    = some ⟨property, operator, literal⟩
  := by
  have hw : Wrapped (conditionHead [] property [] operator ++ literal)
      ([] ++ (conditionHead [] property [] operator ++ literal ++ [])) := .alone rfl rfl
  have hg : (conditionHead [] property [] operator ++ literal).getLast?.any isBlank = false := by
    rw [List.getLast?_append, List.getLast?_eq_some_getLast hl, Option.some_or,
      ← List.getLast?_eq_some_getLast hl]
    exact hs'
  have ht : trim literal = literal := trim_of_ends hs hs'
  have hu : unquote literal = literal := by
    obtain ⟨c, rest, rfl⟩ := List.exists_cons_of_ne_nil hl
    have hc : isQuoteMark c = false := hq
    rw [unquote, hc]
    rfl
  have hr := readCondition_of_unwrap (hw.unwrap_trim hg) hp he rfl (ht.symm ▸ hl)
  rwa [ht, hu, List.nil_append, List.append_nil] at hr

/-- A condition with a bare literal is read in its parts, unless the literal ends in a quoted
one. -/
theorem parse_bareLiteral {name property literal : List Char} {operator : Operator}
    (hd : '.' ∉ name) (hn : '[' ∉ name) (hp : IsNestedPath property)
    (he : operator = .equal → property.getLast?.any beginsOperator = false) (hl : literal ≠ [])
    (hs : literal.head?.any isBlank = false) (hs' : literal.getLast?.any isBlank = false)
    (hq : literal.head?.any isQuoteMark = false) (ho : '[' ∉ literal) (hc : ']' ∉ literal) :
  parse (name ++ '[' :: (conditionHead [] property [] operator ++ literal ++ [']']))
    = [.mk (String.ofList name) (some (if EndsInQuote literal then
        .malformed (String.ofList (conditionHead [] property [] operator ++ literal ++ [']']))
      else
        .predicate (.ofCondition ⟨property, operator, literal⟩)))]
  := by
  have hcl := closeFrom_bareLiteral hp operator ho hc
  by_cases hi : EndsInQuote literal
  · rw [if_pos hi] at hcl ⊢
    exact parse_unclosed hd hn hcl
  · rw [if_neg hi] at hcl ⊢
    rw [parse_closed hd hn hcl, Indexer.ofContent, readCondition_bareLiteral hp he hl hs hs' hq]

/-- The character may stand in the name of a property. -/
def isNameChar (c : Char) : Bool := isIdle c && !isBlank c && c != '.'

/-- Letters, digits and underscores may stand in a name. -/
theorem isNameChar_of_isAlphanum {c : Char} (h : c.isAlphanum = true ∨ c = '_') :
  isNameChar c = true
  := by
  have hb : isBlank c = false := by
    rcases h with h | rfl
    · exact isBlank_of_isAlphanum h
    · decide
  have hi : isIdle c = true := by
    simp only [isIdle, Bool.not_eq_true', Bool.or_eq_false_iff, beq_eq_false_iff_ne]
    refine ⟨⟨⟨?_, ?_⟩, ?_⟩, ?_⟩
    all_goals
      rintro rfl
      revert h
      decide
  have hd : c ≠ '.' := by
    rintro rfl
    revert h
    decide
  simp [isNameChar, hb, hi, hd]

/-- A bare literal is read as it stands, whatever it holds besides brackets, unless a quoted
literal is open at its end; that takes a quote mark behind an operator. -/
theorem parsePath_bare {name property literal : String} {operator : Operator}
    (hd : '.' ∉ name.toList) (hn : '[' ∉ name.toList) (hp : property ≠ "")
    (hc : ∀ c ∈ property.toList, isNameChar c = true) (hl : literal ≠ "")
    (hs : literal.toList.head?.any isBlank = false)
    (hs' : literal.toList.getLast?.any isBlank = false)
    (hq : literal.toList.head?.any isQuoteMark = false)
    (ho : '[' ∉ literal.toList) (hb : ']' ∉ literal.toList) :
  parsePath (name ++ "[@." ++ property ++ operator.text ++ literal ++ "]")
      = [.mk name (some (if EndsInQuote literal.toList then
          .malformed ("@." ++ property ++ operator.text ++ literal ++ "]")
        else
          .predicate (.mk property [.mk property none] operator literal)))]
    ∧ (EndsInQuote literal.toList
      → HasQuoteBehindOperator (operator.text ++ literal).toList)
  := by
  simp only [isNameChar, Bool.and_eq_true, Bool.not_eq_true', bne_iff_ne] at hc
  have hi : ∀ c ∈ property.toList, isIdle c = true := fun c hm => (hc c hm).1.1
  have hne : property.toList ≠ [] := mt String.toList_eq_nil_iff.mp hp
  have hnp : IsNestedPath property.toList :=
    isNestedPath_of_name hne hi fun c hm => (hc c hm).1.2
  have hg : operator = .equal → property.toList.getLast?.any beginsOperator = false := by
    intro _
    exact any_eq_false_of_mem (fun c hm => beginsOperator_of_isIdle (hi c hm))
      fun _ => List.mem_of_getLast?
  have hpp : parse property.toList = [.mk property none] := by
    rw [parse_name hne (fun hm => (hc '.' hm).2 rfl) (not_mem_idle hi rfl), String.ofList_toList]
  constructor
  · have ht : (name ++ "[@." ++ property ++ operator.text ++ literal ++ "]").toList
        = name.toList ++ '[' :: (conditionHead [] property.toList [] operator
          ++ literal.toList ++ [']']) := by
      simp [String.toList_append, conditionHead]
    have hm : String.ofList (conditionHead [] property.toList [] operator
          ++ literal.toList ++ [']'])
        = "@." ++ property ++ operator.text ++ literal ++ "]" := by
      apply String.toList_injective
      simp [String.toList_append, conditionHead]
    rw [parsePath, ht, parse_bareLiteral hd hn hnp hg (mt String.toList_eq_nil_iff.mp hl) hs hs'
      hq ho hb, hm, Predicate.ofCondition]
    simp only [String.ofList_toList, hpp]
  · intro h
    rw [String.toList_append]
    exact h.hasQuoteBehindOperator operator

/-- Quote marks, a dot, and an operator in the literal. -/
theorem parsePath_bare_name :
  (∀ c ∈ "name".toList, isNameChar c = true) ∧ ¬ EndsInQuote "O'Brien.jr ==5\"".toList
    ∧ parsePath "people[@.name!=O'Brien.jr ==5\"]"
      = [.mk "people" (some (.predicate (.mk "name" [.mk "name" none] .notEqual
        "O'Brien.jr ==5\"")))]
  := by
  have ha : ∀ c ∈ "name".toList, c.isAlphanum = true := List.all_eq_true.mp (by decide +kernel)
  have hc : ∀ c ∈ "name".toList, isNameChar c = true := by
    intro c hm
    exact isNameChar_of_isAlphanum (.inl (ha c hm))
  have hi : ¬ EndsInQuote "O'Brien.jr ==5\"".toList := by decide +kernel
  have ht : "people[@.name!=O'Brien.jr ==5\"]"
      = "people" ++ "[@." ++ "name" ++ Operator.notEqual.text ++ "O'Brien.jr ==5\"" ++ "]" := by
    decide +kernel
  refine ⟨hc, hi, ?_⟩
  rw [ht, (parsePath_bare (by decide +kernel) (by decide +kernel) (by decide) hc (by decide)
    (by decide +kernel) (by decide +kernel) (by decide +kernel) (by decide +kernel)
    (by decide +kernel)).1, if_neg hi]

/-- Behind a second operator a quote mark opens a quoted literal, and the bracket is malformed. -/
theorem parsePath_bare_quote_behind_operator :
  ¬ ∀ (name property literal : String) (operator : Operator),
    '.' ∉ name.toList → '[' ∉ name.toList → property ≠ "" →
    (∀ c ∈ property.toList, c.isAlphanum ∨ c = '_') → literal ≠ "" →
    literal.toList.head?.any isBlank = false → literal.toList.getLast?.any isBlank = false →
    literal.toList.head?.any isQuoteMark = false → '[' ∉ literal.toList → ']' ∉ literal.toList →
    ∃ segments, parsePath (name ++ "[@." ++ property ++ operator.text ++ literal ++ "]")
      = [.mk name (some (.predicate (.mk property segments operator literal)))]
  := by
  intro h
  have hc : ∀ c ∈ "f".toList, c.isAlphanum = true ∨ c = '_' :=
    List.forall_mem_singleton.mpr (.inl rfl)
  obtain ⟨segments, hs⟩ := h "n" "f" "x==\"a" .equal (by decide +kernel) (by decide +kernel)
    (by decide) hc (by decide) (by decide +kernel) (by decide +kernel) (by decide +kernel)
    (by decide +kernel) (by decide +kernel)
  have ht : ("n" ++ "[@." ++ "f" ++ Operator.equal.text ++ "x==\"a" ++ "]").toList
      = ['n'] ++ '[' :: "@.f==x==\"a]".toList := by
    decide +kernel
  have hm : parse (['n'] ++ '[' :: "@.f==x==\"a]".toList)
      = [.mk (String.ofList ['n']) (some (.malformed (String.ofList "@.f==x==\"a]".toList)))] :=
    parse_unclosed (by decide) (by decide) (by decide +kernel)
  rw [parsePath, ht, hm] at hs
  cases (Segment.mk.inj (List.cons.inj hs).1).2

end JsonAudit
