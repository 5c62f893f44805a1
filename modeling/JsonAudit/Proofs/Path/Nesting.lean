import JsonAudit.Proofs.Path.Brackets
import JsonAudit.Proofs.Text.Trimming

/-!
# Paths inside a condition

The path of a condition is scanned three times: inside its bracket when the path around it is
split, inside its bracket when that is split off, and outside every bracket when the operator is
looked for.  A text that hides its operators, having each inside a bracket of its own, is scanned
in the same way one bracket deeper, and what it hides besides is what does not close the bracket
around it.  So a path that can stand in a condition (`IsNestedPath`) is scanned in one way all
three times.
-/

namespace JsonAudit

open Scanner

/-! ### Hidden texts -/

/-- Wherever the mark stands in the text, it stands inside a bracket. -/
def Scanner.Hides (s : Scanner) (mark text : List Char) : Prop :=
  ∀ before after, text = before ++ mark ++ after → 0 < (s.run before).depth

theorem Scanner.hides_nil_iff {s : Scanner} {mark : List Char} :
  s.Hides mark [] ↔ (mark = [] → 0 < s.depth)
  := by
  constructor
  · rintro h rfl
    exact h [] [] rfl
  · intro h before after ht
    obtain ⟨hb, -⟩ := List.append_eq_nil_iff.mp ht.symm
    obtain ⟨rfl, hm⟩ := List.append_eq_nil_iff.mp hb
    exact h hm

/-- A text hides a mark if its rest does, and no mark at its beginning is outside brackets. -/
theorem Scanner.hides_cons_iff {s : Scanner} {mark text : List Char} {c : Char} :
  s.Hides mark (c :: text) ↔ (mark <+: c :: text → 0 < s.depth) ∧ (s.next c).Hides mark text
  := by
  constructor
  · intro h
    constructor
    · rintro ⟨after, ha⟩
      exact h [] after ha.symm
    · rintro before after rfl
      exact h (c :: before) after rfl
  · rintro ⟨hs, hn⟩ before after ht
    cases before with
    | nil => exact hs ⟨after, ht.symm⟩
    | cons d rest =>
      obtain ⟨rfl, hr⟩ := List.cons.inj ht
      exact hn rest after hr

instance (s : Scanner) (mark text : List Char) : Decidable (s.Hides mark text) :=
  decide text s
where
  /-- Decides along the text. -/
  decide : (text : List Char) → (s : Scanner) → Decidable (s.Hides mark text)
    | [], _ => decidable_of_iff _ hides_nil_iff.symm
    | c :: rest, s =>
      have := decide rest (s.next c)
      decidable_of_iff _ hides_cons_iff.symm

/-- The beginning of a text that hides a mark hides it. -/
theorem Scanner.Hides.of_append {s : Scanner} {mark text rest : List Char}
    (h : s.Hides mark (text ++ rest)) :
  s.Hides mark text
  := by
  rintro before after rfl
  exact h before (after ++ rest) (List.append_assoc _ _ _)

/-- One more character keeps the mark hidden unless it ends it. -/
theorem Scanner.Hides.snoc {s : Scanner} {mark text : List Char} (h : s.Hides mark text) {c : Char}
    (hc : ¬ mark <:+ text ++ [c]) :
  s.Hides mark (text ++ [c])
  := by
  intro before after ht
  rcases List.eq_nil_or_concat after with rfl | ⟨rest, d, rfl⟩
  · rw [List.append_nil] at ht
    cases hc ⟨before, ht.symm⟩
  · rw [List.concat_eq_append, ← List.append_assoc] at ht
    exact h before rest (List.append_inj' ht rfl).1

/-- What is hidden behind a text that leaves the scanner settled is hidden on its own. -/
theorem Scanner.Hides.of_settled {before mark text : List Char}
    (hs : ((start 0).run before).Settled) (h : (start 0).Hides mark (before ++ text)) :
  (start 0).Hides mark text
  := by
  rintro first after rfl
  have hd := h (before ++ first) after (by simp only [List.append_assoc])
  rwa [run_append, (hs.alike_start.run first).depth] at hd

/-! ### Operators -/

theorem Operator.toList_text (operator : Operator) :
  operator.text.toList = [operator.firstChar, '=']
  := by
  cases operator <;> rfl

theorem beginsOperator_firstChar (operator : Operator) :
  beginsOperator operator.firstChar = true
  := by
  cases operator <;> rfl

theorem ofFirstChar_eq_some_iff {c : Char} {operator : Operator} :
  Operator.ofFirstChar c = some operator ↔ c = operator.firstChar
  := by
  constructor
  · intro h
    unfold Operator.ofFirstChar at h
    split at h <;> cases h <;> rfl
  · rintro rfl
    cases operator <;> rfl

/-- A character that can begin an operator is the first one of one. -/
theorem exists_operator {c : Char} (h : beginsOperator c = true) :
  ∃ operator : Operator, c = operator.firstChar
  := by
  rw [beginsOperator, Bool.or_eq_true, beq_iff_eq, beq_iff_eq] at h
  rcases h with rfl | rfl
  · exact ⟨.equal, rfl⟩
  · exact ⟨.notEqual, rfl⟩

/-- The first character of an operator opens and closes no bracket. -/
theorem Scanner.depth_next_operator (s : Scanner) (operator : Operator) :
  (s.next operator.firstChar).depth = s.depth
  := by
  apply depth_next
  all_goals cases operator <;> decide

/-- The scanner remembers the last character. -/
theorem Scanner.previous_next (s : Scanner) (c : Char) :
  (s.next c).previous = some c
  := by
  apply next_cases (motive := fun t => t.previous = some c) s c
  · intro _ _
    rfl
  · intro _ _
    rfl
  · intro _ _
    rfl
  · intro _
    unfold nextPlain
    split <;> rfl

/-- An operator stands where its first character is followed by `=`. -/
theorem operator_prefix_iff {operator : Operator} {c : Char} {rest : List Char} :
  operator.text.toList <+: c :: rest ↔ c = operator.firstChar ∧ rest.head? = some '='
  := by
  rw [Operator.toList_text, List.cons_prefix_cons, List.singleton_prefix_iff_head?_eq_some,
    eq_comm]

/-- An operator begins outside brackets exactly if none is open and its characters come next. -/
theorem operatorAt_eq_some_iff {s : Scanner} (hs : s.Sound) {c : Char} {rest : List Char}
    {operator : Operator} :
  operatorAt s c rest = some operator ↔ s.depth = 0 ∧ operator.text.toList <+: c :: rest
  := by
  rw [operator_prefix_iff, operatorAt]
  constructor
  · intro h
    split at h
    · rename_i hc
      simp only [Bool.and_eq_true, beq_iff_eq] at hc
      obtain ⟨⟨-, hd⟩, hh⟩ := hc
      have hf := ofFirstChar_eq_some_iff.mp h
      rw [hf, depth_next_operator] at hd
      exact ⟨hd, hf, hh⟩
    · cases h
  · rintro ⟨hd, rfl, hh⟩
    have hp : s.isPlain operator.firstChar = true := by
      simp [Scanner.isPlain, (hs.settled hd).quote, (hs.settled hd).awaiting]
    rw [hp, depth_next_operator, hd, hh]
    exact ofFirstChar_eq_some_iff.mpr rfl

/-- Whether an operator begins a text does not depend on what stands behind its second
character. -/
theorem operator_prefix_cons_iff {operator : Operator} {c d : Char} {inner rest : List Char} :
  operator.text.toList <+: c :: (inner ++ d :: rest)
    ↔ operator.text.toList <+: c :: (inner ++ [d])
  := by
  rw [operator_prefix_iff, operator_prefix_iff]
  cases inner <;> rfl

/-- The operator found is the first that is not hidden. -/
theorem splitOperator_spec {s : Scanner} (hs : s.Sound) {text before after : List Char}
    {operator : Operator} (h : splitOperator s text = some (before, operator, after)) :
  text = before ++ operator.firstChar :: '=' :: after ∧ (s.run before).depth = 0
    ∧ ∀ other : Operator, s.Hides other.text.toList (before ++ [operator.firstChar])
  := by
  induction text generalizing s before with
  | nil => cases h
  | cons c rest ih =>
    rw [splitOperator] at h
    cases ho : operatorAt s c rest with
    | some found =>
      rw [ho] at h
      cases h
      obtain ⟨hd, hp⟩ := (operatorAt_eq_some_iff hs).mp ho
      obtain ⟨rfl, hh⟩ := operator_prefix_iff.mp hp
      obtain ⟨tail, rfl⟩ := List.head?_eq_some_iff.mp hh
      refine ⟨rfl, hd, ?_⟩
      intro other
      rw [List.nil_append, hides_cons_iff, hides_nil_iff, operator_prefix_iff,
        Operator.toList_text]
      constructor
      · rintro ⟨-, hn⟩
        cases hn
      · intro hn
        cases hn
    | none =>
      rw [ho] at h
      obtain ⟨⟨inner, found⟩, hi, he⟩ := Option.map_eq_some_iff.mp h
      obtain ⟨rfl, rfl⟩ := Prod.mk.inj he
      obtain ⟨rfl, hd, hh⟩ := ih (hs.next c) hi
      refine ⟨rfl, hd, ?_⟩
      intro other
      rw [List.cons_append, hides_cons_iff]
      refine ⟨?_, hh other⟩
      intro hp
      apply Nat.pos_of_ne_zero
      intro hz
      rw [(operatorAt_eq_some_iff hs).mpr ⟨hz, operator_prefix_cons_iff.mpr hp⟩] at ho
      cases ho

/-- An operator outside brackets is found if all before it are hidden. -/
theorem splitOperator_of_hides {s : Scanner} (hs : s.Sound) {before : List Char}
    {operator : Operator} (hd : (s.run before).depth = 0)
    (hh : ∀ other : Operator, s.Hides other.text.toList (before ++ [operator.firstChar]))
    (after : List Char) :
  splitOperator s (before ++ operator.firstChar :: '=' :: after)
    = some (before, operator, after)
  := by
  induction before generalizing s with
  | nil =>
    have ho : operatorAt s operator.firstChar ('=' :: after) = some operator :=
      (operatorAt_eq_some_iff hs).mpr ⟨hd, operator_prefix_iff.mpr ⟨rfl, rfl⟩⟩
    rw [List.nil_append, splitOperator, ho]
    rfl
  | cons c rest ih =>
    have ho : operatorAt s c (rest ++ operator.firstChar :: '=' :: after) = none := by
      apply Option.eq_none_iff_forall_ne_some.mpr
      intro other ho
      obtain ⟨hz, hp⟩ := (operatorAt_eq_some_iff hs).mp ho
      have hlt := (hides_cons_iff.mp (hh other)).1 (operator_prefix_cons_iff.mp hp)
      omega
    have hr := ih (hs.next c) hd fun other => (hides_cons_iff.mp (hh other)).2
    rw [List.cons_append, splitOperator, ho, hr]
    rfl

/-! ### One bracket deeper -/

/-- The scanner inside one more bracket. -/
def Scanner.deeper (s : Scanner) : Scanner := { s with depth := s.depth + 1 }

/-- The operators that end in the text are hidden. -/
structure Scanner.HidesOperators (s : Scanner) (text : List Char) : Prop where
  within : ∀ operator : Operator, s.Hides operator.text.toList text
  across : text.head? = some '=' → s.previous.any beginsOperator = true → 0 < s.depth

/-- At its beginning a text hides its operators if it hides each of them. -/
theorem Scanner.hidesOperators_start {text : List Char}
    (h : ∀ operator : Operator, (start 0).Hides operator.text.toList text) :
  (start 0).HidesOperators text
  := ⟨h, nofun⟩

/-- What follows the first character of a text that hides its operators hides them. -/
theorem Scanner.HidesOperators.next {s : Scanner} {c : Char} {rest : List Char}
    (h : s.HidesOperators (c :: rest)) :
  (s.next c).HidesOperators rest
  := by
  constructor
  · intro operator
    exact (hides_cons_iff.mp (h.within operator)).2
  · intro hh hp
    rw [previous_next] at hp
    obtain ⟨operator, rfl⟩ := exists_operator hp
    rw [depth_next_operator]
    exact (hides_cons_iff.mp (h.within operator)).1 (operator_prefix_iff.mpr ⟨rfl, hh⟩)

/-- A character is read one bracket deeper as it is here, unless it is a `]` or the end of an
operator that is not hidden. -/
theorem Scanner.next_deeper {s : Scanner} {c : Char} (hb : c = ']' → 0 < s.depth)
    (ho : c = '=' → s.previous.any beginsOperator = true → 0 < s.depth) :
  s.deeper.next c = (s.next c).deeper
  := by
  obtain ⟨depth, quote, awaiting, previous⟩ := s
  have hp : (deeper ⟨depth, quote, awaiting, previous⟩).nextPlain c
      = ((⟨depth, quote, awaiting, previous⟩ : Scanner).nextPlain c).deeper := by
    unfold nextPlain
    split
    · rfl
    · have hd := hb rfl
      simp only [deeper] at hd ⊢
      congr 1
      omega
    · simp only [deeper]
      congr 1
      cases hq : previous.any beginsOperator with
      | false => simp
      | true => simp [ho rfl hq]
    · rfl
  cases quote with
  | some mark => rfl
  | none =>
    simp only [deeper] at hp
    simp only [Scanner.next, deeper, hp]
    split
    · split
      · rfl
      · split <;> rfl
    · rfl

/-- A text that hides its operators is passed over one bracket deeper exactly if it hides `]`: one
where no bracket of the text is open closes the bracket around the text. -/
theorem closeFrom_deeper_iff {s : Scanner} (hs : s.Sound) {text : List Char}
    (h : s.HidesOperators text) :
  closeFrom s.deeper text = none ↔ s.Hides [']'] text
  := by
  induction text generalizing s with
  | nil => simp [closeFrom, hides_nil_iff]
  | cons c rest ih =>
    rw [hides_cons_iff, List.singleton_prefix_iff_head?_eq_some, List.head?_cons,
      Option.some_inj, closeFrom]
    by_cases hc : c = ']' ∧ s.depth = 0
    · obtain ⟨rfl, hd⟩ := hc
      have ho : s.deeper.isOutermost ']' ']' = true :=
        isOutermost_bracket_iff.mpr ⟨(hs.settled hd).quote, Nat.le_of_eq (congrArg (· + 1) hd)⟩
      rw [if_pos ho]
      simp [hd]
    · have hb : c = ']' → 0 < s.depth := fun he => Nat.pos_of_ne_zero fun hz => hc ⟨he, hz⟩
      have ho : ¬ s.deeper.isOutermost ']' c = true := by
        intro ho
        have he : c = ']' := eq_of_isOutermost ho
        have hl := (isOutermost_bracket_iff.mp (he ▸ ho)).2
        have hd := hb he
        simp only [deeper] at hl
        omega
      have hn : s.deeper.next c = (s.next c).deeper := by
        apply next_deeper hb
        intro he
        apply h.across (congrArg some he)
      rw [if_neg ho, Option.map_eq_none_iff, hn, ih (hs.next c) h.next]
      exact (and_iff_right hb).symm

/-- A text that hides its operators and `]` is scanned one bracket deeper as it is here. -/
theorem Scanner.run_deeper {s : Scanner} {text : List Char} (h : s.HidesOperators text)
    (hb : s.Hides [']'] text) :
  s.deeper.run text = (s.run text).deeper
  := by
  induction text generalizing s with
  | nil => rfl
  | cons c rest ih =>
    rw [hides_cons_iff, List.singleton_prefix_iff_head?_eq_some, List.head?_cons,
      Option.some_inj] at hb
    have hn : s.deeper.next c = (s.next c).deeper := by
      apply next_deeper hb.1
      intro he
      apply h.across (congrArg some he)
    rw [Scanner.run, List.foldl_cons, hn]
    exact ih h.next hb.2

/-! ### Nested paths -/

/-- The text can stand in a condition as its path: it is not empty and has no blanks, every
bracket in it is matched, and operators stand inside brackets only. -/
structure IsNestedPath (path : List Char) : Prop where
  ne_nil : path ≠ []
  noBlank : ∀ c ∈ path, isBlank c = false
  closed : ((start 0).run path).depth = 0
  brackets : (start 0).Hides [']'] path
  operators : ∀ operator : Operator, (start 0).Hides operator.text.toList path

theorem Operator.forall_iff {p : Operator → Prop} :
  (∀ operator, p operator) ↔ p .equal ∧ p .notEqual
  := by
  constructor
  · intro h
    exact ⟨h .equal, h .notEqual⟩
  · rintro ⟨he, hn⟩ (_ | _)
    · exact he
    · exact hn

/-- Whether a path can stand in a condition is decided by a look at each operator. -/
theorem isNestedPath_iff {path : List Char} :
  IsNestedPath path ↔ path ≠ [] ∧ path.any isBlank = false
    ∧ ((start 0).run path).depth = 0 ∧ (start 0).Hides [']'] path
    ∧ (start 0).Hides Operator.equal.text.toList path
    ∧ (start 0).Hides Operator.notEqual.text.toList path
  := by
  rw [← Operator.forall_iff (p := fun operator => (start 0).Hides operator.text.toList path),
    List.any_eq_false]
  simp only [Bool.not_eq_true]
  constructor
  · rintro ⟨hn, hb, hd, hc, ho⟩
    exact ⟨hn, hb, hd, hc, ho⟩
  · rintro ⟨hn, hb, hd, hc, ho⟩
    exact ⟨hn, hb, hd, hc, ho⟩

instance (path : List Char) : Decidable (IsNestedPath path) :=
  decidable_of_iff _ isNestedPath_iff.symm

/-- A name can stand in a condition as its path. -/
theorem isNestedPath_of_name {name : List Char} (hn : name ≠ [])
    (h : ∀ c ∈ name, isIdle c = true) (hb : ∀ c ∈ name, isBlank c = false) :
  IsNestedPath name
  := by
  have ho := not_mem_idle h rfl (c := '[')
  have hc := not_mem_idle h rfl (c := ']')
  have he := not_mem_idle h rfl (c := '=')
  refine ⟨hn, hb, depth_run ho hc, ?_, ?_⟩
  · rintro before after rfl
    simp at hc
  · rintro operator before after rfl
    simp [Operator.toList_text] at he

/-- The beginning of a condition is idle. -/
theorem isIdle_of_mem_sign :
  ∀ c ∈ ['@', '.'], isIdle c = true
  := List.all_eq_true.mp rfl

/-- A blank changes nothing about the scanner but what it saw last. -/
theorem isIdle_of_isBlank {c : Char} (h : isBlank c = true) :
  isIdle c = true
  := by
  simp only [isIdle, Bool.not_eq_true', Bool.or_eq_false_iff, beq_eq_false_iff_ne]
  refine ⟨⟨⟨?_, ?_⟩, ?_⟩, ?_⟩
  all_goals
    rintro rfl
    cases h

theorem isIdle_of_mem_blanks {blanks : List Char} (h : allBlank blanks = true) :
  ∀ c ∈ blanks, isIdle c = true
  := by
  intro c hc
  exact isIdle_of_isBlank (List.all_eq_true.mp h c hc)

/-- Blanks around a text make no difference to what it hides, nor to its brackets. -/
theorem isNestedPath_trim {text : List Char} (hn : trim text ≠ [])
    (hb : ∀ c ∈ trim text, isBlank c = false) (hd : ((start 0).run text).depth = 0)
    (hc : (start 0).Hides [']'] text)
    (ho : ∀ operator : Operator, (start 0).Hides operator.text.toList text) :
  IsNestedPath (trim text)
  := by
  obtain ⟨before, after, hbefore, hafter, ht⟩ := exists_trim text
  have hi := isIdle_of_mem_blanks hafter
  have hs : ((start 0).run before).Settled :=
    settled_start.run (not_mem_idle (isIdle_of_mem_blanks hbefore) rfl)
  refine ⟨hn, hb, ?_, ?_, ?_⟩
  · rw [ht, run_append, (hs.alike_start.run _).depth, run_append,
      depth_run (not_mem_idle hi rfl) (not_mem_idle hi rfl)] at hd
    exact hd
  · rw [ht] at hc
    exact (hc.of_settled hs).of_append
  · intro operator
    have hh := ho operator
    rw [ht] at hh
    exact (hh.of_settled hs).of_append

end JsonAudit
