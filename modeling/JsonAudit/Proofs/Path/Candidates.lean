import JsonAudit.Proofs.Path.Keys

/-!
# Candidates of a predicate

The candidates of a predicate are the elements of an array that have a value at its path, other than
null.  A predicate binds the first candidate whose rendering stands in its relation to the literal,
or else the array itself.  The two operators split the candidates among them, so that with one path
and one literal the first candidate is bound by one of them: this is `operators_split_candidates`.
-/

namespace JsonAudit

/-! ### What a predicate binds -/

/-- The element with the index has a value at the path, other than null, that renders to the
text. -/
def Renders (segments : List Segment) (items : List Json) (i : Nat) (text : String) : Prop :=
  ∃ item value, items[i]? = some item ∧ (select segments item).value = some value
    ∧ value.isNull = false ∧ value.render = text

/-- The index is the least one of a candidate. -/
def IsFirstCandidate (segments : List Segment) (items : List Json) (k : Nat) : Prop :=
  (∃ text, Renders segments items k text) ∧ ∀ i < k, ∀ text, ¬ Renders segments items i text

namespace Predicate

/-- The walk through the predicate goes from the array to the element with the index. -/
def Binds (p : Predicate) (items : List Json) (i : Nat) : Prop :=
  ∃ item, items[i]? = some item
    ∧ (track [.mk "" (some (.predicate p))] (.array items)).value = some (item, [.index i])

/-- The walk through the predicate stays at the array. -/
def BindsArray (p : Predicate) (items : List Json) : Prop :=
  (track [.mk "" (some (.predicate p))] (.array items)).value = some (.array items, [])

end Predicate

/-- The first accepted item is the one at the first index at which an item is accepted. -/
theorem value_firstAccepted_eq (accepts : Json → Logged Note Bool) (i : Nat) (items : List Json) :
  (firstAccepted accepts i items).value
    = (items.findIdx? fun item => (accepts item).value).bind fun k =>
        items[k]?.map fun item => (i + k, item)
  := by
  induction items generalizing i with
  | nil => rfl
  | cons item rest ih =>
    rw [firstAccepted, Logged.value_bind, List.findIdx?_cons]
    cases (accepts item).value with
    | true => rfl
    | false =>
      simp only [ih, Bool.false_eq_true, if_false, Option.bind_map, Function.comp_def,
        List.getElem?_cons_succ, Nat.add_assoc, Nat.add_comm 1]

/-- A predicate leads to the first element that it accepts, and to the array if it accepts none. -/
theorem value_track_predicate (p : Predicate) (items : List Json) :
  (track [.mk "" (some (.predicate p))] (.array items)).value
    = match items.findIdx? fun item => (p.accepts item).value with
      | some k => items[k]?.map fun item => (item, [.index k])
      | none => some (.array items, [])
  := by
  have ha := value_firstAccepted_eq p.accepts 0 items
  rw [track_cons, Logged.value_andThen, Segment.enter, enterProperty_empty, Logged.pure_andThen]
  simp only [Indexer.enter, enterFirst, Logged.value_map, Logged.value_bind, ha]
  cases hf : items.findIdx? fun item => (p.accepts item).value with
  | none => rfl
  | some k =>
    obtain ⟨hk, -⟩ := List.findIdx?_eq_some_iff_getElem.mp hf
    simp [List.getElem?_eq_getElem hk, entered, track, Entered.value_behind]

namespace Predicate

variable {p : Predicate} {items : List Json}

/-- A predicate binds the array exactly if it accepts no element. -/
theorem bindsArray_iff :
  p.BindsArray items ↔ items.findIdx? (fun item => (p.accepts item).value) = none
  := by
  rw [BindsArray, value_track_predicate]
  cases items.findIdx? fun item => (p.accepts item).value with
  | none => simp
  | some k => cases items[k]? <;> simp

/-- A predicate binds an element exactly if it is the first that it accepts. -/
theorem binds_iff {i : Nat} :
  p.Binds items i ↔ items.findIdx? (fun item => (p.accepts item).value) = some i
  := by
  rw [Binds, value_track_predicate]
  cases hf : items.findIdx? fun item => (p.accepts item).value with
  | none => simp
  | some k =>
    obtain ⟨hk, -⟩ := List.findIdx?_eq_some_iff_getElem.mp hf
    dsimp only
    rw [List.getElem?_eq_getElem hk]
    constructor
    · rintro ⟨item, -, he⟩
      cases he
      rfl
    · intro he
      cases he
      exact ⟨items[i], List.getElem?_eq_getElem hk, rfl⟩

/-- A predicate binds the array itself unless it binds an element of it. -/
theorem not_bindsArray_iff :
  ¬ p.BindsArray items ↔ ∃ i, p.Binds items i
  := by
  simp only [bindsArray_iff, binds_iff, Option.ne_none_iff_exists']

/-- The element that is bound is accepted, and no earlier one is. -/
theorem Binds.accepts {i : Nat} (h : p.Binds items i) :
  (∃ item, items[i]? = some item ∧ (p.accepts item).value = true)
    ∧ ∀ j < i, ∀ item, items[j]? = some item → (p.accepts item).value = false
  := by
  obtain ⟨hi, ha, hn⟩ := List.findIdx?_eq_some_iff_getElem.mp (binds_iff.mp h)
  refine ⟨⟨items[i], List.getElem?_eq_getElem hi, ha⟩, ?_⟩
  intro j hj item hm
  obtain ⟨hl, rfl⟩ := List.getElem?_eq_some_iff.mp hm
  simpa using hn j hj

/-- An accepted element is bound, or an earlier one is. -/
theorem exists_binds_le {i : Nat} {item : Json} (hi : items[i]? = some item)
    (ha : (p.accepts item).value = true) :
  ∃ j ≤ i, p.Binds items j
  := by
  have hn : ¬ p.BindsArray items := by
    rw [bindsArray_iff, List.findIdx?_eq_none_iff]
    intro h
    rw [h item (List.mem_of_getElem? hi)] at ha
    cases ha
  obtain ⟨j, hj⟩ := not_bindsArray_iff.mp hn
  refine ⟨j, Nat.le_of_not_lt ?_, hj⟩
  intro hl
  rw [hj.accepts.2 i hl item hi] at ha
  cases ha

end Predicate

/-! ### Candidates -/

/-- An element is accepted if it renders to a text that stands in the relation to the literal. -/
theorem value_accepts_iff {property literal : String} {segments : List Segment}
    {operator : Operator} {item : Json} :
  ((Predicate.mk property segments operator literal).accepts item).value = true
    ↔ ∃ value, (select segments item).value = some value ∧ value.isNull = false
      ∧ operator.holds value.render literal = true
  := by
  rw [Predicate.accepts, Logged.value_map]
  cases (select segments item).value with
  | none => simp
  | some value => simp

/-- An element renders one text at most. -/
theorem renders_unique {segments : List Segment} {items : List Json} {i : Nat}
    {text text' : String} (h : Renders segments items i text)
    (h' : Renders segments items i text') :
  text = text'
  := by
  obtain ⟨item, value, hi, hv, -, rfl⟩ := h
  obtain ⟨item', value', hi', hv', -, rfl⟩ := h'
  obtain rfl := Option.some.inj (hi.symm.trans hi')
  obtain rfl := Option.some.inj (hv.symm.trans hv')
  rfl

section

variable {items : List Json} {property literal : String} {segments : List Segment}
  {operator : Operator}

/-- The element that a predicate binds is a candidate whose text stands in the relation, and no
earlier one is. -/
theorem binds_candidate {i : Nat}
    (h : (Predicate.mk property segments operator literal).Binds items i) :
  (∃ text, Renders segments items i text ∧ operator.holds text literal = true)
    ∧ ∀ j < i, ∀ text, Renders segments items j text → operator.holds text literal = false
  := by
  obtain ⟨⟨item, hi, ha⟩, hn⟩ := h.accepts
  constructor
  · obtain ⟨value, hv, hne, ho⟩ := value_accepts_iff.mp ha
    exact ⟨value.render, ⟨item, value, hi, hv, hne, rfl⟩, ho⟩
  · rintro j hj text ⟨item', value, hi', hv, hne, rfl⟩
    apply Bool.eq_false_iff.mpr
    intro ho
    have hr := hn j hj item' hi'
    rw [value_accepts_iff.mpr ⟨value, hv, hne, ho⟩] at hr
    cases hr

/-- A candidate whose text stands in the relation is bound, or an earlier one is. -/
theorem exists_binds_of_renders (property : String) {i : Nat} {text : String}
    (h : Renders segments items i text) (ho : operator.holds text literal = true) :
  ∃ j ≤ i, (Predicate.mk property segments operator literal).Binds items j
  := by
  obtain ⟨item, value, hi, hv, hne, rfl⟩ := h
  apply Predicate.exists_binds_le hi (value_accepts_iff.mpr ⟨value, hv, hne, ho⟩)

end

/-! ### Two operators -/

theorem Operator.holds_equal_iff {text literal : String} :
  equal.holds text literal = true ↔ text = literal
  := beq_iff_eq

theorem Operator.holds_notEqual_iff {text literal : String} :
  notEqual.holds text literal = true ↔ text ≠ literal
  := bne_iff_ne

section

variable {items : List Json} {property literal : String} {segments : List Segment}

/-- The element that `==` binds is the first one that renders the literal. -/
theorem renders_of_binds_equal {i : Nat}
    (h : (Predicate.mk property segments .equal literal).Binds items i) :
  Renders segments items i literal ∧ ∀ j < i, ¬ Renders segments items j literal
  := by
  obtain ⟨⟨text, ht, ho⟩, hn⟩ := binds_candidate h
  obtain rfl := Operator.holds_equal_iff.mp ho
  refine ⟨ht, ?_⟩
  intro j hj hr
  rw [hn j hj text hr] at ho
  cases ho

/-- The element that `!=` binds is the first one that renders another text than the literal. -/
theorem renders_of_binds_notEqual {i : Nat}
    (h : (Predicate.mk property segments .notEqual literal).Binds items i) :
  (∃ text, Renders segments items i text ∧ text ≠ literal)
    ∧ ∀ j < i, ∀ text, Renders segments items j text → text = literal
  := by
  obtain ⟨⟨text, ht, ho⟩, hn⟩ := binds_candidate h
  refine ⟨⟨text, ht, Operator.holds_notEqual_iff.mp ho⟩, ?_⟩
  intro j hj other hr
  apply Classical.byContradiction
  intro hne
  have hf := hn j hj other hr
  rw [Operator.holds_notEqual_iff.mpr hne] at hf
  cases hf

/-- A candidate is accepted with one of the operators, so that one of them binds it or an earlier
element. -/
theorem exists_binds_of_candidate {i : Nat} {text : String} (h : Renders segments items i text)
    (property literal : String) :
  ∃ j ≤ i, (Predicate.mk property segments .equal literal).Binds items j
    ∨ (Predicate.mk property segments .notEqual literal).Binds items j
  := by
  by_cases he : text = literal
  · obtain ⟨j, hj, hb⟩ := exists_binds_of_renders property h
      (Operator.holds_equal_iff.mpr he)
    exact ⟨j, hj, .inl hb⟩
  · obtain ⟨j, hj, hb⟩ := exists_binds_of_renders property h
      (Operator.holds_notEqual_iff.mpr he)
    exact ⟨j, hj, .inr hb⟩

/-- No predicate binds an element before the first candidate. -/
theorem IsFirstCandidate.le_of_binds {k i : Nat} (hk : IsFirstCandidate segments items k)
    {operator : Operator} (h : (Predicate.mk property segments operator literal).Binds items i) :
  k ≤ i
  := by
  obtain ⟨⟨text, ht, -⟩, -⟩ := binds_candidate h
  apply Nat.le_of_not_lt
  intro hl
  apply hk.2 i hl text ht

end

/-- The two operators, with one path and one literal, split the candidates.  Each predicate binds
the array itself or an element.  Both bind the array just if there is no candidate; otherwise the
first candidate is the lesser one of the elements that are bound, which are not the same.  The
element bound by `==` is the first candidate that renders to the literal, and the one bound by `!=`
the first that does not. -/
theorem operators_split_candidates (items : List Json) (property : String)
    (segments : List Segment) (literal : String) :
  let equal := Predicate.mk property segments .equal literal
  let notEqual := Predicate.mk property segments .notEqual literal
  (∀ p ∈ [equal, notEqual], ¬ p.BindsArray items ↔ ∃ i, p.Binds items i)
    ∧ (equal.BindsArray items ∧ notEqual.BindsArray items
      ↔ ∀ i text, ¬ Renders segments items i text)
    ∧ (∀ k, IsFirstCandidate segments items k →
      (equal.Binds items k ∨ notEqual.Binds items k)
        ∧ ∀ i, equal.Binds items i ∨ notEqual.Binds items i → k ≤ i)
    ∧ (∀ i j, equal.Binds items i → notEqual.Binds items j → i ≠ j)
    ∧ (∀ i, equal.Binds items i →
      Renders segments items i literal ∧ ∀ j < i, ¬ Renders segments items j literal)
    ∧ (∀ j, notEqual.Binds items j →
      (∃ text, Renders segments items j text ∧ text ≠ literal)
        ∧ ∀ i < j, ∀ text, Renders segments items i text → text = literal)
  := by
  intro equal notEqual
  refine ⟨fun p _ => Predicate.not_bindsArray_iff, ?_, ?_, ?_, fun i => renders_of_binds_equal,
    fun j => renders_of_binds_notEqual⟩
  · constructor
    · rintro ⟨he, hn⟩ i text hr
      obtain ⟨j, -, hj | hj⟩ := exists_binds_of_candidate hr property literal
      · apply Predicate.not_bindsArray_iff.mpr ⟨j, hj⟩ he
      · apply Predicate.not_bindsArray_iff.mpr ⟨j, hj⟩ hn
    · intro h
      have ha (operator : Operator) :
          (Predicate.mk property segments operator literal).BindsArray items := by
        apply Classical.byContradiction
        intro hn
        obtain ⟨i, hi⟩ := Predicate.not_bindsArray_iff.mp hn
        obtain ⟨⟨text, ht, -⟩, -⟩ := binds_candidate hi
        apply h i text ht
      exact ⟨ha .equal, ha .notEqual⟩
  · intro k hk
    have hle : ∀ i, equal.Binds items i ∨ notEqual.Binds items i → k ≤ i := by
      rintro i (hi | hi) <;> apply hk.le_of_binds hi
    obtain ⟨text, ht⟩ := hk.1
    obtain ⟨j, hj, hb⟩ := exists_binds_of_candidate ht property literal
    obtain rfl := Nat.le_antisymm hj (hle j hb)
    exact ⟨hb, hle⟩
  · rintro i j hi hj rfl
    obtain ⟨text, ht, hne⟩ := (renders_of_binds_notEqual hj).1
    apply hne (renders_unique ht (renders_of_binds_equal hi).1)

/-- Without a value, with null, with an array, and with the text of the literal. -/
def mixedRows : List Json :=
  [.object [], .object [("k", .null)], .object [("k", .array [.bool true])],
    .object [("k", .string "x")]]

/-- The first candidate is an array, which `!=` binds; `==` binds the one after it. -/
theorem operators_split_candidates_mixedRows :
  IsFirstCandidate [.mk "k" none] mixedRows 2
    ∧ (Predicate.mk "k" [.mk "k" none] .equal "x").Binds mixedRows 3
    ∧ (Predicate.mk "k" [.mk "k" none] .notEqual "x").Binds mixedRows 2
  := by
  have hr : ∀ i text, Renders [.mk "k" none] mixedRows i text →
      (i = 2 ∧ text = "[true]") ∨ (i = 3 ∧ text = "x") := by
    rintro i text ⟨item, value, hi, hv, hn, rfl⟩
    match i, hi with
    | 0, hi =>
      cases hi
      cases hv
    | 1, hi =>
      cases hi
      cases hv
      cases hn
    | 2, hi =>
      cases hi
      cases hv
      exact .inl ⟨rfl, by decide⟩
    | 3, hi =>
      cases hi
      cases hv
      exact .inr ⟨rfl, rfl⟩
  have hk : IsFirstCandidate [.mk "k" none] mixedRows 2 := by
    refine ⟨⟨_, _, _, rfl, rfl, rfl, rfl⟩, ?_⟩
    intro i hi text ht
    obtain ⟨rfl, -⟩ | ⟨rfl, -⟩ := hr i text ht
    · exact absurd hi (Nat.lt_irrefl 2)
    · exact absurd hi (by decide)
  obtain ⟨-, -, hs, -, he, -⟩ :=
    operators_split_candidates mixedRows "k" [.mk "k" none] "x"
  have hb : (Predicate.mk "k" [.mk "k" none] .equal "x").Binds mixedRows 3 := ⟨_, rfl, rfl⟩
  refine ⟨hk, hb, ((hs 2 hk).1.resolve_left ?_)⟩
  intro h
  obtain ⟨-, ht⟩ | ⟨hi, -⟩ := hr 2 "x" (he 2 h).1
  · exact absurd ht (by decide)
  · cases hi

end JsonAudit
