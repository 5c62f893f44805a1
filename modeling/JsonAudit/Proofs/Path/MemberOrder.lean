import JsonAudit.Proofs.Json.Reordering
import JsonAudit.Proofs.Path.Navigation

/-!
# Selecting whatever the order of members

A property is found by its name and an element by its index, so that the order of members can reach
what is selected only through a predicate that compares the JSON text of an object or an array.  If
no literal in a path begins as such a text does, the path selects in two reordered documents what is
reordered in turn, at the same canonical path and with the same notes: this is `locate_reordered`.
The induction is on segments, indexers and predicates together.
-/

namespace JsonAudit

/-! ### Literals -/

mutual

/-- The literals of the predicates in a segment, at every level. -/
def Segment.literals : Segment → List String
  | .mk _ none => []
  | .mk _ (some indexer) => indexer.literals

/-- The literals of the predicates in an indexer, at every level. -/
def Indexer.literals : Indexer → List String
  | .index _ => []
  | .predicate p => p.literals
  | .malformed _ => []

/-- The literals of a predicate and of those in its path, at every level. -/
def Predicate.literals : Predicate → List String
  | .mk _ segments _ literal => literal :: Segment.literalsList segments

/-- The literals of the predicates in a list of segments, at every level. -/
def Segment.literalsList : List Segment → List String
  | [] => []
  | segment :: rest => segment.literals ++ Segment.literalsList rest

end

/-! ### Two walks -/

/-- The same was noted, and the values are related. -/
structure Logged.Beside {ε α β : Type} (R : α → β → Prop) (x : Logged ε α) (y : Logged ε β) :
    Prop where
  entries : x.entries = y.entries
  value : R x.value y.value

/-- The parts found are twins, at the end of the same steps. -/
def FoundTwins (found found' : Json × List Step) : Prop :=
  found.1.Twins found'.1 ∧ found.2 = found'.2

/-- The walks find twins along the same steps, or both find nothing; they note the same. -/
abbrev Entered.Beside (x y : Entered) : Prop := Logged.Beside (Option.Rel FoundTwins) x y

namespace Logged.Beside

variable {ε α β γ δ : Type} {R : α → β → Prop} {S : γ → δ → Prop}

theorem pure {a : α} {b : β} (h : R a b) :
  Beside R (Logged.pure a : Logged ε α) (Logged.pure b)
  := ⟨rfl, h⟩

theorem note (entry : ε) {a : α} {b : β} (h : R a b) :
  Beside R (Logged.note entry a) (Logged.note entry b)
  := ⟨rfl, h⟩

/-- Mapping keeps answers related if the functions do. -/
theorem map {x : Logged ε α} {y : Logged ε β} (h : x.Beside R y) {f : α → γ} {g : β → δ}
    (hf : ∀ a b, R a b → S (f a) (g b)) :
  (x.map f).Beside S (y.map g)
  := ⟨h.entries, hf _ _ h.value⟩

/-- Going on from related answers in related ways comes to related ones, with the same notes. -/
theorem bind {x : Logged ε α} {y : Logged ε β} (h : x.Beside R y) {f : α → Logged ε γ}
    {g : β → Logged ε δ} (hf : ∀ a b, R a b → (f a).Beside S (g b)) :
  (x.bind f).Beside S (y.bind g)
  := by
  obtain ⟨he, hv⟩ := hf _ _ h.value
  constructor
  · rw [Logged.bind, Logged.bind, h.entries, he]
  · apply hv

/-- Going on only from what was found keeps answers related. -/
theorem andThen {x : Logged ε (Option α)} {y : Logged ε (Option β)}
    (h : x.Beside (Option.Rel R) y) {f : α → Logged ε (Option γ)} {g : β → Logged ε (Option δ)}
    (hf : ∀ a b, R a b → (f a).Beside (Option.Rel S) (g b)) :
  (x.andThen f).Beside (Option.Rel S) (y.andThen g)
  := by
  apply h.bind
  rintro _ _ (hr | _)
  · apply hf _ _ hr
  · exact .pure .none

end Logged.Beside

/-- Found behind the same steps, twins stay beside each other. -/
theorem Entered.Beside.behind {x y : Entered} (h : x.Beside y) (steps : List Step) :
  (x.behind steps).Beside (y.behind steps)
  := by
  apply Logged.Beside.map h
  rintro _ _ (⟨ht, hs⟩ | _)
  · exact .some ⟨ht, congrArg (steps ++ ·) hs⟩
  · exact .none

/-! ### Properties and elements -/

/-- What is found in a document with distinct names is beside itself. -/
theorem Entered.beside_refl (x : Entered)
    (h : ∀ part steps, x.value = some (part, steps) → part.DistinctNames) :
  x.Beside x
  := by
  refine ⟨rfl, ?_⟩
  cases hv : x.value with
  | none => exact .none
  | some found => exact .some ⟨.refl (h found.1 found.2 hv), rfl⟩

/-- A step leads to twins in both, or the same note is made. -/
theorem found_beside (step : Step) (n : Note) {found found' : Option Json} :
  Option.Rel Json.Twins found found' →
    Entered.Beside
      (match found with
        | some part => entered part step
        | none => .note n none)
      (match found' with
        | some part => entered part step
        | none => .note n none)
  := by
  intro h
  cases h with
  | none => exact .note n .none
  | some ht => exact .pure (.some ⟨ht, rfl⟩)

/-- A property leads to twins in twins. -/
theorem enterProperty_beside (name : String) {a b : Json} (h : a.Twins b) :
  (enterProperty name a).Beside (enterProperty name b)
  := by
  cases h.matched with
  | same hd =>
    apply Entered.beside_refl
    intro part steps hv
    apply hd.part (Json.part_of_descend (value_enterProperty hv).1)
  | @object members members' hm =>
    unfold enterProperty
    split
    · exact .pure (.some ⟨h, rfl⟩)
    · exact found_beside (.key name) (.missingProperty name) (hm name)
  | array =>
    unfold enterProperty
    split
    · exact .pure (.some ⟨h, rfl⟩)
    · exact .note _ .none

/-- Twin lists have twins at every index. -/
theorem rel_getElem? {items items' : List Json} (h : List.Forall₂ Json.Twins items items')
    (i : Nat) :
  Option.Rel Json.Twins items[i]? items'[i]?
  := by
  induction h generalizing i with
  | nil => exact .none
  | cons ht _ ih =>
    cases i with
    | zero => exact .some ht
    | succ i => apply ih

/-- Twins are arrays of twins, or none of them is an array. -/
theorem Json.Twins.array_cases {a b : Json} (h : a.Twins b) :
  (∃ items items', a = .array items ∧ b = .array items' ∧ List.Forall₂ Twins items items')
    ∨ (∀ items, a ≠ .array items) ∧ ∀ items, b ≠ .array items
  := by
  cases h.matched with
  | same hd =>
    cases a with
    | array items =>
      exact .inl ⟨items, items, rfl, rfl, DistinctNames.forall₂_twins fun _ => hd.of_mem_array⟩
    | _ => exact .inr ⟨fun _ => Json.noConfusion, fun _ => Json.noConfusion⟩
  | object => exact .inr ⟨fun _ => Json.noConfusion, fun _ => Json.noConfusion⟩
  | array hi => exact .inl ⟨_, _, rfl, rfl, hi⟩

/-- An index leads to twins in twins. -/
theorem enterIndex_beside (i : Nat) {a b : Json} (h : a.Twins b) :
  (enterIndex i a).Beside (enterIndex i b)
  := by
  rcases h.array_cases with ⟨items, items', rfl, rfl, hi⟩ | ⟨ha, hb⟩
  · rw [enterIndex, enterIndex]
    exact found_beside (.index i) (.notAddressable i) (rel_getElem? hi i)
  · unfold enterIndex
    split
    · exact absurd rfl (ha _)
    · exact .note _ .none

/-- A test that does not tell twins apart accepts first the same element of twin lists. -/
theorem firstAccepted_beside {accepts : Json → Logged Note Bool}
    (ha : ∀ a b, Json.Twins a b → accepts a = accepts b) {items items' : List Json}
    (h : List.Forall₂ Json.Twins items items') (i : Nat) :
  (firstAccepted accepts i items).Beside
    (Option.Rel fun found found' => found.1 = found'.1 ∧ found.2.Twins found'.2)
    (firstAccepted accepts i items')
  := by
  induction h generalizing i with
  | nil => exact .pure .none
  | @cons item item' rest rest' ht _ ih =>
    rw [firstAccepted, firstAccepted, ha item item' ht]
    apply Logged.Beside.bind (R := Eq) ⟨rfl, rfl⟩
    rintro accepted _ rfl
    cases accepted with
    | true => exact .pure (.some ⟨rfl, ht⟩)
    | false => apply ih

/-- A test that does not tell twins apart leads to twins in twins. -/
theorem enterFirst_beside (p : Predicate) {accepts : Json → Logged Note Bool}
    (hp : ∀ a b, Json.Twins a b → accepts a = accepts b) {a b : Json} (h : a.Twins b) :
  (enterFirst p accepts a).Beside (enterFirst p accepts b)
  := by
  rcases h.array_cases with ⟨items, items', rfl, rfl, hi⟩ | ⟨ha, hb⟩
  · rw [enterFirst, enterFirst]
    apply (firstAccepted_beside hp hi 0).bind
    rintro _ _ (⟨hi, ht⟩ | _)
    · refine .pure (.some ⟨ht, ?_⟩)
      rw [hi]
    · exact .note _ (.some ⟨h, rfl⟩)
  · unfold enterFirst
    split
    · exact absurd rfl (ha _)
    · exact .note _ .none

/-! ### Segments, indexers and predicates -/

/-- No literal begins as the text of an object or an array. -/
def ScalarLiterals (literals : List String) : Prop :=
  ∀ literal ∈ literals, opensContainer literal = false

theorem scalarLiterals_cons {literal : String} {rest : List String} :
  ScalarLiterals (literal :: rest) ↔ opensContainer literal = false ∧ ScalarLiterals rest
  := List.forall_mem_cons

/-- The literals of two lists are scalar if those of both are. -/
theorem scalarLiterals_append {literals literals' : List String} :
  ScalarLiterals (literals ++ literals') ↔ ScalarLiterals literals ∧ ScalarLiterals literals'
  := List.forall_mem_append

mutual

/-- A segment with scalar literals leads to twins in twins. -/
theorem Segment.enter_beside :
    ∀ segment : Segment, ScalarLiterals segment.literals →
      ∀ {a b : Json}, a.Twins b → (segment.enter a).Beside (segment.enter b)
  | .mk name none, _, _, _, h => by
      rw [Segment.enter, Segment.enter]
      apply enterProperty_beside name h
  | .mk name (some indexer), hl, _, _, h => by
      rw [Segment.literals] at hl
      rw [Segment.enter, Segment.enter]
      apply Logged.Beside.andThen (enterProperty_beside name h)
      rintro ⟨inner, steps⟩ ⟨inner', _⟩ ⟨ht, rfl⟩
      apply Entered.Beside.behind (Indexer.enter_beside name indexer hl ht)

/-- An indexer with scalar literals leads to twins in twins. -/
theorem Indexer.enter_beside (name : String) :
    ∀ indexer : Indexer, ScalarLiterals indexer.literals →
      ∀ {a b : Json}, a.Twins b → (indexer.enter name a).Beside (indexer.enter name b)
  | .index i, _, _, _, h => by
      rw [Indexer.enter, Indexer.enter]
      apply enterIndex_beside i h
  | .predicate p, hl, _, _, h => by
      rw [Indexer.literals] at hl
      rw [Indexer.enter, Indexer.enter]
      exact enterFirst_beside p (fun _ _ ht => Predicate.accepts_eq p hl ht) h
  | .malformed raw, _, _, _, _ => by
      rw [Indexer.enter, Indexer.enter]
      exact .note _ .none

/-- A predicate accepts both twins or none of them: the values that it compares are twins. -/
theorem Predicate.accepts_eq :
    ∀ p : Predicate, ScalarLiterals p.literals →
      ∀ {a b : Json}, a.Twins b → p.accepts a = p.accepts b
  | .mk _ segments operator literal, hl, a, b, h => by
      rw [Predicate.literals, scalarLiterals_cons] at hl
      obtain ⟨he, hv⟩ := select_beside segments hl.2 h
      rw [Predicate.accepts, Predicate.accepts, Logged.map, Logged.map, he]
      generalize (select segments a).value = x at hv ⊢
      generalize (select segments b).value = y at hv ⊢
      cases hv with
      | none => rfl
      | some ht =>
        dsimp only
        rw [ht.isNull_eq, ht.holds_render operator hl.1]

/-- Segments with scalar literals select twins in twins. -/
theorem select_beside :
    ∀ segments : List Segment, ScalarLiterals (Segment.literalsList segments) →
      ∀ {a b : Json}, a.Twins b →
        (select segments a).Beside (Option.Rel Json.Twins) (select segments b)
  | [], _, _, _, h => by
      rw [select, select]
      exact .pure (.some h)
  | segment :: rest, hl, _, _, h => by
      rw [Segment.literalsList, scalarLiterals_append] at hl
      rw [select, select]
      apply (Segment.enter_beside segment hl.1 h).andThen
      rintro ⟨part, _⟩ ⟨part', _⟩ ⟨ht, -⟩
      apply select_beside rest hl.2 ht

end

/-! ### Paths -/

/-- The walks along segments with scalar literals are beside each other in twins. -/
theorem track_beside {segments : List Segment}
    (hl : ScalarLiterals (Segment.literalsList segments)) {a b : Json} (h : a.Twins b) :
  (track segments a).Beside (track segments b)
  := by
  induction segments generalizing a b with
  | nil => exact .pure (.some ⟨h, rfl⟩)
  | cons segment rest ih =>
    rw [Segment.literalsList, scalarLiterals_append] at hl
    rw [track_cons, track_cons]
    apply (segment.enter_beside hl.1 h).andThen
    rintro ⟨part, steps⟩ ⟨part', _⟩ ⟨ht, rfl⟩
    apply (ih hl.2 ht).behind

/-- The traces of a path with scalar literals are beside each other in twins. -/
theorem trace_beside {path : String}
    (hl : ScalarLiterals (Segment.literalsList (parsePath path))) {a b : Json} (h : a.Twins b) :
  (trace path a).Beside (trace path b)
  := by
  unfold trace
  split
  · exact .pure .none
  · apply track_beside hl h

/-- The locations have one path, and the values in them are reordered. -/
structure Location.Reordered (l l' : Location) : Prop where
  path : l.path = l'.path
  value : l.value.Reordered l'.value

/-- If two documents are reordered, names in them are distinct, and no literal in a path begins as
an object or an array does, then the path locates the same in both but for the order of members, or
nothing in either; the notes made are the same. -/
theorem locate_reordered {a b : Json} (hd : a.DistinctNames) (h : a.Reordered b) {path : String}
    (hl : ScalarLiterals (Segment.literalsList (parsePath path))) :
  (locate path a).entries = (locate path b).entries
    ∧ Option.Rel Location.Reordered (locate path a).value (locate path b).value
  := by
  obtain ⟨he, hv⟩ := trace_beside hl (h.twins hd)
  refine ⟨he, ?_⟩
  rw [locate, locate, Logged.value_map, Logged.value_map]
  generalize (trace path a).value = x at hv ⊢
  generalize (trace path b).value = y at hv ⊢
  cases hv with
  | none => exact .none
  | some ht => exact .some ⟨congrArg pathText ht.2, ht.1.reordered⟩

/-- An object in an object in two arrays. -/
def boxed (members : List (String × Json)) : Json :=
  .array [.array [.object [("k", .object members)]]]

/-- The boxes of permuted members are reorderings of each other. -/
theorem boxed_reordered {members members' : List (String × Json)} (h : members.Perm members') :
  (boxed members).Reordered (boxed members')
  := by
  apply @Json.Reordered.element [] []
  apply @Json.Reordered.element [] []
  apply @Json.Reordered.member [] []
  apply Json.Reordered.permute h

theorem distinctNames_boxed {members : List (String × Json)}
    (h : (Json.object members).DistinctNames) :
  (boxed members).DistinctNames
  := by
  apply Json.distinctNames_array
  rintro inner (_ | ⟨_, ⟨⟩⟩)
  apply Json.distinctNames_array
  rintro outer (_ | ⟨_, ⟨⟩⟩)
  apply Json.distinctNames_object_iff.mpr
  refine ⟨List.pairwise_singleton _ _, ?_⟩
  rintro entry (_ | ⟨_, ⟨⟩⟩)
  apply h

/-- Both predicates compare the JSON text of an object, which shows the order of its members, with a
literal that is not such a text. -/
theorem locate_reordered_boxed :
  (boxed [("x", .null), ("y", .null)]).DistinctNames
    ∧ (boxed [("x", .null), ("y", .null)]).Reordered (boxed [("y", .null), ("x", .null)])
    ∧ ScalarLiterals (Segment.literalsList (parsePath "[@.[@.k!=v].k!=w]"))
    ∧ (locate "[@.[@.k!=v].k!=w]" (boxed [("x", .null), ("y", .null)])).value
      = some ⟨"[0]", .array [.object [("k", .object [("x", .null), ("y", .null)])]]⟩
    ∧ ∃ l, (locate "[@.[@.k!=v].k!=w]" (boxed [("y", .null), ("x", .null)])).value = some l
      ∧ l.path = "[0]"
  := by
  have hp : parsePath "[@.[@.k!=v].k!=w]"
      = [.mk "" (some (.predicate (.mk "[@.k!=v].k"
        [.mk "" (some (.predicate (.mk "k" [.mk "k" none] .notEqual "v"))), .mk "k" none]
        .notEqual "w")))] := by
    decide +kernel
  have hd : (boxed [("x", .null), ("y", .null)]).DistinctNames := by
    apply distinctNames_boxed
    apply Json.distinctNames_object_iff.mpr
    refine ⟨by decide, ?_⟩
    rintro entry (_ | ⟨_, _ | ⟨_, ⟨⟩⟩⟩) <;> apply Json.distinctNames_of_inner_nil rfl
  have hr : (boxed [("x", .null), ("y", .null)]).Reordered (boxed [("y", .null), ("x", .null)]) :=
    boxed_reordered (List.Perm.swap _ _ _)
  have hl : ScalarLiterals (Segment.literalsList (parsePath "[@.[@.k!=v].k!=w]")) := by
    rw [hp, ScalarLiterals]
    decide
  have hv : (locate "[@.[@.k!=v].k!=w]" (boxed [("x", .null), ("y", .null)])).value
      = some ⟨"[0]", .array [.object [("k", .object [("x", .null), ("y", .null)])]]⟩ := by
    rw [locate, trace, hp]
    rfl
  refine ⟨hd, hr, hl, hv, ?_⟩
  have ho := (locate_reordered hd hr hl).2
  rw [hv] at ho
  generalize (locate "[@.[@.k!=v].k!=w]" (boxed [("y", .null), ("x", .null)])).value = found at ho ⊢
  cases ho with
  | some hl' => exact ⟨_, rfl, hl'.path.symm⟩

end JsonAudit
