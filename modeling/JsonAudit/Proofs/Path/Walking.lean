import JsonAudit.Path.Walk

/-!
# What walking finds

`track` follows a list of segments from part to part: over two lists it is one walk after the
other, and `select` is the same walk with the steps left out.  The steps that are taken lead from
the node to the part that is found, and every key among them is the non-empty property of a
segment.  A malformed indexer anywhere leaves nothing to find.
-/

namespace JsonAudit

/-! ### Steps -/

/-- Descending along two lists of steps is descending along one after the other. -/
theorem Json.descend_append (node : Json) (a b : List Step) :
  node.descend (a ++ b) = (node.descend a).bind fun part => part.descend b
  := by
  induction a generalizing node with
  | nil => rfl
  | cons step rest ih =>
    rw [List.cons_append, descend, descend]
    cases node.child step with
    | none => rfl
    | some part => apply ih

theorem Json.descend_singleton (node : Json) (step : Step) :
  node.descend [step] = node.child step
  := by
  rw [descend]
  cases node.child step <;> rfl

/-! ### Parts found behind steps -/

/-- What is found behind steps that were taken before. -/
def Entered.behind (x : Entered) (steps : List Step) : Entered :=
  x.map fun found => found.map fun (part, more) => (part, steps ++ more)

theorem Entered.behind_nil (x : Entered) :
  x.behind [] = x
  := by
  obtain ⟨entries, value⟩ := x
  cases value <;> rfl

/-- Steps can be put before what is found after going on, or before each way of going on. -/
theorem Entered.andThen_behind (x : Entered) (f : Json × List Step → Entered)
    (steps : List Step) :
  Entered.behind (x.andThen f) steps = x.andThen fun found => (f found).behind steps
  := by
  obtain ⟨entries, value⟩ := x
  cases value <;> rfl

/-- What goes on from a part behind steps sees those steps before its own. -/
theorem Entered.behind_andThen (x : Entered) (f : Json → List Step → Entered)
    (steps : List Step) :
  (x.behind steps).andThen (fun (part, more) => f part more)
    = x.andThen fun (part, more) => f part (steps ++ more)
  := by
  obtain ⟨entries, value⟩ := x
  cases value <;> rfl

/-- Behind steps, and behind others before those, is behind all of them in one. -/
theorem Entered.behind_behind (x : Entered) (before steps : List Step) :
  (x.behind steps).behind before = x.behind (before ++ steps)
  := by
  obtain ⟨entries, value⟩ := x
  cases value with
  | none => rfl
  | some found => simp [behind, Logged.map]

/-- Steps put before what is found stand before its own ones. -/
theorem Entered.value_behind (x : Entered) (steps : List Step) :
  (x.behind steps).value = x.value.map fun (part, more) => (part, steps ++ more)
  := rfl

/-! ### One walk after the other -/

/-- A walk enters its first segment and goes on from there, behind the steps so far. -/
theorem track_cons (segment : Segment) (rest : List Segment) (node : Json) :
  track (segment :: rest) node
    = (segment.enter node).andThen fun (part, steps) => (track rest part).behind steps
  := rfl

/-- A walk over two lists of segments goes on with the second where the first has led. -/
theorem track_append (a b : List Segment) (node : Json) :
  track (a ++ b) node
    = (track a node).andThen fun (part, steps) => (track b part).behind steps
  := by
  induction a generalizing node with
  | nil =>
    show _ = (track b node).behind []
    rw [Entered.behind_nil]
    rfl
  | cons segment rest ih =>
    rw [List.cons_append, track_cons, track_cons, Logged.andThen_assoc]
    congr 1
    funext ⟨part, steps⟩
    show (track (rest ++ b) part).behind steps = _
    rw [ih, Entered.andThen_behind]
    rw [Entered.behind_andThen (track rest part) fun last more => (track b last).behind more]
    congr 1
    funext ⟨last, more⟩
    apply Entered.behind_behind

/-- The part that is selected is the one that is tracked, with the same notes. -/
theorem select_eq_track (segments : List Segment) (node : Json) :
  select segments node = (track segments node).map fun found => found.map Prod.fst
  := by
  induction segments generalizing node with
  | nil => rfl
  | cons segment rest ih =>
    rw [select, track_cons, Logged.andThen, Logged.andThen]
    obtain ⟨entries, value⟩ := segment.enter node
    cases value with
    | none => rfl
    | some found =>
      obtain ⟨part, steps⟩ := found
      simp only [Logged.bind, ih, Logged.map, Entered.behind]
      cases (track rest part).value <;> rfl

/-! ### Where the steps lead -/

/-- The steps into a property lead to the part, and a key among them is its name. -/
theorem value_enterProperty {name : String} {node part : Json} {steps : List Step}
    (h : (enterProperty name node).value = some (part, steps)) :
  node.descend steps = some part ∧ ∀ key, Step.key key ∈ steps → key = name ∧ key ≠ ""
  := by
  unfold enterProperty at h
  split at h
  · cases h
    exact ⟨rfl, nofun⟩
  · rename_i hn
    split at h
    · rename_i members
      split at h
      · rename_i found hf
        cases h
        constructor
        · rw [Json.descend_singleton]
          apply hf
        · intro key hk
          cases List.mem_singleton.mp hk
          exact ⟨rfl, hn⟩
      · cases h
    · cases h

/-- The step into an element is its index, and leads to it. -/
theorem value_enterIndex {i : Nat} {node part : Json} {steps : List Step}
    (h : (enterIndex i node).value = some (part, steps)) :
  node.descend steps = some part ∧ steps = [.index i]
  := by
  unfold enterIndex at h
  split at h
  · rename_i items
    split at h
    · rename_i item hi
      cases h
      constructor
      · rw [Json.descend_singleton]
        apply hi
      · rfl
    · cases h
  · cases h

/-- The accepted item is the one with the index that is given. -/
theorem value_firstAccepted {accepts : Json → Logged Note Bool} {i j : Nat} {items : List Json}
    {item : Json} (h : (firstAccepted accepts i items).value = some (j, item)) :
  ∃ k, j = i + k ∧ items[k]? = some item
  := by
  induction items generalizing i with
  | nil => cases h
  | cons first rest ih =>
    rw [firstAccepted, Logged.value_bind] at h
    split at h
    · cases h
      exact ⟨0, rfl, rfl⟩
    · obtain ⟨k, rfl, hk⟩ := ih h
      exact ⟨k + 1, by omega, hk⟩

/-- The steps to the first accepted element lead to it, and none of them is a key. -/
theorem value_enterFirst {p : Predicate} {accepts : Json → Logged Note Bool} {node part : Json}
    {steps : List Step} (h : (enterFirst p accepts node).value = some (part, steps)) :
  node.descend steps = some part ∧ ∀ key, Step.key key ∉ steps
  := by
  unfold enterFirst at h
  split at h
  · rename_i items
    rw [Logged.value_bind] at h
    split at h
    · rename_i i item hf
      cases h
      obtain ⟨k, hk, hi⟩ := value_firstAccepted hf
      rw [Nat.zero_add] at hk
      subst hk
      constructor
      · rw [Json.descend_singleton]
        apply hi
      · intro key hm
        cases List.mem_singleton.mp hm
    · cases h
      exact ⟨rfl, nofun⟩
  · cases h

/-- The steps of an indexer lead to the part, and none of them is a key. -/
theorem Indexer.value_enter {name : String} {indexer : Indexer} {node part : Json}
    {steps : List Step} (h : (indexer.enter name node).value = some (part, steps)) :
  node.descend steps = some part ∧ ∀ key, Step.key key ∉ steps
  := by
  cases indexer with
  | index i =>
    rw [Indexer.enter] at h
    obtain ⟨hd, rfl⟩ := value_enterIndex h
    constructor
    · apply hd
    · intro key hm
      cases List.mem_singleton.mp hm
  | predicate p =>
    rw [Indexer.enter] at h
    apply value_enterFirst h
  | malformed raw =>
    rw [Indexer.enter] at h
    cases h

/-- The steps of a segment lead to the part, and a key among them is its property. -/
theorem Segment.value_enter {segment : Segment} {node part : Json} {steps : List Step}
    (h : (segment.enter node).value = some (part, steps)) :
  node.descend steps = some part
    ∧ ∀ key, Step.key key ∈ steps → key = segment.property ∧ key ≠ ""
  := by
  cases segment with
  | mk name indexer =>
    cases indexer with
    | none =>
      rw [Segment.enter] at h
      apply value_enterProperty h
    | some indexer =>
      rw [Segment.enter, Logged.value_andThen] at h
      obtain ⟨⟨inner, first⟩, hp, hi⟩ := Option.bind_eq_some_iff.mp h
      obtain ⟨⟨last, more⟩, hl, he⟩ := Option.map_eq_some_iff.mp hi
      cases he
      obtain ⟨hdp, hkp⟩ := value_enterProperty hp
      obtain ⟨hdi, hki⟩ := Indexer.value_enter hl
      constructor
      · rw [Json.descend_append, hdp]
        apply hdi
      · intro key hm
        rcases List.mem_append.mp hm with hm | hm
        · apply hkp key hm
        · cases hki key hm

/-- The steps of a walk lead to the part that it finds, and its keys are properties of the
segments. -/
theorem value_track {segments : List Segment} {node part : Json} {steps : List Step}
    (h : (track segments node).value = some (part, steps)) :
  node.descend steps = some part
    ∧ ∀ key, Step.key key ∈ steps → key ≠ "" ∧ ∃ segment ∈ segments, key = segment.property
  := by
  induction segments generalizing node steps with
  | nil =>
    cases h
    exact ⟨rfl, nofun⟩
  | cons segment rest ih =>
    rw [track_cons, Logged.value_andThen] at h
    obtain ⟨⟨inner, first⟩, he, hr⟩ := Option.bind_eq_some_iff.mp h
    obtain ⟨⟨last, more⟩, hl, heq⟩ := Option.map_eq_some_iff.mp hr
    cases heq
    obtain ⟨hde, hke⟩ := Segment.value_enter he
    obtain ⟨hdr, hkr⟩ := ih hl
    constructor
    · rw [Json.descend_append, hde]
      apply hdr
    · intro key hm
      rcases List.mem_append.mp hm with hm | hm
      · obtain ⟨hk, hn⟩ := hke key hm
        exact ⟨hn, segment, List.mem_cons_self, hk⟩
      · obtain ⟨hn, other, ho, hk⟩ := hkr key hm
        exact ⟨hn, other, List.mem_cons_of_mem _ ho, hk⟩

/-! ### Malformed indexers -/

/-- A segment with a malformed indexer selects nothing. -/
theorem Segment.value_enter_malformed (name raw : String) (node : Json) :
  ((Segment.mk name (some (.malformed raw))).enter node).value = none
  := by
  rw [Segment.enter, Logged.value_andThen]
  cases (enterProperty name node).value with
  | none => rfl
  | some found =>
    simp only [Option.bind_some, Indexer.enter]
    rfl

/-- A malformed indexer finds nothing, whatever stands around it. -/
theorem value_track_of_malformed {segments : List Segment} {name raw : String}
    (h : Segment.mk name (some (.malformed raw)) ∈ segments) (node : Json) :
  (track segments node).value = none
  := by
  induction segments generalizing node with
  | nil => cases h
  | cons segment rest ih =>
    rw [track_cons, Logged.value_andThen]
    rcases List.mem_cons.mp h with rfl | h
    · rw [Segment.value_enter_malformed]
      rfl
    · cases (segment.enter node).value with
      | none => rfl
      | some found =>
        rw [Option.bind_some, Entered.value_behind, ih h]
        rfl

end JsonAudit
