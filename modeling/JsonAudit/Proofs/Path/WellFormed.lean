import JsonAudit.Proofs.Path.Printing

/-!
# Segments that were read

Every segment that is read from a path, itself or inside a predicate, names a property or has an
indexer, and the name is simple; the path of a predicate can stand in a condition, and its segments
are those read from it.  `Segment.Occurs` is where a segment can stand, and
`Segment.wellFormed_of_occurs` says so of all of them.  No bracket is open at the end of the path of
a predicate, and so the brackets of its components close.
-/

namespace JsonAudit

open Scanner

/-! ### Brackets that never close -/

/-- The first bracket of the component never closes. -/
def NeverCloses (component : List Char) : Prop :=
  ∃ name rest, component = name ++ '[' :: rest ∧ '[' ∉ name ∧ closeFrom (start 1) rest = none

/-- A bracket that is not closed in a text is open at its end. -/
theorem depth_run_pos_of_closeFrom {s : Scanner} (hd : 0 < s.depth) {text : List Char}
    (h : closeFrom s text = none) :
  0 < (s.run text).depth
  := by
  induction text generalizing s with
  | nil => exact hd
  | cons c rest ih =>
    rw [closeFrom] at h
    split at h
    · cases h
    · rename_i ho
      exact ih (depth_next_pos hd ho) (Option.map_eq_none_iff.mp h)

/-- A component with a bracket that never closes does not leave the scanner settled. -/
theorem NeverCloses.not_settled {component : List Char} (h : NeverCloses component) :
  ¬ ((start 0).run component).Settled
  := by
  obtain ⟨name, rest, rfl, hn, hc⟩ := h
  intro hs
  have ha := (settled_start.run hn).next_bracket
  have hp : 0 < ((start 1).run rest).depth := depth_run_pos_of_closeFrom Nat.one_pos hc
  rw [← (ha.run rest).depth] at hp
  rw [run_append] at hs
  exact Nat.ne_of_gt hp hs.depth

/-- What follows a dot outside every bracket is scanned as a path of its own. -/
theorem settled_of_append_dot {before after : List Char} (hs : ((start 0).run before).Settled)
    (h : ((start 0).run (before ++ '.' :: after)).Settled) :
  ((start 0).run after).Settled
  := by
  have hd : (((start 0).run before).next '.').Settled := hs.next (by decide)
  rw [run_append] at h
  apply ((sound_start 0).run after).settled
  rw [← (hd.alike_start.run after).depth]
  exact h.depth

/-- A text that is one piece has no component but itself. -/
theorem eq_of_mem_components {text component : List Char} (h : pieces text = [text])
    (hc : component ∈ components text) :
  component = text
  := by
  have hm := (List.mem_filter.mp hc).1
  rw [h] at hm
  exact List.mem_singleton.mp hm

/-- If no bracket is open at the end of a path, none is at the end of a component. -/
theorem settled_of_mem_components {path component : List Char}
    (h : ((start 0).run path).Settled) (hc : component ∈ components path) :
  ((start 0).run component).Settled
  := by
  induction path using pieces_induction with
  | whole path hp =>
    rw [eq_of_mem_components hp hc]
    exact h
  | cut before after hs hb ih =>
    rw [components_append_dot hs] at hc
    rcases List.mem_append.mp hc with hc | hc
    · rw [eq_of_mem_components hb hc]
      exact hs
    · exact ih (settled_of_append_dot hs h) hc

/-- A component is a simple name, or one with a bracket behind it. -/
theorem name_or_bracket_of_mem_components {path component : List Char}
    (h : component ∈ components path) :
  (component ≠ [] ∧ '.' ∉ component ∧ '[' ∉ component)
    ∨ ∃ name rest, component = name ++ '[' :: rest ∧ '.' ∉ name ∧ '[' ∉ name
  := by
  have hd := (simple_name_of_mem_components h).1
  by_cases hm : '[' ∈ component
  · right
    obtain ⟨name, rest, rfl, hb⟩ := List.eq_append_cons_of_mem hm
    rw [splitBracket_of_bracket hb] at hd
    exact ⟨name, rest, rfl, hd, hb⟩
  · left
    rw [splitBracket_of_simple hm] at hd
    refine ⟨?_, hd, hm⟩
    rintro rfl
    cases (List.mem_filter.mp h).2

/-! ### Well-formed segments -/

/-- The predicate is as one that was read: its path can stand in a condition, its segments are those
of the path, and every bracket in them closes. -/
structure Predicate.WellFormed (p : Predicate) : Prop where
  path : IsNestedPath p.property.toList
  segments : p.segments = parsePath p.property
  closes : ∀ component ∈ components p.property.toList, ¬ NeverCloses component

/-- The segment is as one that was read: it names a property or has an indexer, its name is simple,
and its predicate, if it has one, is well formed. -/
structure Segment.WellFormed (segment : Segment) : Prop where
  selects : segment.property ≠ "" ∨ segment.indexer ≠ none
  noDot : '.' ∉ segment.property.toList
  noBracket : '[' ∉ segment.property.toList
  predicate : ∀ p, segment.indexer = some (.predicate p) → p.WellFormed

/-- A condition whose path can stand in one makes a well-formed predicate. -/
theorem Predicate.wellFormed_ofCondition {condition : Condition}
    (h : IsNestedPath condition.property) :
  (ofCondition condition).WellFormed
  := by
  have hp : (ofCondition condition).property.toList = condition.property := String.toList_ofList
  constructor
  · rw [hp]
    exact h
  · rw [parsePath, hp]
    rfl
  · intro component hc hn
    rw [hp] at hc
    apply hn.not_settled
    exact settled_of_mem_components (((sound_start 0).run _).settled h.closed) hc

/-- A predicate that is read between brackets is well formed. -/
theorem Predicate.wellFormed_ofBracket {rest : List Char} {p : Predicate}
    (h : Indexer.ofBracket (.ofRest rest) = .predicate p) :
  p.WellFormed
  := by
  obtain ⟨content, condition, hr, hc, rfl⟩ := Indexer.exists_condition_of_ofBracket h
  apply wellFormed_ofCondition
  exact isNestedPath_of_readCondition (closeFrom_content (closeFrom_of_ofRest hr)) hc

theorem Segment.wellFormed_mk {name : List Char} {indexer : Option Indexer}
    (hs : name ≠ [] ∨ indexer ≠ none) (hd : '.' ∉ name) (hb : '[' ∉ name)
    (hp : ∀ p, indexer = some (.predicate p) → p.WellFormed) :
  (mk (String.ofList name) indexer).WellFormed
  := by
  constructor
  · rwa [property, Ne, String.ofList_eq_empty_iff]
  · rwa [property, String.toList_ofList]
  · rwa [property, String.toList_ofList]
  · exact hp

/-- A segment that is read from a component is well formed. -/
theorem Segment.wellFormed_ofComponent {path component : List Char}
    (h : component ∈ components path) :
  (ofComponent component).WellFormed
  := by
  rcases name_or_bracket_of_mem_components h with ⟨hn, hd, hb⟩ | ⟨name, rest, rfl, hd, hb⟩
  · rw [ofComponent, splitBracket_of_simple hb]
    apply wellFormed_mk (.inl hn) hd hb
    intro p hp
    cases hp
  · rw [ofComponent, splitBracket_of_bracket hb]
    apply wellFormed_mk (.inr (Option.some_ne_none _)) hd hb
    intro p hp
    exact Predicate.wellFormed_ofBracket (Option.some.inj hp)

/-- The segments of a path are well-formed. -/
theorem Segment.wellFormed_of_mem_parsePath {path : String} {segment : Segment}
    (h : segment ∈ parsePath path) :
  segment.WellFormed
  := by
  rw [parsePath, parse_eq_map] at h
  obtain ⟨component, hc, rfl⟩ := List.mem_map.mp h
  exact wellFormed_ofComponent hc

/-! ### At every level -/

/-- The segment is one of the list, or it occurs in the path of a predicate of one of them. -/
inductive Segment.Occurs (segment : Segment) : List Segment → Prop where
  | here {segments : List Segment} : segment ∈ segments → Occurs segment segments
  | inside {segments : List Segment} {outer : Segment} {p : Predicate} :
    outer ∈ segments → outer.indexer = some (.predicate p) → Occurs segment p.segments →
      Occurs segment segments

/-- Every segment of a path is well formed, at every level of the predicates in it. -/
theorem Segment.wellFormed_of_occurs {path : String} {segment : Segment}
    (h : segment.Occurs (parsePath path)) :
  segment.WellFormed
  := by
  generalize hs : parsePath path = segments at h
  induction h generalizing path with
  | here h =>
    subst hs
    exact wellFormed_of_mem_parsePath h
  | inside ho hp _ ih =>
    subst hs
    exact ih ((wellFormed_of_mem_parsePath ho).predicate _ hp).segments.symm

/-- A predicate inside the path of another one, whose literal holds a bracket and a dot; the last
bracket of the path itself never closes. -/
theorem wellFormed_of_occurs_rows :
  (Segment.mk "tags" (some (.predicate (.mk "k" [.mk "k" none] .notEqual "].")))).Occurs
      (parsePath "rows[?(@.tags[@.k!='].'].id == x)].at[9")
    ∧ (Segment.mk "tags" (some (.predicate (.mk "k" [.mk "k" none] .notEqual "].")))).WellFormed
  := by
  have hp : parsePath "rows[?(@.tags[@.k!='].'].id == x)].at[9"
      = [.mk "rows" (some (.predicate (.mk "tags[@.k!='].'].id"
          [.mk "tags" (some (.predicate (.mk "k" [.mk "k" none] .notEqual "]."))), .mk "id" none]
          .equal "x"))),
        .mk "at" (some (.malformed "9"))] := by
    decide +kernel
  have ho : (Segment.mk "tags" (some (.predicate (.mk "k" [.mk "k" none] .notEqual "].")))).Occurs
      (parsePath "rows[?(@.tags[@.k!='].'].id == x)].at[9") := by
    rw [hp]
    exact .inside List.mem_cons_self rfl (.here List.mem_cons_self)
  exact ⟨ho, Segment.wellFormed_of_occurs ho⟩

end JsonAudit
