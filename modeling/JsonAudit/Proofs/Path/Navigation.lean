import JsonAudit.Json.Part
import JsonAudit.Path.Resolve
import JsonAudit.Proofs.Path.Rendering
import JsonAudit.Proofs.Path.Splitting
import JsonAudit.Proofs.Path.Walking

/-!
# Going on from a location

A path that selects something leaves no bracket open, so that another path can follow it after a
dot.  Following both at once or one after the other leads to the same location: this is
`locate_append_dot`.  A located value stands at a position in the node it was located in, and its
path is the path of that position.
-/

namespace JsonAudit

open Scanner

/-! ### Segments -/

/-- A dot behind a settled text divides its segments from those behind the dot. -/
theorem parse_append_dot {before : List Char} (h : ((start 0).run before).Settled)
    (after : List Char) :
  parse (before ++ '.' :: after) = parse before ++ parse after
  := by
  simp only [parse_eq_map, components_append_dot h, List.map_append]

/-- The property of a segment is what stands before the bracket of its component. -/
theorem toList_property (component : List Char) :
  (Segment.ofComponent component).property.toList = (splitBracket component).1
  := String.toList_ofList

/-- No property begins with a bracket. -/
theorem opensBracket_property {path : List Char} {segment : Segment} (h : segment ∈ parse path) :
  opensBracket segment.property = false
  := by
  rw [parse_eq_map] at h
  obtain ⟨component, hc, rfl⟩ := List.mem_map.mp h
  apply opensBracket_of_simple
  rw [toList_property]
  apply (simple_name_of_mem_components hc).2

/-- A path along which something is found closes all its brackets. -/
theorem settled_of_track {path : List Char} {node : Json} {found : Json × List Step}
    (h : (track (parse path) node).value = some found) :
  ((start 0).run path).Settled
  := by
  apply Classical.byContradiction
  intro hn
  obtain ⟨component, hc, name, rest, hs⟩ := exists_unbalanced_of_open hn
  have hm : Segment.mk (String.ofList name) (some (.malformed (String.ofList rest)))
      ∈ parse path := by
    rw [parse_eq_map]
    apply List.mem_map.mpr
    refine ⟨component, hc, ?_⟩
    rw [Segment.ofComponent, hs]
    rfl
  rw [value_track_of_malformed hm] at h
  cases h

/-- All steps of a walk join. -/
theorem joins_of_track {path : List Char} {node part : Json} {steps : List Step}
    (h : (track (parse path) node).value = some (part, steps)) :
  ∀ step ∈ steps, step.Joins
  := by
  rintro (name | i) hs
  · obtain ⟨hn, segment, hm, rfl⟩ := (value_track h).2 name hs
    exact ⟨hn, opensBracket_property hm⟩
  · trivial

/-! ### Traces -/

/-- A path that is not blank is traced by a walk along its segments. -/
theorem trace_of_not_blank {path : String} (h : isBlankPath path = false) (node : Json) :
  trace path node = track (parsePath path) node
  := by
  rw [trace, h]
  rfl

/-- What is traced is found by a walk along the segments of the path. -/
theorem track_of_trace {path : String} {node : Json} {found : Json × List Step}
    (h : (trace path node).value = some found) :
  (track (parsePath path) node).value = some found
  := by
  rw [trace] at h
  split at h
  · cases h
  · apply h

/-- The canonical path of what is traced is the path of its steps. -/
theorem pathText_of_trace {path : String} {node part : Json} {steps : List Step}
    (h : (trace path node).value = some (part, steps)) :
  pathText steps = renderPath steps
  := pathText_eq_renderPath (joins_of_track (track_of_trace h))

/-- A path with a dot is not blank. -/
theorem isBlankPath_append_dot (p q : String) :
  isBlankPath (p ++ "." ++ q) = false
  := by
  have hd : isBlank '.' = false := by decide
  rw [isBlankPath, allBlank, String.toList_append, String.toList_append, List.all_append,
    List.all_append]
  show (p.toList.all isBlank && (isBlank '.' && true) && q.toList.all isBlank) = false
  simp [hd]

/-- What a path resolves to is what it traces, without the steps and with the same notes. -/
theorem resolve_eq_trace (path : String) (node : Json) :
  resolve path node = (trace path node).map fun found => found.map Prod.fst
  := by
  rw [resolve, trace]
  split
  · rfl
  · apply select_eq_track

/-- What is traced along a path is traced part by part. -/
theorem trace_append_dot {p : String} {node part : Json} {steps : List Step}
    (hp : (trace p node).value = some (part, steps)) {q : String}
    (hq : isBlankPath q = false) :
  trace (p ++ "." ++ q) node
    = (trace p node).andThen fun (part, steps) => (trace q part).behind steps
  := by
  rw [trace_of_not_blank (isBlankPath_append_dot p q)]
  cases hb : isBlankPath p with
  | true =>
    rw [trace, hb] at hp
    cases hp
  | false =>
    simp only [trace_of_not_blank hb, trace_of_not_blank hq]
    have hl : (p ++ "." ++ q).toList = p.toList ++ '.' :: q.toList := by
      simp [String.toList_append]
    rw [parsePath, hl, parse_append_dot (settled_of_track (track_of_trace hp))]
    apply track_append

/-! ### Positions -/

/-- The location holds the part of the document at the steps, and their path. -/
structure Location.IsAt (l : Location) (document : Json) (steps : List Step) : Prop where
  value : document.descend steps = some l.value
  path : l.path = renderPath steps

/-- The root is at the position without steps. -/
theorem Location.isAt_root (document : Json) :
  (root document).IsAt document []
  := ⟨rfl, rfl⟩

/-- A path locates what it traces, under the path of the steps. -/
theorem value_locate_iff {path : String} {node : Json} {l : Location} :
  (locate path node).value = some l
    ↔ ∃ steps, (trace path node).value = some (l.value, steps) ∧ l.path = renderPath steps
  := by
  rw [locate, Logged.value_map, Option.map_eq_some_iff]
  constructor
  · rintro ⟨⟨part, steps⟩, ht, rfl⟩
    exact ⟨steps, ht, pathText_of_trace ht⟩
  · rintro ⟨steps, ht, hl⟩
    refine ⟨(l.value, steps), ht, ?_⟩
    simp only [pathText_of_trace ht, ← hl]

/-- What is located from a location lies behind it in the document. -/
theorem Location.IsAt.locate {l : Location} {document : Json} {steps : List Step}
    (hl : l.IsAt document steps) {path : String} {found : Location}
    (h : (l.locate path).value = some found) :
  ∃ more, found.IsAt document (steps ++ more)
  := by
  rw [Location.locate, Logged.value_map] at h
  obtain ⟨part, hp, rfl⟩ := Option.map_eq_some_iff.mp h
  obtain ⟨more, ht, hm⟩ := value_locate_iff.mp hp
  refine ⟨more, ?_, ?_⟩
  · rw [Json.descend_append, hl.value]
    apply (value_track (track_of_trace ht)).1
  · rw [renderPath_append, hl.path, hm]

/-- The elements of a location are those of its list, each with its index. -/
theorem Location.mem_elements {l child : Location} {i : Nat} {items : List Json}
    (h : child ∈ l.elements i items) :
  ∃ k item, items[k]? = some item ∧ child = l.element (i + k) item
  := by
  induction items generalizing i with
  | nil => cases h
  | cons item rest ih =>
    rcases List.mem_cons.mp h with rfl | h
    · exact ⟨0, item, rfl, rfl⟩
    · obtain ⟨k, other, hk, rfl⟩ := ih h
      refine ⟨k + 1, other, hk, ?_⟩
      rw [Nat.add_assoc, Nat.add_comm 1]

/-- No child of a location is null. -/
theorem Location.isNull_of_mem_children {l child : Location} (h : child ∈ l.children) :
  child.value.isNull = false
  := by
  obtain ⟨-, hn⟩ := List.mem_filter.mp h
  simpa using hn

/-- A child is the part of the value that one step leads to, at the path with that step. -/
theorem Location.step_of_mem_children {l child : Location} (hd : l.value.DistinctNames)
    (h : child ∈ l.children) :
  ∃ step, l.value.child step = some child.value ∧ child.path = step.follow l.path
  := by
  obtain ⟨hm, -⟩ := List.mem_filter.mp h
  split at hm
  · rename_i items hv
    obtain ⟨k, item, hk, rfl⟩ := mem_elements hm
    rw [Nat.zero_add]
    refine ⟨.index k, ?_, rfl⟩
    rw [hv]
    apply hk
  · rename_i members hv
    obtain ⟨⟨name, value⟩, hmem, rfl⟩ := List.mem_map.mp hm
    refine ⟨.key name, ?_, rfl⟩
    rw [hv] at hd ⊢
    apply Json.child_of_mem hd hmem
  · cases hm

/-- The children of a location lie one step behind it in the document. -/
theorem Location.IsAt.child {l : Location} {document : Json} {steps : List Step}
    (hd : document.DistinctNames) (hl : l.IsAt document steps) {child : Location}
    (h : child ∈ l.children) :
  ∃ step, child.IsAt document (steps ++ [step])
  := by
  have hv := hd.part (Json.part_of_descend hl.value)
  obtain ⟨step, hc, hp⟩ := step_of_mem_children hv h
  refine ⟨step, ?_, ?_⟩
  · rw [Json.descend_append, hl.value]
    exact (Json.descend_singleton _ _).trans hc
  · rw [hp, hl.path, renderPath, renderPath, List.foldl_append]
    rfl

/-! ### One path after the other -/

/-- If a path traces in the node what another one traces from the location, behind the position of
the location, then both select and locate the same. -/
theorem locate_of_trace_behind {whole path : String} {node : Json} {l : Location}
    {steps : List Step} (hl : l.path = renderPath steps)
    (h : (trace whole node).value = (Entered.behind (trace path l.value) steps).value) :
  (resolve whole node).value = (resolve path l.value).value
    ∧ (locate whole node).value = (l.locate path).value
  := by
  rw [resolve_eq_trace, resolve_eq_trace, locate, Location.locate, locate]
  simp only [Logged.value_map]
  cases hp : (trace path l.value).value with
  | none =>
    rw [h, Entered.value_behind, hp]
    exact ⟨rfl, rfl⟩
  | some found =>
    obtain ⟨part, more⟩ := found
    rw [Entered.value_behind, hp] at h
    have hj : pathText (steps ++ more) = joinPath l.path (pathText more) := by
      rw [pathText_of_trace h, renderPath_append, pathText_of_trace hp, hl]
    rw [h]
    simp only [Option.map_some, hj, and_self]

/-- Locating along one path and then along another is locating along both with a dot between
them: the first one leaves no bracket open, and the values, the canonical paths and what is absent
are the same. -/
theorem locate_append_dot {p q : String} {node : Json} {l : Location}
    (hp : (locate p node).value = some l) (hq : isBlankPath q = false) :
  ((start 0).run p.toList).depth = 0
    ∧ (locate (p ++ "." ++ q) node).value = (l.locate q).value
    ∧ (resolve (p ++ "." ++ q) node).value = (resolve q l.value).value
  := by
  obtain ⟨steps, ht, hl⟩ := value_locate_iff.mp hp
  have hv : (trace (p ++ "." ++ q) node).value
      = (Entered.behind (trace q l.value) steps).value := by
    rw [trace_append_dot ht hq, Logged.value_andThen, ht]
    rfl
  obtain ⟨hr, hf⟩ := locate_of_trace_behind hl hv
  exact ⟨(settled_of_track (track_of_trace ht)).depth, hf, hr⟩

/-- No element satisfies the predicate, so the array stays selected, and an index follows it. -/
theorem locate_append_dot_rows :
  (locate "rows[@.id==9]" (.object [("rows", .array [.object [("id", .bool true)]])])).value
      = some ⟨"rows", .array [.object [("id", .bool true)]]⟩
    ∧ isBlankPath "[0].id" = false
    ∧ (locate ("rows[@.id==9]" ++ "." ++ "[0].id")
        (.object [("rows", .array [.object [("id", .bool true)]])])).value
      = some ⟨"rows[0].id", .bool true⟩
  := by
  have hr : parsePath "rows[@.id==9]"
      = [.mk "rows" (some (.predicate (.mk "id" [.mk "id" none] .equal "9")))] := by
    decide +kernel
  have hi : parsePath "[0].id" = [.mk "" (some (.index 0)), .mk "id" none] := by decide +kernel
  have hp : (locate "rows[@.id==9]"
      (.object [("rows", .array [.object [("id", .bool true)]])])).value
      = some ⟨"rows", .array [.object [("id", .bool true)]]⟩ := by
    rw [locate, trace, hr]
    rfl
  have hq : isBlankPath "[0].id" = false := by decide +kernel
  refine ⟨hp, hq, (locate_append_dot hp hq).2.1.trans ?_⟩
  rw [Location.locate, locate, trace, hi]
  rfl

end JsonAudit
