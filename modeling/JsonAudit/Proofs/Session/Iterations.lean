import JsonAudit.Proofs.Path.Positions
import JsonAudit.Proofs.Session.Visits
import Mathlib.Data.List.Forall2

/-!
# What an iteration visits

The text of a step, located from a location, leads where the step leads
(`Location.value_locate_text`).  So the children of a location are what paths of one step locate
from it: the elements of an array under their indices, and the members of an object under their
keys, as far as these can stand in a path.  An iteration whose visits do not fail visits these
children and no others, whatever is done to the session on the visits: this is
`Session.visits_children`.
-/

namespace JsonAudit

universe u

/-! ### Locating along one step -/

/-- The canonical path of one step is its text. -/
theorem pathText_singleton (step : Step) :
  pathText [step] = step.text
  := by
  cases step with
  | key name => rfl
  | index i =>
    show "" ++ "[" ++ Nat.repr i ++ "]" = _
    rw [String.empty_append]
    rfl

theorem isBlankPath_index (i : Nat) :
  isBlankPath (Step.index i).text = false
  := by
  rw [isBlankPath, toList_index]
  rfl

/-- A walk along one segment finds what the segment enters. -/
theorem value_track_singleton (segment : Segment) (node : Json) :
  (track [segment] node).value = (segment.enter node).value
  := by
  rw [track_cons, Logged.value_andThen]
  cases (segment.enter node).value with
  | none => rfl
  | some found =>
    obtain ⟨part, steps⟩ := found
    show some (part, steps ++ []) = _
    rw [List.append_nil]

/-- The text of a step is a path to what the step leads to. -/
theorem value_track_text {step : Step} (hs : step.IsSpelled) (node : Json) :
  (track (parsePath step.text) node).value = (node.child step).map fun part => (part, [step])
  := by
  cases step with
  | key name =>
    have hn : IsComponent name := hs.plain
    rw [Step.text, parsePath, parse_key hn, value_track_singleton, Segment.enter]
    cases node with
    | object members =>
      simp only [enterProperty, if_neg hn.1, Json.child]
      cases Keyed.find? name members <;> rfl
    | _ =>
      simp only [enterProperty, if_neg hn.1]
      rfl
  | index i =>
    rw [parsePath, toList_index, parse_index (hs.written i rfl), value_track_singleton,
      Segment.enter, enterProperty_empty, Logged.pure_andThen]
    cases node with
    | array items =>
      simp only [Indexer.enter, enterIndex, Json.child]
      cases items[i]? <;> rfl
    | _ =>
      simp only [Indexer.enter]
      rfl

namespace Location

/-- Locating along the text of a step leads where the step leads. -/
theorem value_locate_text (l : Location) {step : Step} (hs : step.IsSpelled)
    (hb : isBlankPath step.text = false) :
  (l.locate step.text).value = l.child? step
  := by
  rw [Location.locate, JsonAudit.locate, trace_of_not_blank hb, Logged.value_map, Logged.value_map,
    value_track_text hs, child?_eq]
  cases l.value.child step with
  | none => rfl
  | some part =>
    simp only [Option.map_some, pathText_singleton, Step.follow_eq_joinPath]

/-! ### Children -/

theorem elements_eq_map (l : Location) (i : Nat) (items : List Json) :
  l.elements i items = (items.zipIdx i).map fun entry => l.element entry.2 entry.1
  := by
  induction items generalizing i with
  | nil => rfl
  | cons item rest ih => rw [elements, ih, List.zipIdx_cons, List.map_cons]

/-- The children of an array are its elements that are not null, each with its index in the
array. -/
theorem children_of_array {l : Location} {items : List Json} (h : l.value = .array items) :
  l.children = (items.zipIdx.filter fun entry => !entry.1.isNull).map fun entry =>
    l.element entry.2 entry.1
  := by
  rw [children, h]
  dsimp only
  rw [elements_eq_map, List.filter_map]
  rfl

/-- The children of an object are its members that are not null, each with its name. -/
theorem children_of_object {l : Location} {members : List (String × Json)}
    (h : l.value = .object members) :
  l.children = (members.filter fun entry => !entry.2.isNull).map fun entry =>
    l.property entry.1 entry.2
  := by
  rw [children, h]
  dsimp only
  rw [List.filter_map]
  rfl

/-- The locations are the parts of the value that are not null, in their order, as paths of one step
locate them. -/
structure ListsParts (l : Location) (locations : List Location) : Prop where
  /-- The elements of an array, each located by its index. -/
  array : ∀ items, l.value = .array items →
    List.Forall₂
      (fun child entry => child = l.element entry.2 entry.1
        ∧ (l.locate ("[" ++ Nat.repr entry.2 ++ "]")).value = some child)
      locations (items.zipIdx.filter fun entry => !entry.1.isNull)
  /-- The members of an object, each located by its key, if that can stand in a path. -/
  object : ∀ members, l.value = .object members →
    List.Forall₂
      (fun child entry => child = l.property entry.1 entry.2
        ∧ (isBlankPath entry.1 = false → '.' ∉ entry.1.toList → '[' ∉ entry.1.toList →
          (l.locate entry.1).value = some child))
      locations (members.filter fun entry => !entry.2.isNull)
  /-- Nothing else has parts. -/
  scalar : (∀ items, l.value ≠ .array items) → (∀ members, l.value ≠ .object members) →
    locations = []

/-- The children of a location are its parts as paths locate them, if keys are distinct and the
elements can be counted. -/
theorem listsParts_children {l : Location}
    (hd : ∀ members, l.value = .object members → (Keyed.names members).Nodup)
    (hl : ∀ items, l.value = .array items → items.length ≤ indexLimit) :
  l.ListsParts l.children
  where
  array items hv := by
    rw [children_of_array hv, List.forall₂_map_left_iff, List.forall₂_same]
    rintro ⟨item, i⟩ hm
    have hi : items[i]? = some item :=
      List.mk_mem_zipIdx_iff_getElem?.mp (List.mem_filter.mp hm).1
    obtain ⟨hlt, -⟩ := List.getElem?_eq_some_iff.mp hi
    have hs := Step.isSpelled_index (Nat.le_trans (Nat.le_of_lt hlt) (hl items hv))
    have hc : l.value.child (.index i) = some item := by
      rw [hv]
      apply hi
    refine ⟨rfl, (l.value_locate_text hs (isBlankPath_index i)).trans ?_⟩
    rw [child?, hc]
    rfl
  object members hv := by
    rw [children_of_object hv, List.forall₂_map_left_iff, List.forall₂_same]
    rintro ⟨name, value⟩ hm
    refine ⟨rfl, ?_⟩
    intro hb hdot hbracket
    have hn : name ≠ "" := by
      rintro rfl
      cases hb
    have hs := Step.isSpelled_key ⟨hn, hdot, hbracket⟩
    have hc : l.value.child (.key name) = some value := by
      rw [hv]
      apply Keyed.find?_of_mem (hd members hv) (List.mem_filter.mp hm).1
    refine (l.value_locate_text hs hb).trans ?_
    rw [child?, hc]
    rfl
  scalar ha ho := by
    rw [children]
    cases hv : l.value with
    | array items => exact absurd hv (ha items)
    | object members => exact absurd hv (ho members)
    | _ => rfl

end Location

/-! ### Visits -/

/-- If no visit fails, the iteration does not, and all the locations are visited. -/
theorem Visited.of_succeeded {σ : Type u} {visitor : Visitor σ} {locations : List Location}
    {visits : List (Visit σ)} {result : σ × Reply Unit}
    (h : Visited visitor locations visits result)
    (hv : ∀ visit ∈ visits, visit.reply.answer = .ok ()) :
  result.2.answer = .ok () ∧ visits.map Visit.child = locations
  := by
  have ha : result.2.answer = .ok () := by
    cases hr : result.2.answer with
    | ok => rfl
    | error e =>
      obtain ⟨earlier, visit, rfl, he⟩ := h.failed hr
      rw [hv visit (List.mem_append_right _ (List.mem_singleton_self visit))] at he
      cases he
  obtain ⟨rest, hl, hn⟩ := h.children
  rw [hn ha, List.append_nil] at hl
  exact ⟨ha, hl.symm⟩

/-- A visit finds its child as the context, if the session still has a root. -/
theorem Visited.currentLocation {σ : Type u} {visitor : Visitor σ} {locations : List Location}
    {visits : List (Visit σ)} {result : σ × Reply Unit}
    (h : Visited visitor locations visits result) {visit : Visit σ} (hm : visit ∈ visits) :
  visit.found.currentLocation
    = if visit.found.isInitialized then .ok visit.child else .error .invalidState
  := by
  obtain ⟨-, s, hf, -⟩ := h.called visit hm
  rw [hf, Session.currentLocation, Session.isInitialized]
  cases hr : (s.moveTo visit.child).root with
  | none => rfl
  | some root => rfl

/-- Over a node whose keys are distinct and whose elements can be counted, an iteration in a session
that has a root visits, if no visit fails, the parts of the node that are not null, in their order,
as paths locate them from there: the same ones whatever the session is and whatever is done to it on
the visits.  Each visit finds its location as the context as long as the session has a root. -/
theorem Session.visits_children {node : Location}
    (hd : ∀ members, node.value = .object members → (Keyed.names members).Nodup)
    (hl : ∀ items, node.value = .array items → items.length ≤ indexLimit) :
  node.ListsParts node.children
    ∧ ∀ {σ : Type u} (s : Session) (visitor : Visitor σ) (state : σ), s.isInitialized = true →
      (∀ visit ∈ s.visits node visitor state, visit.reply.answer = .ok ()) →
      s.iterate node visitor.noting (state, [])
          = (((s.iterate node visitor state).1, s.visits node visitor state),
            (s.iterate node visitor state).2)
        ∧ (s.iterate node visitor state).2.answer = .ok ()
        ∧ (s.visits node visitor state).map Visit.child = node.children
        ∧ ∀ visit ∈ s.visits node visitor state,
          visit.found.currentLocation
            = if visit.found.isInitialized then .ok visit.child else .error .invalidState
  := by
  refine ⟨Location.listsParts_children hd hl, ?_⟩
  intro σ s visitor state hi hv
  have hw := s.visited_iterate hi node visitor state
  obtain ⟨ha, hc⟩ := hw.of_succeeded hv
  exact ⟨s.iterate_noting node visitor state, ha, hc, fun visit => hw.currentLocation⟩

/-- Resets the session on the first visit, and adopts another document on the later ones. -/
def unsettle : Visitor Nat :=
  fun count s _ =>
    match count with
    | 0 => (1, s.reset)
    | later + 1 => (later + 2, { s.adopt (.bool false) with answer := .ok () })

/-- An object with a null member, and with keys that hold a bracket and a quote mark. -/
def oddKeys : Location :=
  .root (.object [("a]", .bool true), ("gone", .null), ("b 'c", .array []), ("d", .bool true)])

/-- The session of the object. -/
def oddSession : Session := ((Session.new {}).adopt oddKeys.value).session

/-- The visits are to the three members that are not null, also after the reset, and the second one
finds no root. -/
theorem visits_children_unsettle :
  (∀ members, oddKeys.value = .object members → (Keyed.names members).Nodup)
    ∧ (∀ items, oddKeys.value = .array items → items.length ≤ indexLimit)
    ∧ (∀ visit ∈ oddSession.visits oddKeys unsettle 0, visit.reply.answer = .ok ())
    ∧ (oddSession.visits oddKeys unsettle 0).map Visit.child
      = [⟨"a]", .bool true⟩, ⟨"b 'c", .array []⟩, ⟨"d", .bool true⟩]
    ∧ (oddKeys.locate "b 'c").value = some ⟨"b 'c", .array []⟩
    ∧ (oddSession.visits oddKeys unsettle 0).map (fun visit => visit.found.currentLocation)
      = [.ok ⟨"a]", .bool true⟩, .error .invalidState, .ok ⟨"d", .bool true⟩]
  := by
  have hd : ∀ members, oddKeys.value = .object members → (Keyed.names members).Nodup := by
    intro members h
    cases h
    decide
  have hl : ∀ items, oddKeys.value = .array items → items.length ≤ indexLimit := by
    intro items h
    cases h
  obtain ⟨hp, hs⟩ := Session.visits_children hd hl
  have hv : ∀ visit ∈ oddSession.visits oddKeys unsettle 0, visit.reply.answer = .ok () :=
    List.forall_mem_cons.mpr ⟨rfl, List.forall_mem_cons.mpr ⟨rfl, List.forall_mem_singleton.mpr rfl⟩⟩
  obtain ⟨-, -, hc, -⟩ := hs oddSession unsettle 0 rfl hv
  refine ⟨hd, hl, hv, hc.trans rfl, ?_, ?_⟩
  · cases hp.object _ rfl with
    | cons _ hr =>
      cases hr with
      | cons h _ => exact h.2 (by decide +kernel) (by decide) (by decide)
  · rfl

end JsonAudit
