import JsonAudit.Conversion.Types
import JsonAudit.Proofs.Path.Positions
import JsonAudit.Proofs.Session.Histories

/-!
# Captured keys

The left side of a comparison is captured under a key: the path of a location joined with a path
from there.  In a document whose keys can stand in a path, different positions have different paths,
and the keys captured at them with one path differ, too: this is `keys_differ`.  It holds of all
locations that a run gets from the document by iterating, however deeply, and by locating (`Held`),
since they are at positions in it.
-/

namespace JsonAudit

/-! ### Held locations -/

/-- The locations in a document that a run holds: its root, what it visited, and what is located
from what it holds. -/
inductive Held (document : Json) (history : List Moment) : Location → Prop where
  | root : Held document history (.root document)
  | visit {depth : Nat} {child : Location} {after : Session} :
    .visit depth child after ∈ history → Held document history child
  | locate {l found : Location} {path : String} :
    Held document history l → (l.locate path).value = some found → Held document history found

/-- Every iteration is over a location that is held at that time. -/
def IteratesHeld (document : Json) (history : List Moment) : Prop :=
  ∀ earlier depth node before later, history = earlier ++ .iterate depth node before :: later →
    Held document earlier node

/-- Every iteration is over a held location exactly if every moment that is an iteration is. -/
theorem iteratesHeld_iff {document : Json} {history : List Moment} :
  IteratesHeld document history
    ↔ ∀ earlier m later, history = earlier ++ m :: later →
      ∀ depth node before, m = .iterate depth node before → Held document earlier node
  := by
  constructor
  · rintro h earlier m later hh depth node before rfl
    apply h earlier depth node before later hh
  · intro h earlier depth node before later hh
    apply h earlier _ later hh depth node before rfl

/-- There is no iteration in an empty history. -/
theorem iteratesHeld_nil (document : Json) :
  IteratesHeld document []
  := iteratesHeld_iff.mpr forall_moment_nil

/-- One more moment is over a location that is held if it is an iteration. -/
theorem iteratesHeld_snoc {document : Json} {past : List Moment} {m : Moment} :
  IteratesHeld document (past ++ [m])
    ↔ IteratesHeld document past
      ∧ ∀ depth node before, m = .iterate depth node before → Held document past node
  := by
  rw [iteratesHeld_iff, iteratesHeld_iff]
  apply forall_moment_snoc

/-- After the moments everything that is held is reached from the document, and so are the nodes of
the iterations that are going on. -/
structure HeldReached (document : Json) (past : List Moment) : Prop where
  held : ∀ l, Held document past l → Reached document l
  iterating : ∀ depth node, Iterating past depth node → Reached document node

/-- Before any moment only the root and what is located from it is held, and that is reached. -/
theorem heldReached_nil (document : Json) :
  HeldReached document []
  where
  held l h := by
    induction h with
    | root => apply Reached.root
    | visit hm => cases hm
    | locate _ hl ih => apply Reached.locate ih hl
  iterating depth node h := absurd h not_since_nil

/-- A visit is to a child of the node of an iteration that is going on, so that every moment keeps
what is held reached. -/
theorem HeldReached.step {document : Json} {past : List Moment} {s : Session} {m : Moment}
    (h : HeldReached document past) (hf : m.Follows past s)
    (hi : IteratesHeld document (past ++ [m])) :
  HeldReached document (past ++ [m])
  where
  held l hl := by
    induction hl with
    | root => apply Reached.root
    | visit hm =>
      rcases List.mem_append.mp hm with hm | hm
      · apply h.held _ (.visit hm)
      · obtain rfl := List.mem_singleton.mp hm
        obtain ⟨-, outer, node, -, ho, hc⟩ := hf
        apply Reached.child (h.iterating outer node ho) hc
    | locate _ hf ih => apply Reached.locate ih hf
  iterating depth node hn := by
    rcases since_snoc.mp hn with ⟨before, rfl⟩ | ⟨-, hn⟩
    · apply h.held node ((iteratesHeld_snoc.mp hi).2 depth node before rfl)
    · apply h.iterating depth node hn

/-- What is held after a run is reached from the document. -/
theorem Script.heldReached_run {document : Json} {β : Type} (script : Script β) (depth : Nat)
    (s : Session) (h : IteratesHeld document (script.run depth s).history) :
  HeldReached document (script.run depth s).history
  := by
  have hl := (script.run_leads depth [] s).1
  rw [← List.append_nil (script.run depth s).history] at hl
  refine Leads.invariant
    (P := fun past _ => IteratesHeld document past → HeldReached document past) ?_ ?_ hl h
  · intro past s m hp hf hi
    apply (hp (iteratesHeld_snoc.mp hi).1).step hf hi
  · intro _
    apply heldReached_nil

/-! ### Keys -/

/-- The key was captured as a left side at the path from the location. -/
def Captured (history : List Moment) (l : Location) (relative key : String) : Prop :=
  ∃ (α : Type) (_ : Readable α) (depth : Nat) (before : Session) (left : Expectation α),
    .call depth (.expect α l relative) before ∈ history
      ∧ (before.expect l relative).value = .ok left ∧ left.key = key

/-- A left side is captured under the path of its location joined with the path from there. -/
theorem Session.key_of_expect {α : Type} [Readable α] {s : Session} {node : Location}
    {path : String} {left : Expectation α} (h : (s.expect node path).value = .ok left) :
  left.key = node.qualify path
  := by
  rw [expect, Logged.value_map] at h
  obtain ⟨value, -, rfl⟩ := exists_of_map_eq_ok h
  rfl

/-- A captured key is the path of the location joined with the path from there. -/
theorem Captured.key_eq {history : List Moment} {l : Location} {relative key : String}
    (h : Captured history l relative key) :
  key = l.qualify relative
  := by
  obtain ⟨α, _, depth, before, left, -, hv, rfl⟩ := h
  apply Session.key_of_expect hv

/-- In a document whose keys can stand in a path, two positions have different paths, and they stay
different if one path is joined to both.  So the keys differ that a run captures with one path at
different locations that it got from the document by iterations within each other. -/
theorem keys_differ {document : Json} (hk : document.HasPlainKeys) :
  (∀ steps steps' l l', (Location.root document).descend steps = some l →
      (Location.root document).descend steps' = some l' → steps ≠ steps' →
      l.path ≠ l'.path ∧ ∀ relative, joinPath l.path relative ≠ joinPath l'.path relative)
    ∧ (document.DistinctNames → ∀ {β : Type} (script : Script β) (depth : Nat) (s : Session),
      IteratesHeld document (script.run depth s).history →
      ∀ l l', Held document (script.run depth s).history l →
        Held document (script.run depth s).history l' →
        (∃ steps, (Location.root document).descend steps = some l)
          ∧ (l ≠ l' → ∀ relative key key', Captured (script.run depth s).history l relative key →
            Captured (script.run depth s).history l' relative key' → key ≠ key'))
  := by
  constructor
  · intro steps steps' l l' hl hl' hne
    have hp : l.path ≠ l'.path := by
      intro he
      apply hne ((Location.descend_root_iff.mp hl).steps_eq hk (Location.descend_root_iff.mp hl') he)
    exact ⟨hp, fun relative he => hp (joinPath_right_cancel he)⟩
  · intro hd β script depth s hi l l' hl hl'
    have hr := script.heldReached_run depth s hi
    obtain ⟨steps, hs⟩ := (hr.held l hl).isAt hd
    obtain ⟨steps', hs'⟩ := (hr.held l' hl').isAt hd
    refine ⟨⟨steps, Location.descend_root_iff.mpr hs⟩, ?_⟩
    intro hne relative key key' hc hc' he
    rw [hc.key_eq, hc'.key_eq] at he
    apply hne (hs.eq_of_path_eq hk hs' (joinPath_right_cancel he))

/-- A document with a list under a key that holds a bracket. -/
def bracketedList : Json := .object [("a]", .array [.bool true, .bool false])]

/-- Captures the name of every element of every member. -/
def captureNames : Script (Except Error Unit) :=
  .iterate (.root bracketedList)
    (fun _ member => .iterate member
      (fun _ element => .call (.expect String element "name") fun _ => .done ((), .ok ())) ()
      fun _ answer => .done ((), answer))
    () fun _ answer => .done answer

/-- The parts of the document are itself, its list and the flags in it. -/
theorem part_bracketedList {part : Json} (h : bracketedList.Part part) :
  part = bracketedList ∨ part = .array [.bool true, .bool false] ∨ ∃ b, part = .bool b
  := by
  induction h with
  | self => exact .inl rfl
  | element _ hm ih =>
    rcases ih with h | h | ⟨b, h⟩ <;> cases h
    rcases List.mem_cons.mp hm with rfl | hm
    · exact .inr (.inr ⟨true, rfl⟩)
    · exact .inr (.inr ⟨false, List.mem_singleton.mp hm⟩)
  | member _ hm ih =>
    rcases ih with h | h | ⟨b, h⟩ <;> cases h
    cases List.mem_singleton.mp hm
    exact .inr (.inl rfl)

theorem hasPlainKeys_bracketedList :
  bracketedList.HasPlainKeys
  := by
  intro members h
  rcases part_bracketedList h with h | h | ⟨b, h⟩ <;> cases h
  intro key hk
  cases List.mem_singleton.mp hk
  rw [IsComponent]
  decide

theorem distinctNames_bracketedList :
  bracketedList.DistinctNames
  := by
  intro members h
  rcases part_bracketedList h with h | h | ⟨b, h⟩ <;> cases h
  decide

/-- The session of the document. -/
def bracketedSession : Session := ((Session.new {}).adopt bracketedList).session

/-- The member of the document. -/
def bracketedMember : Location := ⟨"a]", .array [.bool true, .bool false]⟩

/-- The member is visited, then its elements, and a name is looked up on every one of those. -/
theorem history_captureNames :
  (captureNames.run 0 bracketedSession).history
    = [.iterate 0 (.root bracketedList) bracketedSession,
      .visit 1 bracketedMember (bracketedSession.moveTo bracketedMember),
      .iterate 1 bracketedMember (bracketedSession.moveTo bracketedMember),
      .visit 2 ⟨"a][0]", .bool true⟩ (bracketedSession.moveTo ⟨"a][0]", .bool true⟩),
      .call 2 (.expect String ⟨"a][0]", .bool true⟩ "name")
        (bracketedSession.moveTo ⟨"a][0]", .bool true⟩),
      .visit 2 ⟨"a][1]", .bool false⟩ (bracketedSession.moveTo ⟨"a][1]", .bool false⟩),
      .call 2 (.expect String ⟨"a][1]", .bool false⟩ "name")
        (bracketedSession.moveTo ⟨"a][1]", .bool false⟩)]
  := rfl

/-- The root is held from the beginning, and the member since it was visited. -/
theorem iteratesHeld_captureNames :
  IteratesHeld bracketedList (captureNames.run 0 bracketedSession).history
  := by
  rw [history_captureNames]
  show IteratesHeld bracketedList ([] ++ [_] ++ [_] ++ [_] ++ [_] ++ [_] ++ [_] ++ [_])
  simp only [iteratesHeld_snoc, reduceCtorEq, false_imp_iff, implies_true, and_true,
    Moment.iterate.injEq]
  refine ⟨⟨iteratesHeld_nil bracketedList, ?_⟩, ?_⟩
  · rintro depth node before ⟨-, rfl, -⟩
    exact .root
  · rintro depth node before ⟨-, rfl, -⟩
    exact .visit (List.mem_append_right _ List.mem_cons_self)

/-- A boolean has no name, whose key is captured all the same. -/
theorem expect_name (path : String) (b : Bool) :
  ((bracketedSession.moveTo ⟨path, .bool b⟩).expect (α := String) ⟨path, .bool b⟩ "name").value
    = .ok ⟨joinPath path "name", none⟩
  := by
  have hb : isBlankPath "name" = false := by decide +kernel
  have hp : parsePath "name" = [.mk "name" none] := by decide +kernel
  rw [Session.expect, Session.get, JsonAudit.get, resolve, hb, hp]
  rfl

/-- The elements of the list have different keys, which one iteration within another captures. -/
theorem keys_differ_bracketedList :
  bracketedList.HasPlainKeys ∧ bracketedList.DistinctNames
    ∧ IteratesHeld bracketedList (captureNames.run 0 bracketedSession).history
    ∧ Captured (captureNames.run 0 bracketedSession).history ⟨"a][0]", .bool true⟩ "name"
      "a][0].name"
    ∧ Captured (captureNames.run 0 bracketedSession).history ⟨"a][1]", .bool false⟩ "name"
      "a][1].name"
    ∧ "a][0].name" ≠ "a][1].name"
  := by
  have hi := iteratesHeld_captureNames
  have hf : Captured (captureNames.run 0 bracketedSession).history ⟨"a][0]", .bool true⟩ "name"
      "a][0].name" := by
    refine ⟨String, _, 2, _, _, ?_, expect_name "a][0]" true, by decide⟩
    rw [history_captureNames]
    simp
  have hs : Captured (captureNames.run 0 bracketedSession).history ⟨"a][1]", .bool false⟩ "name"
      "a][1].name" := by
    refine ⟨String, _, 2, _, _, ?_, expect_name "a][1]" false, by decide⟩
    rw [history_captureNames]
    simp
  have hl : .visit 2 ⟨"a][0]", .bool true⟩ (bracketedSession.moveTo ⟨"a][0]", .bool true⟩)
      ∈ (captureNames.run 0 bracketedSession).history := by
    rw [history_captureNames]
    simp
  have hl' : .visit 2 ⟨"a][1]", .bool false⟩ (bracketedSession.moveTo ⟨"a][1]", .bool false⟩)
      ∈ (captureNames.run 0 bracketedSession).history := by
    rw [history_captureNames]
    simp
  have hd := ((keys_differ hasPlainKeys_bracketedList).2 distinctNames_bracketedList captureNames 0
    bracketedSession hi _ _ (.visit hl) (.visit hl')).2 (mt (congrArg Location.path) (by decide))
  exact ⟨hasPlainKeys_bracketedList, distinctNames_bracketedList, hi, hf, hs, hd _ _ _ hf hs⟩

end JsonAudit
