import JsonAudit.Conversion.Types
import JsonAudit.Proofs.Path.Navigation
import JsonAudit.Proofs.Session.Operations

/-!
# Looking up a path

A path selects a value, by `resolve`, or the value with its canonical path, by `locate`; both find
the same and leave the same notes (`resolve_eq_locate`).  Typed access resolves, and takes null as
no value (`IsAbsent`); navigation locates, and does not go to null.  So one succeeds where the other
finds a value, and at the same one: this is `lookups_agree`.
-/

namespace JsonAudit

/-! ### Values and locations -/

/-- The value that a path selects is the one that it locates, and the notes are the same. -/
theorem resolve_eq_locate (path : String) (node : Json) :
  resolve path node = (locate path node).map fun found => found.map Location.value
  := by
  rw [resolve_eq_trace, locate]
  obtain ⟨entries, value⟩ := trace path node
  cases value <;> rfl

/-- From a location the same value is located as in its value. -/
theorem Location.value_locate (l : Location) (path : String) :
  (l.locate path).value
    = (JsonAudit.locate path l.value).value.map fun found =>
      ⟨joinPath l.path found.path, found.value⟩
  := rfl

/-! ### Absent and present values -/

/-- The path selects nothing, or null. -/
def IsAbsent (path : String) (node : Json) : Prop :=
  (resolve path node).value = none ∨ (resolve path node).value = some .null

/-- The path selects a value, not null, that stands for this value of the type. -/
def Reads {α : Type} [Readable α] (path : String) (node : Json) (a : α) : Prop :=
  ∃ value, (resolve path node).value = some value ∧ value ≠ .null ∧ Readable.read value = .ok a

/-- The value that the path selects, if it is not null, stands for one of the type. -/
def Converts (α : Type) [Readable α] (path : String) (node : Json) : Prop :=
  ∀ value, (resolve path node).value = some value → value ≠ .null →
    ∃ a : α, Readable.read value = .ok a

theorem Json.isNull_eq_false_iff {value : Json} :
  value.isNull = false ↔ value ≠ .null
  := by
  cases value <;> simp [isNull]

section

variable {α : Type} [Readable α] {path : String} {node : Json}

/-- Null is converted to no value, whatever the type. -/
theorem convert_null (path : String) :
  (convert path .null : Except DocumentError (Option α)) = .ok none
  := rfl

/-- What can be read and is not null is converted to the value read. -/
theorem convert_of_read {value : Json} {a : α} (hn : value ≠ .null)
    (h : Readable.read value = .ok a) :
  (convert path value : Except DocumentError (Option α)) = .ok (some a)
  := by
  rw [convert, readOption, if_neg (Bool.eq_false_iff.mp (Json.isNull_eq_false_iff.mpr hn)), h]
  rfl

/-- A typed access to an absent path has no value, without an error. -/
theorem get_of_isAbsent (h : IsAbsent path node) :
  (get path node : Logged Note (Except DocumentError (Option α))).value = .ok none
  := by
  rw [get, Logged.value_map]
  rcases h with h | h
  · rw [h]
  · rw [h]
    apply convert_null

/-- A typed access has the value that is read at its path. -/
theorem get_of_reads {a : α} (h : Reads path node a) :
  (get path node).value = .ok (some a)
  := by
  obtain ⟨value, hs, hn, hr⟩ := h
  rw [get, Logged.value_map, hs]
  apply convert_of_read hn hr

/-- A path at which a value is read is not absent. -/
theorem Reads.not_isAbsent {a : α} (h : Reads path node a) :
  ¬ IsAbsent path node
  := by
  obtain ⟨value, hs, hn, -⟩ := h
  rintro (ha | ha)
  · rw [hs] at ha
    cases ha
  · rw [hs] at ha
    apply hn (Option.some.inj ha)

/-- One value at most is read at a path. -/
theorem Reads.unique {a b : α} (ha : Reads path node a) (hb : Reads path node b) :
  a = b
  := by
  have h := (get_of_reads ha).symm.trans (get_of_reads hb)
  exact Option.some.inj (Except.ok.inj h)

/-- If what is selected can be converted, either nothing or null is selected, or a value of the type
is read. -/
theorem Converts.isAbsent_or_reads (h : Converts α path node) :
  IsAbsent path node ∨ ∃ a : α, Reads path node a
  := by
  by_cases ha : IsAbsent path node
  · exact .inl ha
  · right
    obtain ⟨value, hs⟩ := Option.ne_none_iff_exists'.mp fun hn => ha (.inl hn)
    have hn : value ≠ .null := by
      rintro rfl
      exact ha (.inr hs)
    obtain ⟨a, hr⟩ := h value hs hn
    exact ⟨a, value, hs, hn, hr⟩

end

/-- Either the path is absent, or it locates a value that is not null. -/
theorem isAbsent_or_located (path : String) (node : Json) :
  IsAbsent path node
    ∨ ∃ found, (locate path node).value = some found ∧ found.value.isNull = false
  := by
  have hr : (resolve path node).value = (locate path node).value.map Location.value := by
    rw [resolve_eq_locate, Logged.value_map]
  cases hl : (locate path node).value with
  | none =>
    rw [hl] at hr
    exact .inl (.inl hr)
  | some found =>
    obtain ⟨place, value⟩ := found
    rw [hl] at hr
    by_cases hn : value = .null
    · subst hn
      exact .inl (.inr hr)
    · exact .inr ⟨_, rfl, Json.isNull_eq_false_iff.mpr hn⟩

/-! ### Access and navigation -/

namespace Session

variable {s : Session} {node : Location} {path : String}

/-- Typed access in a session that has a root is typed access in the value of the node. -/
theorem get_of_isInitialized {α : Type} [Readable α] (h : s.isInitialized = true) (node : Location)
    (path : String) :
  s.get node path
    = ((JsonAudit.get path node.value : Logged Note (Except DocumentError (Option α))).mapEntries
      .note).map (·.mapError .document)
  := by
  obtain ⟨root, hr⟩ := Option.isSome_iff_exists.mp h
  rw [get, ifRooted, hr]

/-- What typed access finds in the value of the node, it finds in a session that has a root. -/
theorem value_get_of_ok {α : Type} [Readable α] (h : s.isInitialized = true) {found : Option α}
    (hf : (JsonAudit.get path node.value).value = .ok found) :
  (s.get node path).value = .ok found
  := by
  rw [get_of_isInitialized h, Logged.value_map]
  exact congrArg (Except.mapError Error.document) hf

/-- The notes that a typed access leaves are those of locating the path. -/
theorem entries_get (h : s.isInitialized = true) (node : Location) (path : String) :
  (s.get node path : Answer (Option Json)).entries = (node.locate path).entries.map .note
  := by
  rw [get_of_isInitialized h]
  show (resolve path node.value).entries.map Event.note = _
  rw [resolve_eq_locate]
  rfl

/-- A session that has a root does not navigate along an absent path. -/
theorem navigate_of_isAbsent (h : s.isInitialized = true) (ha : IsAbsent path node.value) :
  s.navigate node path
    = ⟨.error (.notFound (node.qualify path)), s, (node.locate path).entries.map .note⟩
  := by
  obtain ⟨root, hr⟩ := Option.isSome_iff_exists.mp h
  have hf : ((node.locate path).value.filter fun l => !l.value.isNull) = none := by
    rw [Location.value_locate]
    rw [IsAbsent, resolve_eq_locate, Logged.value_map] at ha
    cases hl : (JsonAudit.locate path node.value).value with
    | none => rfl
    | some found =>
      rw [hl] at ha
      rcases ha with ha | ha
      · cases ha
      · apply Option.filter_some_neg
        rw [Option.some.inj ha]
        decide
  rw [navigate, whenRooted, hr]
  simp only [hf]

/-- A session that has a root navigates to what is located, unless it is null. -/
theorem navigate_of_located (h : s.isInitialized = true) {found : Location}
    (hl : (node.locate path).value = some found) (hn : found.value.isNull = false) :
  s.navigate node path
    = ⟨.ok found, s.moveTo found,
      (node.locate path).entries.map .note ++ [.navigated found.path]⟩
  := by
  obtain ⟨root, hr⟩ := Option.isSome_iff_exists.mp h
  have hf : ((node.locate path).value.filter fun l => !l.value.isNull) = some found := by
    rw [hl]
    apply Option.filter_some_pos
    rw [hn]
    rfl
  rw [navigate, whenRooted, hr]
  simp only [hf]

end Session

/-- A path selects the value that it locates, with the same notes.  In a session that has a root,
navigating along a path finds nothing if and only if a typed access finds no value; where navigation
leads, the typed access finds the value, and the path of the place is the canonical path of the
value in the node, joined to the path of the node. -/
theorem lookups_agree :
  (∀ path node, (resolve path node).value = (locate path node).value.map Location.value
      ∧ (resolve path node).entries = (locate path node).entries)
    ∧ ∀ (s : Session) (node : Location) (path : String), s.isInitialized = true →
      ((∃ place, (s.navigate node path).answer = .error (.notFound place))
          ↔ (s.get node path : Answer (Option Json)).value = .ok none)
        ∧ (∀ e, (s.navigate node path).answer = .error e →
          e = .notFound (node.qualify path)
            ∧ (s.navigate node path).events = (s.get node path : Answer (Option Json)).entries)
        ∧ ∀ l, (s.navigate node path).answer = .ok l →
          (s.get node path : Answer (Option Json)).value = .ok (some l.value)
            ∧ (∃ found, (locate path node.value).value = some found
              ∧ l = ⟨joinPath node.path found.path, found.value⟩)
            ∧ (s.navigate node path).events
              = (s.get node path : Answer (Option Json)).entries ++ [.navigated l.path]
  := by
  constructor
  · intro path node
    rw [resolve_eq_locate]
    exact ⟨rfl, rfl⟩
  · intro s node path hi
    rw [Session.entries_get hi]
    rcases isAbsent_or_located path node.value with ha | ⟨found, hl, hn⟩
    · rw [Session.navigate_of_isAbsent hi ha, Session.value_get_of_ok hi (get_of_isAbsent ha)]
      refine ⟨⟨fun _ => rfl, fun _ => ⟨_, rfl⟩⟩, ?_, ?_⟩
      · rintro e ⟨⟩
        exact ⟨rfl, rfl⟩
      · rintro l ⟨⟩
    · have hs : (node.locate path).value = some ⟨joinPath node.path found.path, found.value⟩ := by
        rw [Location.value_locate, hl]
        rfl
      have hr : Reads path node.value found.value := by
        refine ⟨found.value, ?_, Json.isNull_eq_false_iff.mp hn, rfl⟩
        rw [resolve_eq_locate, Logged.value_map, hl]
        rfl
      rw [Session.navigate_of_located hi hs hn, Session.value_get_of_ok hi (get_of_reads hr)]
      refine ⟨⟨?_, ?_⟩, ?_, ?_⟩
      · rintro ⟨place, ⟨⟩⟩
      · rintro ⟨⟩
      · rintro e ⟨⟩
      · rintro l ⟨⟩
        exact ⟨rfl, ⟨found, hl, rfl⟩, rfl⟩

/-- An object with a list of rows and a null member. -/
def rowsAndNull : Location :=
  .root (.object [("rows", .array [.object [("id", .bool true)]]), ("gone", .null)])

/-- The session of the object. -/
def rowsSession : Session := ((Session.new {}).adopt rowsAndNull.value).session

/-- Navigation goes to the row that the predicate accepts, whose value is read; the null member is
read as no value, and navigation does not go there. -/
theorem lookups_agree_rowsAndNull :
  rowsSession.isInitialized = true
    ∧ (rowsSession.navigate rowsAndNull "rows[@.id==true]").answer
      = .ok ⟨"rows[0]", .object [("id", .bool true)]⟩
    ∧ (rowsSession.get rowsAndNull "rows[@.id==true]" : Answer (Option Json)).value
      = .ok (some (.object [("id", .bool true)]))
    ∧ (rowsSession.navigate rowsAndNull "gone").answer = .error (.notFound "gone")
    ∧ (rowsSession.get rowsAndNull "gone" : Answer (Option Json)).value = .ok none
  := by
  have hb : isBlankPath "rows[@.id==true]" = false := by decide +kernel
  have hp : parsePath "rows[@.id==true]"
      = [.mk "rows" (some (.predicate (.mk "id" [.mk "id" none] .equal "true")))] := by
    decide +kernel
  have hb' : isBlankPath "gone" = false := by decide +kernel
  have hp' : parsePath "gone" = [.mk "gone" none] := by decide +kernel
  have hn : (rowsSession.navigate rowsAndNull "rows[@.id==true]").answer
      = .ok ⟨"rows[0]", .object [("id", .bool true)]⟩ := by
    rw [Session.navigate, Location.locate, locate, trace, hb, hp]
    rfl
  have hn' : (rowsSession.navigate rowsAndNull "gone").answer = .error (.notFound "gone") := by
    rw [Session.navigate, Location.locate, locate, trace, hb', hp']
    rfl
  obtain ⟨-, -, hl⟩ := lookups_agree.2 rowsSession rowsAndNull "rows[@.id==true]" rfl
  obtain ⟨hi, -⟩ := lookups_agree.2 rowsSession rowsAndNull "gone" rfl
  exact ⟨rfl, hn, (hl _ hn).1, hn', hi.mp ⟨_, hn'⟩⟩

end JsonAudit
