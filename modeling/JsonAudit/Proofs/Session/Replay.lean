import JsonAudit.Proofs.Session.Failures
import JsonAudit.Proofs.Session.Phases
import Mathlib.Data.List.DropRight

/-!
# Replaying the events

The events of a session that logs outcomes tell all that happens to its table: two of them clear it,
and two of them enter a record.  `replay` starts with the empty table after the latest event that
clears it, and enters what the events tell from there.  Whatever a run does, and at every moment of
it, this gives the table: that is `Script.replay_events`.
-/

namespace JsonAudit

/-! ### Events -/

namespace Event

/-- The event tells that the table was cleared. -/
def clears : Event → Bool
  | initialized _ => true
  | reset _ => true
  | _ => false

/-- The table after what the event tells. -/
def enter (table : Table) : Event → Table
  | initialized _ => .empty
  | reset _ => .empty
  | recorded key status message => table.insert key ⟨status, message⟩
  | unresolved key message => table.insert key ⟨.unresolved, message⟩
  | note _ => table
  | navigated _ => table

theorem enter_of_clears {e : Event} (h : e.clears = true) (table : Table) :
  e.enter table = .empty
  := by
  cases e with
  | initialized kind => rfl
  | reset records => rfl
  | _ => cases h

/-- The event of a record enters that record. -/
theorem enter_ofRecord (table : Table) (key : String) (record : Record) :
  (ofRecord key record).enter table = table.insert key record
  := by
  obtain ⟨status, message⟩ := record
  cases status <;> rfl

end Event

/-- Notes on absent values enter nothing. -/
theorem NotesOnly.foldl_enter {events : List Event} (h : NotesOnly events) (table : Table) :
  events.foldl Event.enter table = table
  := by
  obtain ⟨notes, rfl⟩ := h
  induction notes with
  | nil => rfl
  | cons n rest ih => apply ih

/-- The events after the latest one that clears the table. -/
def sinceCleared (events : List Event) : List Event := events.rtakeWhile fun e => !e.clears

/-- The table that the events tell of since it was last cleared. -/
def replay (events : List Event) : Table := (sinceCleared events).foldl Event.enter .empty

/-- Entering what all the events tell comes to the same as replaying them, if the table was empty or
one of them clears it: an event that clears makes all before it irrelevant. -/
theorem foldl_enter_eq_replay {table : Table} {events : List Event}
    (h : table = .empty ∨ ∃ e ∈ events, e.clears = true) :
  events.foldl Event.enter table = replay events
  := by
  induction events using List.reverseRecOn with
  | nil =>
    obtain rfl | ⟨e, hm, -⟩ := h
    · rfl
    · cases hm
  | append_singleton events e ih =>
    rw [List.foldl_append, replay, sinceCleared, List.rtakeWhile_concat]
    cases he : e.clears with
    | true =>
      rw [List.foldl_cons, Event.enter_of_clears he]
      rfl
    | false =>
      have hr : table = .empty ∨ ∃ other ∈ events, other.clears = true := by
        refine h.imp_right ?_
        rintro ⟨other, hm, hc⟩
        rcases List.mem_append.mp hm with hm | hm
        · exact ⟨other, hm, hc⟩
        · rw [List.mem_singleton.mp hm, he] at hc
          cases hc
      rw [ih hr, if_pos (Bool.not_false), List.foldl_append]
      rfl

/-! ### Runs -/

/-- The events of an operation tell what it does to the table, if outcomes are logged. -/
theorem Op.foldl_enter_run {α : Type} (op : Op α) {s : Session}
    (hl : s.settings.logOutcomes = true) :
  (op.run s).events.foldl Event.enter s.table = (op.run s).session.table
  := by
  cases hr : op.reads with
  | true =>
    have hi := idle_of_reads hr s
    rw [hi.events.foldl_enter, hi.session]
  | false =>
    cases op with
    | adopt value distinct => rfl
    | adoptText text =>
      rcases Session.adoptText_cases text with ⟨value, -, -, hs⟩ | ⟨e, hs⟩
      · rw [run, hs]
        rfl
      · rw [run, hs]
        rfl
    | navigate node path =>
      rcases s.navigate_cases node path with ⟨found, -, -, -, hs⟩ | ⟨e, notes, hs⟩
      · rw [run, hs, List.foldl_append, NotesOnly.foldl_enter ⟨_, rfl⟩]
        rfl
      · rw [run, hs, NotesOnly.foldl_enter ⟨notes, rfl⟩]
    | record c =>
      rcases s.record_cases c with ⟨key, record, -, -, hs⟩ | hs
      · rw [run, hs, Session.outcomeEvents, if_pos hl]
        apply Event.enter_ofRecord
      · rw [run, hs]
        rfl
    | reset => rfl
    | takeTable => rfl
    | _ => cases hr

theorem Moment.Follows.foldl_enter {past : List Moment} {s : Session} {m : Moment}
    (h : m.Follows past s) (hl : s.settings.logOutcomes = true) :
  m.events.foldl Event.enter s.table = m.after.table
  := by
  cases m with
  | call depth op before =>
    obtain rfl : before = s := h
    apply op.foldl_enter_run hl
  | iterate depth node before =>
    obtain rfl : before = s := h
    rfl
  | visit depth child after =>
    obtain ⟨rfl, -⟩ := h
    rfl

/-- The events up to a moment of a run tell what became of the table until then. -/
theorem Script.foldl_enter_events {β : Type} (script : Script β) (depth : Nat) {s : Session}
    (hl : s.settings.logOutcomes = true) {earlier later : List Moment}
    (h : (script.run depth s).history = earlier ++ later) :
  (earlier.flatMap Moment.events).foldl Event.enter s.table = (s.afterAll earlier).table
  := by
  have hr := (script.run_leads depth [] s).1
  rw [h] at hr
  refine (Leads.invariant (P := fun past t => t.settings = s.settings
    ∧ (past.flatMap Moment.events).foldl Event.enter s.table = t.table) ?_ ⟨rfl, rfl⟩ hr).2
  rintro past t m ⟨hs, ht⟩ hf
  constructor
  · rw [hf.settings, hs]
  · rw [List.flatMap_append, List.flatMap_singleton, List.foldl_append, ht]
    apply hf.foldl_enter
    rw [hs, hl]

/-- The events of a whole run tell what became of the table. -/
theorem Script.foldl_enter_run {β : Type} (script : Script β) (depth : Nat) {s : Session}
    (hl : s.settings.logOutcomes = true) :
  (script.run depth s).events.foldl Event.enter s.table = (script.run depth s).session.table
  := by
  rw [script.events_run, script.foldl_enter_events depth hl (List.append_nil _).symm,
    (script.run_leads depth [] s).1.afterAll_eq]

/-- In a session that logs outcomes, replaying the events since the latest one that clears the table
gives the table: at every moment of a run from a new session, and at its end; and after a run from
any session, if it has such an event. -/
theorem Script.replay_events {β : Type} (script : Script β) :
  (∀ settings : Settings, settings.logOutcomes = true →
      (∀ earlier later, (script.run 0 (.new settings)).history = earlier ++ later →
        replay (earlier.flatMap Moment.events) = (Session.afterAll (.new settings) earlier).table)
      ∧ replay (script.run 0 (.new settings)).events = (script.run 0 (.new settings)).session.table)
    ∧ ∀ (depth : Nat) (s : Session), s.settings.logOutcomes = true →
      (∃ e ∈ (script.run depth s).events, e.clears = true) →
      replay (script.run depth s).events = (script.run depth s).session.table
  := by
  constructor
  · intro settings hl
    have hn : (Session.new settings).settings.logOutcomes = true := hl
    have ht : (Session.new settings).table = .empty := rfl
    constructor
    · intro earlier later h
      rw [← foldl_enter_eq_replay (.inl ht), script.foldl_enter_events 0 hn h]
    · rw [← foldl_enter_eq_replay (.inl ht), script.foldl_enter_run 0 hn]
  · intro depth s hl hc
    rw [← foldl_enter_eq_replay (.inr hc), script.foldl_enter_run depth hl]

/-- Records, drops the document, fails to record without one, and records on the visits to the
elements of the next one. -/
def recordAfterDrop : Script (Except Error Unit) :=
  .call (.adopt (.array [.bool true, .bool true]) distinctNames_pair) fun
    | .error e => .done (.error e)
    | .ok root =>
      .call (.record (⟨⟨"a", none⟩, ⟨"b", some true⟩⟩ : Comparison Bool)) fun _ =>
        .call .takeTable fun _ =>
          .call (.record (⟨⟨"c", none⟩, ⟨"b", some true⟩⟩ : Comparison Bool)) fun _ =>
            .call (.adopt (.array [.bool true, .bool true]) distinctNames_pair) fun _ =>
              .iterate root
                (fun _ child => .call
                  (.record (⟨⟨child.path, some true⟩, ⟨"b", none⟩⟩ : Comparison Bool))
                  fun answer => .done ((), answer.map fun _ => ()))
                () fun _ answer => .done answer

/-- What was recorded before the last document was adopted is not replayed, and the second visit
replaces what the first one recorded. -/
theorem replay_events_recordAfterDrop :
  (Settings.logOutcomes {}) = true
    ∧ (recordAfterDrop.run 0 (.new {})).events
      = [.initialized "array", .unresolved "a" Comparison.leftMissing, .reset 0,
        .initialized "array", .unresolved "b" Comparison.rightMissing,
        .unresolved "b" Comparison.rightMissing]
    ∧ (∃ e ∈ (recordAfterDrop.run 0 (.new {})).events, e.clears = true)
    ∧ replay (recordAfterDrop.run 0 (.new {})).events
      = (recordAfterDrop.run 0 (.new {})).session.table
    ∧ (recordAfterDrop.run 0 (.new {})).session.table.find? "b"
      = some ⟨.unresolved, Comparison.rightMissing⟩
    ∧ replay (((recordAfterDrop.run 0 (.new {})).history.take 2).flatMap Moment.events)
      = (Session.afterAll (.new {}) ((recordAfterDrop.run 0 (.new {})).history.take 2)).table
  := by
  have he : (recordAfterDrop.run 0 (.new {})).events
      = [.initialized "array", .unresolved "a" Comparison.leftMissing, .reset 0,
        .initialized "array", .unresolved "b" Comparison.rightMissing,
        .unresolved "b" Comparison.rightMissing] := rfl
  have hc : ∃ e ∈ (recordAfterDrop.run 0 (.new {})).events, e.clears = true := by
    rw [he]
    exact ⟨_, List.mem_cons_self, rfl⟩
  obtain ⟨hn, ha⟩ := recordAfterDrop.replay_events
  exact ⟨rfl, he, hc, ha 0 (.new {}) rfl hc, rfl,
    (hn {} rfl).1 _ _ (List.take_append_drop 2 _).symm⟩

end JsonAudit
