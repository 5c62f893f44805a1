import JsonAudit.Proofs.Session.Failures
import JsonAudit.Proofs.Session.Phases
import JsonAudit.Proofs.Session.Results
import Mathlib.Data.List.Induction

/-!
# What reset events tell

The table has one record for every key that was recorded since it was last cleared (`AreRecorded`).
When a session is reset, the event tells how many these are; when the table is handed over, it was
taken away before the event, which tells of none.  Nothing else makes such an event:
`Script.reset_tells_recorded` says all this of every run.
-/

namespace JsonAudit

universe u

/-! ### Keys that were recorded -/

/-- Something was recorded under the key since the table was last cleared. -/
def IsRecorded (history : List Moment) (key : String) : Prop :=
  Since (fun m => m.clears = false) (fun m => ∃ record, m.recorded = some (key, record)) history

/-- The list has every key once that was recorded since the table was last cleared. -/
def AreRecorded (history : List Moment) (keys : List String) : Prop :=
  keys.Nodup ∧ ∀ key, key ∈ keys ↔ IsRecorded history key

/-- A key that was recorded has a latest record. -/
theorem isRecorded_iff_latest {history : List Moment} {key : String} :
  IsRecorded history key ↔ ∃ record, Latest key record history
  := by
  induction history using List.reverseRecOn with
  | nil =>
    constructor
    · intro h
      cases not_since_nil h
    · rintro ⟨record, h⟩
      cases not_since_nil h
  | append_singleton past m ih =>
    simp only [latest_snoc, IsRecorded, since_snoc] at ih ⊢
    rw [ih]
    constructor
    · rintro (⟨record, hr⟩ | ⟨hc, record, hl⟩)
      · exact ⟨record, .inl hr⟩
      · by_cases hm : ∃ other, m.recorded = some (key, other)
        · obtain ⟨other, ho⟩ := hm
          exact ⟨other, .inl ho⟩
        · exact ⟨record, .inr ⟨⟨hc, not_exists.mp hm⟩, hl⟩⟩
    · rintro ⟨record, hr | ⟨⟨hc, -⟩, hl⟩⟩
      · exact .inl ⟨record, hr⟩
      · exact .inr ⟨hc, record, hl⟩

/-- The keys that were recorded are those of the table. -/
theorem Session.HoldsLatest.areRecorded_iff {s : Session} {past : List Moment}
    (h : s.HoldsLatest past) {keys : List String} :
  AreRecorded past keys ↔ s.table.IsOrder keys
  := by
  have hk : ∀ key, IsRecorded past key ↔ (s.table.find? key).isSome := by
    intro key
    rw [isRecorded_iff_latest, Option.isSome_iff_exists]
    simp only [h key]
  simp only [AreRecorded, Table.IsOrder, hk]

/-! ### Reset events -/

theorem NotesOnly.not_mem_reset {events : List Event} (h : NotesOnly events) (records : Nat) :
  .reset records ∉ events
  := by
  obtain ⟨notes, rfl⟩ := h
  intro hm
  obtain ⟨n, -, hn⟩ := List.mem_map.mp hm
  cases hn

theorem Event.ofRecord_ne_reset (key : String) (record : Record) (records : Nat) :
  ofRecord key record ≠ .reset records
  := by
  obtain ⟨status, message⟩ := record
  cases status <;> nofun

/-- Only a reset and the handing over of the table make a reset event, and no event besides. -/
theorem Moment.eq_of_mem_reset {m : Moment} {records : Nat} (h : .reset records ∈ m.events) :
  m.events = [.reset records]
    ∧ ∃ depth before, m = .call depth .reset before ∧ records = before.table.size
      ∨ m = .call depth .takeTable before ∧ records = 0
  := by
  cases m with
  | iterate depth node before => cases h
  | visit depth child after => cases h
  | call depth op before =>
    cases hr : op.reads with
    | true => cases (op.idle_of_reads hr before).events.not_mem_reset records h
    | false =>
      simp only [events] at h
      cases op with
      | reset =>
        cases List.mem_singleton.mp h
        exact ⟨rfl, depth, before, .inl ⟨rfl, rfl⟩⟩
      | takeTable =>
        cases List.mem_singleton.mp h
        exact ⟨rfl, depth, before, .inr ⟨rfl, rfl⟩⟩
      | adopt value distinct => cases List.mem_singleton.mp h
      | adoptText text =>
        rcases Session.adoptText_cases text with ⟨value, -, -, hs⟩ | ⟨e, hs⟩
        · rw [Op.run, hs] at h
          cases List.mem_singleton.mp h
        · rw [Op.run, hs] at h
          cases h
      | navigate node path =>
        rcases before.navigate_cases node path with ⟨found, -, -, -, hs⟩ | ⟨e, notes, hs⟩
        · rw [Op.run, hs] at h
          rcases List.mem_append.mp h with hn | hn
          · cases NotesOnly.not_mem_reset ⟨_, rfl⟩ records hn
          · cases List.mem_singleton.mp hn
        · rw [Op.run, hs] at h
          cases NotesOnly.not_mem_reset ⟨notes, rfl⟩ records h
      | record c =>
        rcases before.record_cases c with ⟨key, record, -, -, hs⟩ | hs
        · rw [Op.run, hs, Session.outcomeEvents] at h
          dsimp only at h
          split at h
          · cases Event.ofRecord_ne_reset key record records (List.mem_singleton.mp h).symm
          · cases h
        · rw [Op.run, hs] at h
          cases h
      | _ => cases hr

/-! ### Events of a run -/

/-- An item that stands among those of all the lists stands in one of them. -/
theorem exists_of_flatMap_eq {α : Type u} {β : Type} {f : α → List β} {items : List α}
    {before after : List β} {b : β} (h : items.flatMap f = before ++ b :: after) :
  ∃ earlier a later first second, items = earlier ++ a :: later
    ∧ before = earlier.flatMap f ++ first ∧ f a = first ++ b :: second
  := by
  induction items generalizing before with
  | nil => cases List.append_ne_nil_of_right_ne_nil before (List.cons_ne_nil b after) h.symm
  | cons a rest ih =>
    rw [List.flatMap_cons] at h
    have hn (more : List β) (hr : rest.flatMap f = more ++ b :: after)
        (hb : before = f a ++ more) :
        ∃ earlier a' later first second, a :: rest = earlier ++ a' :: later
          ∧ before = earlier.flatMap f ++ first ∧ f a' = first ++ b :: second := by
      obtain ⟨earlier, a', later, first, second, rfl, rfl, hf⟩ := ih hr
      refine ⟨a :: earlier, a', later, first, second, rfl, ?_, hf⟩
      rw [hb, List.flatMap_cons, List.append_assoc]
    rcases List.append_eq_append_iff.mp h with ⟨more, hb, hr⟩ | ⟨more, ha, hr⟩
    · exact hn more hr hb
    · cases more with
      | nil =>
        rw [List.append_nil] at ha
        exact hn [] hr.symm (by rw [ha, List.append_nil])
      | cons first others =>
        obtain ⟨rfl, -⟩ := List.cons.inj hr
        exact ⟨[], a, rest, before, others, rfl, rfl, ha⟩

/-- Every event of a run is made at a moment of it, behind the events of the moments before. -/
theorem Script.exists_of_events {β : Type} {script : Script β} {depth : Nat} {s : Session}
    {told rest : List Event} {e : Event} (h : (script.run depth s).events = told ++ e :: rest) :
  ∃ earlier m later first second, (script.run depth s).history = earlier ++ m :: later
    ∧ m.Follows earlier (s.afterAll earlier)
    ∧ told = earlier.flatMap Moment.events ++ first ∧ m.events = first ++ e :: second
  := by
  rw [script.events_run] at h
  obtain ⟨earlier, m, later, first, second, hh, ht, hm⟩ := exists_of_flatMap_eq h
  have hl := (script.run_leads depth [] s).1
  rw [hh] at hl
  exact ⟨earlier, m, later, first, second, hh, hl.follows, ht, hm⟩

/-- Every reset event of a run is made by a reset or by the handing over of the table, and the table
had one record for every key that was recorded since it was last cleared.  The event of a reset
tells their number; the event of a table that is handed over tells of none.  No other event is made
at that moment, so that the events told before are those of earlier moments. -/
theorem Script.reset_tells_recorded {β : Type} (script : Script β) (settings : Settings)
    {told rest : List Event} {records : Nat}
    (h : (script.run 0 (.new settings)).events = told ++ .reset records :: rest) :
  ∃ earlier m later, (script.run 0 (.new settings)).history = earlier ++ m :: later
    ∧ told = earlier.flatMap Moment.events ∧ m.events = [.reset records]
    ∧ ∃ depth before keys, before = (Session.new settings).afterAll earlier
      ∧ AreRecorded earlier keys ∧ before.table.size = keys.length
      ∧ (m = .call depth .reset before ∧ records = keys.length
        ∨ m = .call depth .takeTable before ∧ records = 0)
  := by
  obtain ⟨earlier, m, later, first, second, hh, hf, ht, hm⟩ := exists_of_events h
  have hr : .reset records ∈ m.events := by
    rw [hm]
    simp
  obtain ⟨he, depth, before, hc⟩ := Moment.eq_of_mem_reset hr
  have hn : first = [] := by
    rw [he] at hm
    rcases List.append_eq_singleton_iff.mp hm.symm with ⟨hn, -⟩ | ⟨-, hn⟩
    · exact hn
    · cases hn
  rw [hn, List.append_nil] at ht
  have hb : before = (Session.new settings).afterAll earlier := by
    rcases hc with ⟨rfl, -⟩ | ⟨rfl, -⟩ <;> exact hf
  have ho := before.table.isOrder_names
  have hk : AreRecorded earlier (Keyed.names before.table.entries) := by
    rw [(script.holdsLatest settings hh).areRecorded_iff, ← hb]
    exact ho
  refine ⟨earlier, m, later, hh, ht, he, depth, before, _, hb, hk, ho.length, ?_⟩
  rcases hc with ⟨hm, hs⟩ | ⟨hm, hs⟩
  · exact .inl ⟨hm, hs.trans ho.length⟩
  · exact .inr ⟨hm, hs⟩

/-- Records twice under one key and once under another on every visit, and resets the session
there. -/
def resetAfterRecords : Script (Except Error Unit) :=
  .call (.adopt (.array [.bool true, .bool true]) distinctNames_pair) fun
    | .error e => .done (.error e)
    | .ok root =>
      .iterate root
        (fun _ child =>
          .call (.record (⟨⟨"a", none⟩, ⟨"b", some true⟩⟩ : Comparison Bool)) fun _ =>
            .call (.record (⟨⟨"c", some true⟩, ⟨"a", none⟩⟩ : Comparison Bool)) fun _ =>
              .call (.record (⟨⟨child.path, none⟩, ⟨"b", some true⟩⟩ : Comparison Bool)) fun _ =>
                .call .reset fun answer => .done ((), answer))
        () fun _ answer => .done answer

/-- The reset on the first visit tells of two keys, the one on the second visit of none. -/
theorem reset_tells_recorded_resetAfterRecords :
  (resetAfterRecords.run 0 (.new {})).events
      = [.initialized "array", .unresolved "a" Comparison.leftMissing,
        .unresolved "a" Comparison.rightMissing, .unresolved "[0]" Comparison.leftMissing]
        ++ .reset 2 :: [.reset 0]
    ∧ ∃ earlier depth before keys, before = (Session.new {}).afterAll earlier
      ∧ Moment.call depth .reset before ∈ (resetAfterRecords.run 0 (.new {})).history
      ∧ AreRecorded earlier keys ∧ keys.length = 2
  := by
  have he : (resetAfterRecords.run 0 (.new {})).events
      = [.initialized "array", .unresolved "a" Comparison.leftMissing,
        .unresolved "a" Comparison.rightMissing, .unresolved "[0]" Comparison.leftMissing]
        ++ .reset 2 :: [.reset 0] := rfl
  refine ⟨he, ?_⟩
  obtain ⟨earlier, m, later, hh, -, -, depth, before, keys, hb, hk, -, ⟨rfl, hr⟩ | ⟨-, hr⟩⟩ :=
    resetAfterRecords.reset_tells_recorded {} he
  · refine ⟨earlier, depth, before, keys, hb, ?_, hk, hr.symm⟩
    rw [hh]
    simp
  · cases hr

/-- Records a comparison and takes the table. -/
def takeAfterRecord : Script (Except Error Table) :=
  .call (.adopt (.bool true) (Json.distinctNames_of_inner_nil rfl)) fun _ =>
    .call (.record (⟨⟨"a", none⟩, ⟨"b", some true⟩⟩ : Comparison Bool)) fun _ =>
      .call .takeTable fun answer => .done answer

/-- A session can be reset with a record in its table, and the event tells of none. -/
theorem takeTable_tells_none :
  ∃ earlier before, (takeAfterRecord.run 0 (.new {})).history
      = earlier ++ [.call 0 .takeTable before]
    ∧ AreRecorded earlier ["a"] ∧ before.table.size = 1
    ∧ (Moment.call 0 .takeTable before).events = [.reset 0]
  := by
  have hh : (takeAfterRecord.run 0 (.new {})).history
      = (takeAfterRecord.run 0 (.new {})).history.take 2
        ++ [.call 0 .takeTable
          ((Session.new {}).afterAll ((takeAfterRecord.run 0 (.new {})).history.take 2))] := rfl
  refine ⟨_, _, hh, ?_, rfl, rfl⟩
  apply (takeAfterRecord.holdsLatest {} hh).areRecorded_iff.mpr
  exact Table.isOrder_names _

end JsonAudit
