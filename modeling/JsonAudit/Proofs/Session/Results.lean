import JsonAudit.Conversion.Types
import JsonAudit.Proofs.Session.Histories

/-!
# The results of a run

The table of a session holds under every key the record that was entered last under it, since the
table was last cleared (`Latest`), and the summary counts the keys of the table by the status of
their records, in whatever order they are taken.  For runs this is `Script.results_eq_latest`.
-/

namespace JsonAudit

/-! ### Summaries -/

namespace Table

/-- The list has every key of the table once. -/
def IsOrder (table : Table) (keys : List String) : Prop :=
  keys.Nodup ∧ ∀ key, key ∈ keys ↔ (table.find? key).isSome

theorem find?_of_mem {table : Table} {entry : String × Record} (h : entry ∈ table.entries) :
  table.find? entry.1 = some entry.2
  := Keyed.find?_of_mem table.distinct h

/-- The table has a record of the status under the key. -/
def has (table : Table) (status : Status) (key : String) : Bool :=
  (table.find? key).any fun record => record.status == status

/-- A key is among the names of a table exactly if it has a record. -/
theorem mem_names_iff {table : Table} {key : String} :
  key ∈ Keyed.names table.entries ↔ (table.find? key).isSome
  := by
  constructor
  · intro h
    obtain ⟨entry, hm, rfl⟩ := List.mem_map.mp h
    rw [find?_of_mem hm]
    rfl
  · intro h
    obtain ⟨record, hr⟩ := Option.isSome_iff_exists.mp h
    apply Keyed.mem_names_of_find? hr

/-- The names of a table are an order of its keys. -/
theorem isOrder_names (table : Table) :
  table.IsOrder (Keyed.names table.entries)
  := ⟨table.distinct, fun _ => mem_names_iff⟩

/-- Two orders of the keys differ in nothing but the order. -/
theorem IsOrder.perm {table : Table} {keys : List String} (h : table.IsOrder keys) :
  List.Perm (Keyed.names table.entries) keys
  := by
  apply (List.perm_ext_iff_of_nodup table.distinct h.1).mpr
  intro key
  rw [mem_names_iff, h.2]

/-- An order of the keys of a table is as long as the table. -/
theorem IsOrder.length {table : Table} {keys : List String} (h : table.IsOrder keys) :
  table.entries.length = keys.length
  := by
  rw [← h.perm.length_eq, Keyed.names, List.length_map]

/-- The records of a status are counted by their keys, in any order. -/
theorem IsOrder.count {table : Table} {keys : List String} (h : table.IsOrder keys)
    (status : Status) :
  table.count status = keys.countP (table.has status)
  := by
  rw [← h.perm.countP_eq (table.has status), Keyed.names, List.countP_map]
  apply List.countP_congr
  intro entry hm
  rw [Function.comp_apply, has, find?_of_mem hm]
  rfl

/-- Every record has one of the three statuses. -/
theorem countP_add_countP_add_countP (entries : List (String × Record)) :
  (entries.countP fun entry => entry.2.status == .pass)
      + (entries.countP fun entry => entry.2.status == .fail)
      + (entries.countP fun entry => entry.2.status == .unresolved)
    = entries.length
  := by
  induction entries with
  | nil => rfl
  | cons entry rest ih =>
    obtain ⟨key, status, message⟩ := entry
    simp only [List.countP_cons, List.length_cons, ← ih]
    cases status <;> simp <;> omega

/-- Every record has one of the three statuses. -/
theorem total_ofTable (table : Table) :
  (Summary.ofTable table).total = table.entries.length
  := countP_add_countP_add_countP table.entries

/-- No record is counted exactly if none has the status. -/
theorem count_eq_zero_iff {table : Table} {status : Status} :
  table.count status = 0 ↔ ∀ key record, table.find? key = some record → record.status ≠ status
  := by
  rw [count, List.countP_eq_zero]
  constructor
  · intro h key record hr
    simpa using h _ (Keyed.mem_of_find? hr)
  · rintro h ⟨key, record⟩ hm
    simpa using h key record (find?_of_mem hm)

/-- All comparisons passed if every record of the table is a pass. -/
theorem allPassed_ofTable (table : Table) :
  (Summary.ofTable table).allPassed = true
    ↔ ∀ key record, table.find? key = some record → record.status = .pass
  := by
  rw [Summary.allPassed, Bool.and_eq_true, beq_iff_eq, beq_iff_eq]
  show table.count .fail = 0 ∧ table.count .unresolved = 0 ↔ _
  rw [count_eq_zero_iff, count_eq_zero_iff]
  constructor
  · rintro ⟨hf, hu⟩ key record hr
    cases hs : record.status with
    | pass => rfl
    | fail => exact absurd hs (hf key record hr)
    | unresolved => exact absurd hs (hu key record hr)
  · intro h
    constructor <;>
    · intro key record hr
      rw [h key record hr]
      nofun

end Table

/-- The summary counts the keys of the table by the status of their records. -/
structure Summary.Counts (summary : Summary) (table : Table) (keys : List String) : Prop where
  passed : summary.passed = keys.countP (table.has .pass)
  failed : summary.failed = keys.countP (table.has .fail)
  unresolved : summary.unresolved = keys.countP (table.has .unresolved)
  total : summary.passed + summary.failed + summary.unresolved = keys.length
  allPassed : summary.allPassed = true
    ↔ ∀ key record, table.find? key = some record → record.status = .pass

/-- The summary of a table counts its keys in any order of them. -/
theorem Table.IsOrder.counts {table : Table} {keys : List String} (h : table.IsOrder keys) :
  (Summary.ofTable table).Counts table keys
  where
  passed := h.count .pass
  failed := h.count .fail
  unresolved := h.count .unresolved
  total := table.total_ofTable.trans h.length
  allPassed := table.allPassed_ofTable

/-! ### The latest records -/

/-- The record was entered under the key, and since then the table was not cleared and nothing was
entered under the key. -/
def Latest (key : String) (record : Record) (history : List Moment) : Prop :=
  Since (fun m => m.clears = false ∧ ∀ other, m.recorded ≠ some (key, other))
    (fun m => m.recorded = some (key, record)) history

/-- A record is the latest after one more moment if it is entered there, or if it was the latest and
the moment neither clears the table nor enters another record under the key. -/
theorem latest_snoc {key : String} {record : Record} {past : List Moment} {m : Moment} :
  Latest key record (past ++ [m])
    ↔ m.recorded = some (key, record)
      ∨ (m.clears = false ∧ ∀ other, m.recorded ≠ some (key, other)) ∧ Latest key record past
  := since_snoc

/-- The table holds the latest records. -/
def Session.HoldsLatest (s : Session) (past : List Moment) : Prop :=
  ∀ key record, s.table.find? key = some record ↔ Latest key record past

/-- A moment that neither clears nor enters leaves the latest records as they are. -/
theorem latest_snoc_of_quiet {key : String} {record : Record} {past : List Moment} {m : Moment}
    (hc : m.clears = false) (hr : m.recorded = none) :
  Latest key record (past ++ [m]) ↔ Latest key record past
  := by
  rw [latest_snoc, hc, hr]
  simp

/-- After a moment that clears the table no record is the latest. -/
theorem not_latest_snoc_of_clears {key : String} {record : Record} {past : List Moment}
    {m : Moment} (hc : m.clears = true) (hr : m.recorded = none) :
  ¬ Latest key record (past ++ [m])
  := by
  rw [latest_snoc, hc, hr]
  simp

/-- A moment that leaves the table as it is keeps it the latest. -/
theorem Session.HoldsLatest.keep {s t : Session} {past : List Moment} {m : Moment}
    (h : s.HoldsLatest past) (ht : t.table = s.table) (hc : m.clears = false)
    (hr : m.recorded = none) :
  t.HoldsLatest (past ++ [m])
  := by
  intro key record
  rw [latest_snoc_of_quiet hc hr, ht]
  apply h key record

/-- An empty table holds the latest records after it is cleared. -/
theorem Session.HoldsLatest.clear {t : Session} {past : List Moment} {m : Moment}
    (ht : t.table = .empty) (hc : m.clears = true) (hr : m.recorded = none) :
  t.HoldsLatest (past ++ [m])
  := by
  intro key record
  rw [ht]
  constructor
  · rintro ⟨⟩
  · intro hl
    exact absurd hl (not_latest_snoc_of_clears hc hr)

/-- A table that holds the latest records still does with one that is entered. -/
theorem Session.HoldsLatest.enter {s t : Session} {past : List Moment} {m : Moment}
    {key : String} {record : Record} (h : s.HoldsLatest past)
    (ht : t.table = s.table.insert key record) (hc : m.clears = false)
    (hr : m.recorded = some (key, record)) :
  t.HoldsLatest (past ++ [m])
  := by
  intro other former
  rw [latest_snoc, hc, hr, ht, Table.find?_insert]
  by_cases hk : key = other
  · subst hk
    simp
  · rw [if_neg hk, h other former]
    simp [hk]

/-- Every moment keeps the table the latest. -/
theorem Session.HoldsLatest.step {s : Session} {past : List Moment} {m : Moment}
    (h : s.HoldsLatest past) (hf : m.Follows past s) :
  m.after.HoldsLatest (past ++ [m])
  := by
  cases m with
  | call depth op before =>
    obtain rfl : before = s := hf
    have hc : (Moment.call depth op before).clears = (op.adopts before || op.drops) := rfl
    cases op.effect before with
    | stays he ha hd hr =>
      rw [ha, hd] at hc
      apply h.keep (congrArg table he) hc hr
    | adopts value _ he ha hd hr =>
      rw [ha, hd] at hc
      apply HoldsLatest.clear (congrArg table he) hc hr
    | drops he ha hd hr =>
      rw [ha, hd] at hc
      apply HoldsLatest.clear (congrArg table he) hc hr
    | moves node found path _ _ _ he ha hd hr =>
      rw [ha, hd] at hc
      have ht : (op.run before).session.table = (before.moveTo found).table := by rw [he]
      apply h.keep ht hc hr
    | records key record he ha hd hr =>
      rw [ha, hd] at hc
      apply h.enter (congrArg table he) hc hr
  | iterate depth node before =>
    obtain rfl : before = s := hf
    apply h.keep rfl rfl rfl
  | visit depth child after =>
    obtain ⟨rfl, -⟩ := hf
    apply h.keep rfl rfl rfl

/-- A run keeps the table the latest. -/
theorem Session.HoldsLatest.run {s t : Session} {past history : List Moment}
    (h : s.HoldsLatest past) (hl : Leads past s history t) :
  t.HoldsLatest (past ++ history)
  := by
  rw [← List.append_nil history] at hl
  have hn := Leads.invariant (P := fun past s => s.HoldsLatest past) HoldsLatest.step h hl
  rw [List.append_nil] at hl
  rw [hl.afterAll_eq] at hn
  apply hn

/-- The empty table of a new session holds the latest records of no moments. -/
theorem Session.holdsLatest_new (settings : Settings) :
  (new settings).HoldsLatest []
  := by
  intro key record
  constructor
  · rintro ⟨⟩
  · intro h
    exact absurd h not_since_nil

/-- In every state of a run from a new session the table holds the latest records. -/
theorem Script.holdsLatest {β : Type} (script : Script β) (settings : Settings)
    {earlier later : List Moment}
    (h : (script.run 0 (.new settings)).history = earlier ++ later) :
  (Session.afterAll (.new settings) earlier).HoldsLatest earlier
  := by
  have hl := (script.run_leads 0 [] (.new settings)).1
  rw [h] at hl
  exact Leads.invariant (P := fun past s => s.HoldsLatest past) Session.HoldsLatest.step
    (Session.holdsLatest_new settings) hl

/-- After a run that begins with a new session the table holds the latest records of the run, and
the summary counts its keys in any order of them. -/
theorem Script.results_eq_latest {β : Type} (script : Script β) (settings : Settings) :
  (script.run 0 (.new settings)).session.HoldsLatest (script.run 0 (.new settings)).history
    ∧ ∀ keys, (script.run 0 (.new settings)).session.table.IsOrder keys →
      (script.run 0 (.new settings)).session.summary.Counts
        (script.run 0 (.new settings)).session.table keys
  := by
  constructor
  · exact (Session.holdsLatest_new settings).run (script.run_leads 0 [] (.new settings)).1
  · intro keys hk
    apply hk.counts

/-- Records a comparison without a value, then in a visit one with values under the same key. -/
def recordTwice : Script (Except Error Unit) :=
  .call (.adopt (.array [.bool true])
      (Json.distinctNames_array (List.forall_mem_singleton.mpr (Json.distinctNames_of_inner_nil rfl))))
    fun
    | .error e => .done (.error e)
    | .ok root =>
      .call (.record (⟨⟨"a", none⟩, ⟨"b", some true⟩⟩ : Comparison Bool)) fun _ =>
        .iterate root
          (fun _ _ => .call (.record (⟨⟨"a", some true⟩, ⟨"b", some true⟩⟩ : Comparison Bool))
            fun answer => .done ((), answer.map fun _ => ()))
          () fun _ answer => .done answer

/-- The key has its second record. -/
theorem results_eq_latest_recordTwice :
  (recordTwice.run 0 (.new {})).session.table.IsOrder ["a"]
    ∧ (recordTwice.run 0 (.new {})).session.summary.Counts
      (recordTwice.run 0 (.new {})).session.table ["a"]
    ∧ (recordTwice.run 0 (.new {})).session.summary = ⟨1, 0, 0⟩
  := by
  have ho : (recordTwice.run 0 (.new {})).session.table.IsOrder ["a"] := Table.isOrder_names _
  exact ⟨ho, (recordTwice.results_eq_latest {}).2 _ ho, rfl⟩

end JsonAudit
