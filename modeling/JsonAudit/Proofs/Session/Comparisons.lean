import JsonAudit.Proofs.Session.Failures
import JsonAudit.Proofs.Session.Lookups

/-!
# What a comparison records

A comparison finds a value on each side, or none if the path there is absent (`Finds`).  What it
records goes by what it found: `Session.Compares` says under which key, with which status, and that
nothing else changes.  Two values pass if they are equal and fail if they are not, so that a
comparison of a path with itself does not fail, and one whose sides are exchanged has the same
status.  This is `Session.compare_records`.
-/

namespace JsonAudit

/-! ### Outcomes -/

namespace Comparison

variable {α : Type} [Comparable α]

/-- A left value without a right one is recorded under the right key. -/
theorem key_of_right_missing (c : Comparison α) (components : Nat) (hl : c.left.value ≠ none)
    (hr : c.right.value = none) :
  (c.outcome components).1 = c.right.key
  := by
  obtain ⟨a, ha⟩ := Option.ne_none_iff_exists'.mp hl
  rw [outcome, ha, hr]

/-- All else is recorded under the left key. -/
theorem key_of_left_missing_or_right (c : Comparison α) (components : Nat)
    (h : c.left.value = none ∨ c.right.value ≠ none) :
  (c.outcome components).1 = c.left.key
  := by
  rw [outcome]
  rcases h with hl | hr
  · rw [hl]
  · obtain ⟨b, hb⟩ := Option.ne_none_iff_exists'.mp hr
    rw [hb]
    cases c.left.value <;> rfl

/-- Two values that are equal pass, two others fail, and without two values the outcome is
unresolved. -/
theorem status_outcome (c : Comparison α) (components : Nat) :
  (c.outcome components).2.status
    = match c.left.value, c.right.value with
      | some left, some right => if Comparable.same left right then .pass else .fail
      | _, _ => .unresolved
  := by
  rw [outcome]
  cases c.left.value <;> cases c.right.value <;> rfl

/-- A comparison passes exactly if both values are there and equal. -/
theorem status_eq_pass_iff (c : Comparison α) (components : Nat) :
  (c.outcome components).2.status = .pass
    ↔ ∃ a b, c.left.value = some a ∧ c.right.value = some b ∧ Comparable.same a b = true
  := by
  rw [status_outcome]
  cases c.left.value <;> cases c.right.value <;> simp

/-- A comparison fails exactly if both values are there and not equal. -/
theorem status_eq_fail_iff (c : Comparison α) (components : Nat) :
  (c.outcome components).2.status = .fail
    ↔ ∃ a b, c.left.value = some a ∧ c.right.value = some b ∧ Comparable.same a b = false
  := by
  rw [status_outcome]
  cases c.left.value <;> cases c.right.value <;> simp

/-- A comparison is unresolved exactly if a value is missing. -/
theorem status_eq_unresolved_iff (c : Comparison α) (components : Nat) :
  (c.outcome components).2.status = .unresolved ↔ c.left.value = none ∨ c.right.value = none
  := by
  rw [status_outcome]
  cases c.left.value with
  | none => simp
  | some a =>
    cases c.right.value with
    | none => simp
    | some b => cases hs : Comparable.same a b <;> simp [hs]

end Comparison

/-! ### What is found -/

/-- A typed access finds this value: none if the path is absent, and otherwise the value of the type
that is read. -/
structure Finds {α : Type} [Readable α] (path : String) (node : Json) (found : Option α) : Prop where
  absent : IsAbsent path node ↔ found = none
  reads : ∀ a, Reads path node a ↔ found = some a

/-- Where the value can be converted, if there is one, a typed access finds something. -/
theorem Converts.exists_finds {α : Type} [Readable α] {path : String} {node : Json}
    (h : Converts α path node) :
  ∃ found : Option α, Finds path node found
  := by
  rcases h.isAbsent_or_reads with ha | ⟨a, ha⟩
  · refine ⟨none, ⟨fun _ => rfl, fun _ => ha⟩, ?_⟩
    intro a
    constructor
    · intro hr
      exact absurd ha hr.not_isAbsent
    · rintro ⟨⟩
  · refine ⟨some a, ⟨fun hn => absurd hn ha.not_isAbsent, nofun⟩, ?_⟩
    intro b
    constructor
    · intro hb
      rw [ha.unique hb]
    · rintro ⟨⟩
      apply ha

/-- A session with a root gets what a typed access finds. -/
theorem Session.value_get_of_finds {α : Type} [Readable α] {s : Session} {node : Location}
    {path : String} (hi : s.isInitialized = true) {found : Option α}
    (h : Finds path node.value found) :
  (s.get node path).value = .ok found
  := by
  cases found with
  | none => apply value_get_of_ok hi (get_of_isAbsent (h.absent.mpr rfl))
  | some a => apply value_get_of_ok hi (get_of_reads ((h.reads a).mpr rfl))

/-! ### Comparisons -/

namespace Session

variable {α : Type} [Readable α] [Comparable α]

/-- A session with a root and a context records the comparison of what it finds on both sides, and
changes nothing else. -/
theorem compare_of_values {s : Session} {node context : Location} {left right : String}
    {c : Comparison α} {key : String} {record : Record} (hi : s.isInitialized = true)
    (hc : s.current = some context)
    (hl : c.left.key = node.qualify left ∧ (s.get node left).value = .ok c.left.value)
    (hr : c.right.key = context.qualify right ∧ (s.get context right).value = .ok c.right.value)
    (ho : c.outcome s.settings.displayComponents = (key, record)) :
  (s.compare α node left right).answer = .ok (s.table.insert key record)
    ∧ (s.compare α node left right).session = { s with table := s.table.insert key record }
  := by
  obtain ⟨root, hroot⟩ := Option.isSome_iff_exists.mp hi
  have he : (s.expect node left : Answer (Expectation α)).value = .ok c.left := by
    rw [expect, Logged.value_map, hl.2, ← hl.1]
    rfl
  have hp : (s.pairWith c.left right).value = .ok c := by
    simp only [pairWith, currentLocation, hroot, hc]
    rw [Logged.value_map, hr.2, ← hr.1]
    rfl
  constructor
  all_goals
    simp only [compare, he, hp, Session.record, whenRooted, hroot, ho]

/-- Comparing the value at one path from the node with the value at another from the context enters
the record under the key, and changes nothing else of the session. -/
structure Compares (α : Type) [Readable α] [Comparable α] (s : Session) (node context : Location)
    (left right : String) (key : String) (record : Record) : Prop where
  answer : (s.compare α node left right).answer = .ok (s.table.insert key record)
  session : (s.compare α node left right).session = { s with table := s.table.insert key record }
  entry : s.table.Enters (s.compare α node left right).session.table key record
  /-- A present left value without a right one is recorded under the right key. -/
  rightKey : ¬ IsAbsent left node.value → IsAbsent right context.value → key = context.qualify right
  /-- All else is recorded under the left key. -/
  leftKey : IsAbsent left node.value ∨ ¬ IsAbsent right context.value → key = node.qualify left
  pass : record.status = .pass
    ↔ ∃ a b : α, Reads left node.value a ∧ Reads right context.value b ∧ Comparable.same a b = true
  fail : record.status = .fail
    ↔ ∃ a b : α, Reads left node.value a ∧ Reads right context.value b ∧ Comparable.same a b = false
  unresolved : record.status = .unresolved ↔ IsAbsent left node.value ∨ IsAbsent right context.value

/-- If both sides can be converted, a session with a root and a context compares them. -/
theorem exists_compares {s : Session} {node context : Location} {left right : String}
    (hi : s.isInitialized = true) (hc : s.current = some context)
    (hl : Converts α left node.value) (hr : Converts α right context.value) :
  ∃ key record, s.Compares α node context left right key record
  := by
  obtain ⟨l, hfl⟩ := hl.exists_finds
  obtain ⟨r, hfr⟩ := hr.exists_finds
  let c : Comparison α := ⟨⟨node.qualify left, l⟩, ⟨context.qualify right, r⟩⟩
  obtain ⟨ha, hs⟩ := compare_of_values hi hc (c := c) ⟨rfl, value_get_of_finds hi hfl⟩
    ⟨rfl, value_get_of_finds hi hfr⟩ rfl
  refine ⟨_, _, ha, hs, ?_, ?_, ?_, ?_, ?_, ?_⟩
  · rw [hs]
    apply s.table.enters_insert
  · rw [hfl.absent, hfr.absent]
    exact c.key_of_right_missing _
  · rw [hfl.absent, hfr.absent]
    exact c.key_of_left_missing_or_right _
  · simp only [hfl.reads, hfr.reads]
    exact c.status_eq_pass_iff _
  · simp only [hfl.reads, hfr.reads]
    exact c.status_eq_fail_iff _
  · rw [hfl.absent, hfr.absent]
    exact c.status_eq_unresolved_iff _

variable {s t : Session} {context : Location} {key key' : String} {record record' : Record}

/-- A path that is compared with itself does not fail, if every value is equal to itself. -/
theorem Compares.ne_fail (hr : ∀ a : α, Comparable.same a a = true) {path : String}
    (h : s.Compares α context context path path key record) :
  record.status ≠ .fail
  := by
  intro hf
  obtain ⟨a, b, ha, hb, hs⟩ := h.fail.mp hf
  rw [ha.unique hb, hr] at hs
  cases hs

/-- Exchanging the sides does not change the status, if equality is symmetric. -/
theorem Compares.status_eq (hs : ∀ a b : α, Comparable.same a b = Comparable.same b a)
    {p q : String} (h : s.Compares α context context p q key record)
    (h' : t.Compares α context context q p key' record') :
  record.status = record'.status
  := by
  cases hr : record.status with
  | pass =>
    obtain ⟨a, b, ha, hb, he⟩ := h.pass.mp hr
    rw [hs] at he
    exact (h'.pass.mpr ⟨b, a, hb, ha, he⟩).symm
  | fail =>
    obtain ⟨a, b, ha, hb, he⟩ := h.fail.mp hr
    rw [hs] at he
    exact (h'.fail.mpr ⟨b, a, hb, ha, he⟩).symm
  | unresolved => exact (h'.unresolved.mpr (h.unresolved.mp hr).symm).symm

/-- If the first path alone is absent, both orders record under its key. -/
theorem Compares.keys_eq {p q : String} (h : s.Compares α context context p q key record)
    (h' : t.Compares α context context q p key' record') (hp : IsAbsent p context.value)
    (hq : ¬ IsAbsent q context.value) :
  key = context.qualify p ∧ key' = context.qualify p
  := ⟨h.leftKey (.inl hp), h'.rightKey hq hp⟩

/-- In a session that has a root and a context, a comparison whose sides can be converted enters one
record, under the key and with the status that its sides have.  Between paths from the context, a
path compared with itself does not fail, if every value is equal to itself; if equality is
symmetric, exchanging the sides keeps the status, and where one side alone is absent, the key, which
is that of the absent side. -/
theorem compare_records (hi : s.isInitialized = true) (hc : s.current = some context) :
  (∀ node left right, Converts α left node.value → Converts α right context.value →
      ∃ key record, s.Compares α node context left right key record)
    ∧ ((∀ a : α, Comparable.same a a = true) →
      ∀ path key record, s.Compares α context context path path key record →
        record.status ≠ .fail)
    ∧ ((∀ a b : α, Comparable.same a b = Comparable.same b a) →
      ∀ (t : Session) (p q key key' : String) (record record' : Record),
        s.Compares α context context p q key record →
        t.Compares α context context q p key' record' →
        record.status = record'.status
          ∧ (IsAbsent p context.value → ¬ IsAbsent q context.value →
            key = context.qualify p ∧ key' = context.qualify p)
          ∧ (¬ IsAbsent p context.value → IsAbsent q context.value →
            key = context.qualify q ∧ key' = context.qualify q))
  := by
  refine ⟨fun node left right => exists_compares hi hc, fun hr path key record => Compares.ne_fail hr,
    ?_⟩
  intro hs t p q key key' record record' h h'
  refine ⟨h.status_eq hs h', h.keys_eq h', ?_⟩
  intro hp hq
  exact (h'.keys_eq h hq hp).symm

end Session

/-- An object with a member that holds a flag, and one that is null. -/
def flagAndNull : Location := .root (.object [("flag", .bool true), ("gone", .null)])

/-- The session of the object. -/
def flagAndNullSession : Session := ((Session.new {}).adopt flagAndNull.value).session

/-- The flag and the null member are recorded under the path of the null member in both orders, as
unresolved; the flag compared with itself passes.  What is compared as doubles, for which the two
zeros are one, has the same status in both orders, and does not fail against itself. -/
theorem compare_records_flagAndNull :
  (flagAndNullSession.isInitialized = true ∧ flagAndNullSession.current = some flagAndNull)
    ∧ (Converts Bool "flag" flagAndNull.value ∧ Converts Bool "gone" flagAndNull.value)
    ∧ ((∀ a : Bool, Comparable.same a a = true)
      ∧ ∀ a b : Bool, Comparable.same a b = Comparable.same b a)
    ∧ (∃ record record',
      flagAndNullSession.Compares Bool flagAndNull flagAndNull "flag" "gone" "gone" record
        ∧ flagAndNullSession.Compares Bool flagAndNull flagAndNull "gone" "flag" "gone" record'
        ∧ record.status = .unresolved ∧ record'.status = .unresolved)
    ∧ (∃ key record,
      flagAndNullSession.Compares Bool flagAndNull flagAndNull "flag" "flag" key record
        ∧ record.status ≠ .fail)
    ∧ ∀ p q key key' record record',
      flagAndNullSession.Compares Double flagAndNull flagAndNull p q key record →
      flagAndNullSession.Compares Double flagAndNull flagAndNull q p key' record' →
      record.status = record'.status ∧ (p = q → record.status ≠ .fail)
  := by
  have hb : isBlankPath "flag" = false := by decide +kernel
  have hp : parsePath "flag" = [.mk "flag" none] := by decide +kernel
  have hb' : isBlankPath "gone" = false := by decide +kernel
  have hp' : parsePath "gone" = [.mk "gone" none] := by decide +kernel
  have hs : (resolve "flag" flagAndNull.value).value = some (.bool true) := by
    rw [resolve_eq_trace, trace, hb, hp]
    rfl
  have hs' : (resolve "gone" flagAndNull.value).value = some .null := by
    rw [resolve_eq_trace, trace, hb', hp']
    rfl
  have hf : Reads "flag" flagAndNull.value true := ⟨_, hs, Json.isNull_eq_false_iff.mp rfl, rfl⟩
  have hg : IsAbsent "gone" flagAndNull.value := .inr hs'
  have hcf : Converts Bool "flag" flagAndNull.value := by
    intro value hv _
    rw [hs] at hv
    cases hv
    exact ⟨true, rfl⟩
  have hcg : Converts Bool "gone" flagAndNull.value := by
    intro value hv hn
    rw [hs'] at hv
    exact absurd (Option.some.inj hv).symm hn
  have hrefl : ∀ a : Bool, Comparable.same a a = true := by decide
  have hsymm : ∀ a b : Bool, Comparable.same a b = Comparable.same b a := by decide
  have hi : flagAndNullSession.isInitialized = true := rfl
  have hc : flagAndNullSession.current = some flagAndNull := rfl
  obtain ⟨he, hself, hswap⟩ := Session.compare_records (α := Bool) hi hc
  obtain ⟨key, record, h⟩ := he flagAndNull "flag" "gone" hcf hcg
  obtain ⟨key', record', h'⟩ := he flagAndNull "gone" "flag" hcg hcf
  obtain ⟨hst, -, hk⟩ := hswap hsymm _ _ _ _ _ _ _ h h'
  obtain ⟨rfl, rfl⟩ := hk hf.not_isAbsent hg
  obtain ⟨key, single, hsingle⟩ := he flagAndNull "flag" "flag" hcf hcf
  have hu : record.status = .unresolved := h.unresolved.mpr (.inr hg)
  refine ⟨⟨hi, hc⟩, ⟨hcf, hcg⟩, ⟨hrefl, hsymm⟩, ⟨record, record', h, h', hu, hst.symm.trans hu⟩,
    ⟨key, single, hsingle, hself hrefl _ _ _ hsingle⟩, ?_⟩
  intro p q key key' record record' h h'
  obtain ⟨-, hself, hswap⟩ := Session.compare_records (α := Double) hi hc
  refine ⟨(hswap Double.same_comm _ _ _ _ _ _ _ h h').1, ?_⟩
  rintro rfl
  apply hself Double.same_refl _ _ _ h

end JsonAudit
