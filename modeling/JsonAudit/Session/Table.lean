import JsonAudit.Keyed

/-!
# Tables of records

A comparison has a `Status` and, with its message, is a `Record`.  A `Table` holds the records of
a session by their keys, one for each key; recording again under a key replaces the record.  A
`Summary` counts the records of each status.
-/

namespace JsonAudit

/-- The outcome of a comparison. -/
inductive Status where
  | pass
  | fail
  /-- A side of the comparison had no value. -/
  | unresolved
deriving DecidableEq, Repr

namespace Status

/-- The name of the outcome. -/
def text : Status → String
  | pass => "Pass"
  | fail => "Fail"
  | unresolved => "Unresolved"

/-- The sides were equal. -/
def isPass (s : Status) : Bool := s == pass

/-- A side had no value. -/
def isUnresolved (s : Status) : Bool := s == unresolved

end Status

/-- An outcome and its message. -/
structure Record where
  status : Status
  message : String
deriving DecidableEq, Repr

/-- The records of a session by key. -/
structure Table where
  entries : List (String × Record)
  /-- No key has two records. -/
  distinct : (Keyed.names entries).Nodup

namespace Table

/-- The table without records. -/
def empty : Table := ⟨[], List.nodup_nil⟩

/-- The record of a key. -/
def find? (table : Table) (key : String) : Option Record := Keyed.find? key table.entries

/-- The table with the record at the key, in place of a former one. -/
def insert (table : Table) (key : String) (record : Record) : Table :=
  ⟨Keyed.insert key record table.entries, Keyed.nodup_names_insert key record table.distinct⟩

/-- The number of keys. -/
def size (table : Table) : Nat := table.entries.length

/-- The number of keys with the status. -/
def count (table : Table) (status : Status) : Nat :=
  table.entries.countP fun entry => entry.2.status == status

theorem find?_insert (table : Table) (key other : String) (record : Record) :
  (table.insert key record).find? other = if key = other then some record else table.find? other
  := Keyed.find?_insert key other record table.entries

end Table

/-- The numbers of records by status. -/
structure Summary where
  passed : Nat
  failed : Nat
  unresolved : Nat
deriving DecidableEq, Repr

namespace Summary

/-- The numbers of records of a table. -/
def ofTable (table : Table) : Summary :=
  ⟨table.count .pass, table.count .fail, table.count .unresolved⟩

/-- The number of all records. -/
def total (s : Summary) : Nat := s.passed + s.failed + s.unresolved

/-- Every record is a pass. -/
def allPassed (s : Summary) : Bool := s.failed == 0 && s.unresolved == 0

end Summary

end JsonAudit
