import JsonAudit.Path.Note
import JsonAudit.Session.Table

/-!
# Events

An `Event` is what a session tells about an operation while it runs.  The notes of resolved paths
are among them.  Every event has a `Level` and fields, its literal text first.
-/

namespace JsonAudit

/-- The weight of an event. -/
inductive Level where
  | trace
  | debug
  | warn
deriving DecidableEq, Repr

/-- The name of a level. -/
def Level.text : Level → String
  | trace => "TRACE"
  | debug => "DEBUG"
  | warn => "WARN"

/-- What a session tells about an operation. -/
inductive Event where
  /-- A path selected nothing. -/
  | note (n : Note)
  /-- A root of this kind was adopted. -/
  | initialized (kind : String)
  /-- The context moved to this path. -/
  | navigated (path : String)
  /-- A comparison of two values was recorded. -/
  | recorded (key : String) (status : Status) (message : String)
  /-- A comparison without a value was recorded. -/
  | unresolved (key : String) (message : String)
  /-- The session was reset, with so many records in its table. -/
  | reset (records : Nat)
deriving DecidableEq

namespace Event

/-- The weight of the event. -/
def level : Event → Level
  | note _ => .trace
  | unresolved .. => .warn
  | _ => .debug

/-- The literal text of the event. -/
def message : Event → String
  | note n => n.message
  | initialized _ => "validation session initialized"
  | navigated _ => "navigated into node"
  | recorded .. => "validation recorded"
  | unresolved .. => "validation unresolved"
  | reset _ => "validation session reset"

/-- The fields of the event after its text. -/
def fields : Event → List (String × String)
  | note _ => []
  | initialized kind => [("kind", kind)]
  | navigated path => [("path", path)]
  | recorded key status message =>
    [("key", key), ("status", status.text), ("message", message)]
  | unresolved key message => [("key", key), ("message", message)]
  | reset records => [("recorded", Nat.repr records)]

/-- The event that tells of a record under a key. -/
def ofRecord (key : String) (record : Record) : Event :=
  match record.status with
  | .unresolved => .unresolved key record.message
  | status => .recorded key status record.message

end Event

end JsonAudit
