import JsonAudit.Json.Reader
import JsonAudit.Path.Resolve
import JsonAudit.Session.Comparison
import JsonAudit.Session.Settings
import JsonAudit.Session.Event

/-!
# Sessions

A `Session` has a root document, a current context, and a table of recorded comparisons.  Left
sides of comparisons are found from a location that the caller names, right sides from the
current context at the time of the call.  `navigate` and `iterate` move the context.

An operation that can change the session gives a `Reply`: its answer, the session after it, and
the events on the way.  One that cannot gives its answer and the events alone.
-/

namespace JsonAudit

/-- A document with a current context and the comparisons recorded about it. -/
structure Session where
  /-- The root, once there is one. -/
  root : Option Location
  /-- The location that right sides are found from. -/
  current : Option Location
  /-- The comparisons recorded. -/
  table : Table
  /-- The settings. -/
  settings : Settings

/-- The result of an operation that may change a session. -/
structure Reply (α : Type) where
  /-- The answer or the error. -/
  answer : Except Error α
  /-- The session after the operation. -/
  session : Session
  /-- The events of the operation, in order. -/
  events : List Event

/-- The result of an operation that leaves a session as it is. -/
abbrev Answer (α : Type) := Logged Event (Except Error α)

/-- The document that a text holds. -/
def parseDocument (text : String) : Except DocumentError Json :=
  (Json.read text).mapError .ofReadError

/-- The value of the type at the path, none if nothing or null is there. -/
def get {α : Type} [Readable α] (path : String) (node : Json) :
    Logged Note (Except DocumentError (Option α)) :=
  (resolve path node).map fun
    | some value => convert path value
    | none => .ok none

namespace Session

/-- The session without a root. -/
def new (settings : Settings) : Session := ⟨none, none, .empty, settings⟩

/-- The session without a root, if its settings are valid. -/
def withSettings (settings : Settings) : Except Error Session :=
  settings.check.map fun _ => new settings

/-- The session has a root. -/
def isInitialized (s : Session) : Bool := s.root.isSome

/-- The session with another context. -/
def moveTo (s : Session) (l : Location) : Session := { s with current := some l }

/-- The operation on a session that has a root. -/
def whenRooted {α : Type} (s : Session) (operation : Reply α) : Reply α :=
  match s.root with
  | some _ => operation
  | none => ⟨.error .invalidState, s, []⟩

/-- The answer of a session that has a root. -/
def ifRooted {α : Type} (s : Session) (answer : Answer α) : Answer α :=
  match s.root with
  | some _ => answer
  | none => .pure (.error .invalidState)

/-! ### The document -/

/-- Adopts the value as the root and the context, and clears the table. -/
def adopt (s : Session) (value : Json) : Reply Location where
  answer := .ok (.root value)
  session := ⟨some (.root value), some (.root value), .empty, s.settings⟩
  events := [.initialized value.kind]

/-- Adopts the document that the text holds, unless it is null. -/
def adoptText (s : Session) (text : String) : Reply Location :=
  match parseDocument text with
  | .error e => ⟨.error (.invalidInput e.reason), s, []⟩
  | .ok .null => ⟨.error (.invalidInput "document is null"), s, []⟩
  | .ok value => s.adopt value

/-- The root. -/
def rootLocation (s : Session) : Except Error Location :=
  match s.root with
  | some root => .ok root
  | none => .error .invalidState

/-- The current context. -/
def currentLocation (s : Session) : Except Error Location :=
  match s.root, s.current with
  | some _, some current => .ok current
  | _, _ => .error .invalidState

/-- Moves the context to what lies at the path from the node, if it is present and not null. -/
def navigate (s : Session) (node : Location) (path : String) : Reply Location :=
  s.whenRooted <|
    let found := node.locate path
    let notes := found.entries.map Event.note
    match found.value.filter fun l => !l.value.isNull with
    | some l => ⟨.ok l, s.moveTo l, notes ++ [.navigated l.path]⟩
    | none => ⟨.error (.notFound (node.qualify path)), s, notes⟩

/-! ### Comparisons -/

/-- The value of the type at the path from the node. -/
def get {α : Type} [Readable α] (s : Session) (node : Location) (path : String) :
    Answer (Option α) :=
  s.ifRooted ((JsonAudit.get path node.value).mapEntries .note |>.map (·.mapError .document))

/-- The left side of a comparison: the value at the path from the node. -/
def expect {α : Type} [Readable α] (s : Session) (node : Location) (path : String) :
    Answer (Expectation α) :=
  (s.get node path).map (·.map fun value => ⟨node.qualify path, value⟩)

/-- The comparison of a left side with the value at the path from the current context. -/
def pairWith {α : Type} [Readable α] (s : Session) (left : Expectation α) (path : String) :
    Answer (Comparison α) :=
  match s.currentLocation with
  | .error e => .pure (.error e)
  | .ok current =>
    (s.get current path).map (·.map fun value => ⟨left, ⟨current.qualify path, value⟩⟩)

/-- The events of a record, none if outcomes are not logged. -/
def outcomeEvents (s : Session) (key : String) (record : Record) : List Event :=
  if s.settings.logOutcomes then [.ofRecord key record] else []

/-- Records the outcome of a comparison under its key. -/
def record {α : Type} [Comparable α] (s : Session) (c : Comparison α) : Reply Table :=
  s.whenRooted <|
    let (key, record) := c.outcome s.settings.displayComponents
    let table := s.table.insert key record
    ⟨.ok table, { s with table }, s.outcomeEvents key record⟩

/-- Compares the value at one path from the node with the value at another from the current
context, and records the outcome. -/
def compare (α : Type) [Readable α] [Comparable α] (s : Session) (node : Location)
    (left right : String) : Reply Table :=
  let expected : Answer (Expectation α) := s.expect node left
  match expected.value with
  | .error e => ⟨.error e, s, expected.entries⟩
  | .ok expectation =>
    let paired := s.pairWith expectation right
    match paired.value with
    | .error e => ⟨.error e, s, expected.entries ++ paired.entries⟩
    | .ok comparison =>
      let reply := s.record comparison
      { reply with events := expected.entries ++ paired.entries ++ reply.events }

/-- The numbers of records by status. -/
def summary (s : Session) : Summary := .ofTable s.table

/-! ### The end -/

/-- Drops the root, the context and the table. -/
def reset (s : Session) : Reply Unit :=
  ⟨.ok (), new s.settings, [.reset s.table.size]⟩

/-- Hands over the table, then resets the session. -/
def takeTable (s : Session) : Reply Table :=
  let reply := { s with table := .empty }.reset
  { reply with answer := .ok s.table }

end Session

end JsonAudit
