import JsonAudit.Conversion.Readable
import JsonAudit.Json.Fault

/-!
# Errors

A `DocumentError` says that a text is not JSON or that a value does not have the type asked for.
An `Error` is the failure of an operation on a session: the input is no root, there is no root,
a path selects nothing, the settings are not valid, or a document error.
-/

namespace JsonAudit

/-- A failure to read a document or a value of it. -/
inductive DocumentError where
  | notJson (reason : String)
  | notConvertible (reason : String)
deriving DecidableEq, Repr

namespace DocumentError

/-- The reason that the error gives. -/
def reason : DocumentError → String
  | notJson reason => reason
  | notConvertible reason => reason

/-- The wording of the error. -/
def message (e : DocumentError) : String := "JSON Path Error: " ++ e.reason

/-- The text is not JSON for this reason, whose place is named once more. -/
def ofReadError (e : ReadError) : DocumentError :=
  .notJson ("JSON parse error: " ++ e.message ++ " at line " ++ Nat.repr e.position.line
    ++ " column " ++ Nat.repr e.position.column)

/-- The value at the path, unless that is empty, is not of the type. -/
def conversion (path typeName reason : String) : DocumentError :=
  let place := if path == "" then "" else " at '" ++ path ++ "'"
  .notConvertible ("cannot convert value" ++ place ++ " to " ++ typeName ++ ": " ++ reason)

end DocumentError

/-- The value of the type that the value at a path stands for, none for null. -/
def convert {α : Type} [Readable α] (path : String) (value : Json) :
    Except DocumentError (Option α) :=
  (readOption value).mapError fun m => .conversion path (Readable.typeName α) m.message

/-- A failure of an operation on a session. -/
inductive Error where
  /-- The input cannot be the root, for a reason. -/
  | invalidInput (reason : String)
  /-- The session has no root. -/
  | invalidState
  /-- Nothing is at the path. -/
  | notFound (path : String)
  /-- A document or a value could not be read. -/
  | document (e : DocumentError)
  /-- The settings are not valid, for a reason. -/
  | invalidSettings (reason : String)
deriving DecidableEq, Repr

namespace Error

/-- The wording of the error. -/
def message : Error → String
  | invalidInput reason => "Invalid JSON, could not set root node: " ++ reason
  | invalidState =>
    "Validation session has no root node; "
      ++ "initialize it with `from_json` or `from_node` first"
  | notFound path => "No node found at path: " ++ path
  | document e => e.message
  | invalidSettings reason => "Invalid configuration parameter: " ++ reason

/-- Nothing was found at a path. -/
def isNotFound : Error → Bool
  | notFound _ => true
  | _ => false

/-- The session had no root. -/
def isInvalidState : Error → Bool
  | invalidState => true
  | _ => false

/-- A value did not have the type asked for. -/
def isConversion : Error → Bool
  | document (.notConvertible _) => true
  | _ => false

end Error

end JsonAudit
