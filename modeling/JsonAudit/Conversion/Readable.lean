import JsonAudit.Json.Printer
import JsonAudit.Text.Quoted

/-!
# Reading typed values

A type is `Readable` if JSON values can be converted into it.  A value that cannot be is a
`Mismatch`: of the wrong kind, or of the right kind and outside the type.  `readOption` reads
null as no value.  A type is `Comparable` if its values can be compared and shown in a message.
-/

namespace JsonAudit

/-- The value does not belong to the type that is described. -/
inductive Mismatch where
  /-- The value is of another kind. -/
  | kind (value : Json) (expected : String)
  /-- The value is of the kind, but the type does not hold it. -/
  | range (value : Json) (expected : String)

/-- The value as a message shows it. -/
def Json.description : Json → String
  | .null => "null"
  | .bool b => "boolean `" ++ (Json.bool b).text ++ "`"
  | .number (.int n) => "integer `" ++ (Number.int n).text ++ "`"
  | .number (.float x) => "floating point `" ++ (Number.float x).text ++ "`"
  | .string s => "string " ++ quoted s
  | .array _ => "sequence"
  | .object _ => "map"

/-- The wording of a mismatch. -/
def Mismatch.message : Mismatch → String
  | kind value expected => "invalid type: " ++ value.description ++ ", expected " ++ expected
  | range value expected => "invalid value: " ++ value.description ++ ", expected " ++ expected

/-- A type that JSON values are converted into. -/
class Readable (α : Type) where
  /-- The name of the type in messages. -/
  typeName : String
  /-- The value of the type that a JSON value stands for. -/
  read : Json → Except Mismatch α

/-- The value of the type, none for null. -/
def readOption {α : Type} [Readable α] (value : Json) : Except Mismatch (Option α) :=
  if value.isNull then .ok none else (Readable.read value).map some

/-- A type whose values are compared and shown. -/
class Comparable (α : Type) where
  /-- The values are equal. -/
  same : α → α → Bool
  /-- The value as a message shows it. -/
  text : α → String

end JsonAudit
