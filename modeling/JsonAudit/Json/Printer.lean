import JsonAudit.Decimal.Layout
import JsonAudit.Json.Basic

/-!
# JSON text

`Json.text` writes a value as JSON text without blanks.  `Json.render` is the text of a value
for comparison with a literal: a string as it is, any other value as JSON text.
-/

namespace JsonAudit

/-- The number as JSON text. -/
def Number.text : Number → String
  | .int n => Int.repr n
  | .float x => Layout.json.write x

namespace Json

/-- A code point below 256 as the four digits of an escape. -/
def escapeDigits (n : Nat) : List Char :=
  ['0', '0', Nat.digitChar (n / 16), Nat.digitChar (n % 16)]

/-- The form of one character inside a JSON string. -/
def escapeChar (c : Char) : List Char :=
  match c with
  | '"' => ['\\', '"']
  | '\\' => ['\\', '\\']
  | '\x08' => ['\\', 'b']
  | '\x0c' => ['\\', 'f']
  | '\n' => ['\\', 'n']
  | '\r' => ['\\', 'r']
  | '\t' => ['\\', 't']
  | _ => if c.toNat < 0x20 then ['\\', 'u'] ++ escapeDigits c.toNat else [c]

/-- The string as JSON text. -/
def stringText (s : String) : String :=
  String.ofList ('"' :: s.toList.flatMap escapeChar ++ ['"'])

mutual

/-- The value as JSON text. -/
def text : Json → String
  | null => "null"
  | bool true => "true"
  | bool false => "false"
  | number n => n.text
  | string s => stringText s
  | array items => "[" ++ ",".intercalate (itemTexts items) ++ "]"
  | object members => "\x7b" ++ ",".intercalate (memberTexts members) ++ "\x7d"

/-- The elements as JSON texts. -/
def itemTexts : List Json → List String
  | [] => []
  | item :: rest => item.text :: itemTexts rest

/-- The members as JSON texts. -/
def memberTexts : List (String × Json) → List String
  | [] => []
  | (key, value) :: rest => (stringText key ++ ":" ++ value.text) :: memberTexts rest

end

/-- The text of the value for comparison with a literal. -/
def render : Json → String
  | string s => s
  | value => value.text

end Json

end JsonAudit
