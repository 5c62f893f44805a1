import JsonAudit.Text.Escaped

/-!
# Quoted text

`quoted text` writes a text between double quotes for a reader of messages.  The quote, the
backslash and four controls have short escapes, `isEscaped` characters are written as
`\u{...}` with their code point in lowercase hexadecimal, and all others stand for themselves.
-/

namespace JsonAudit

/-- The form of one character inside a quoted text. -/
def quotedChar (c : Char) : List Char :=
  match c with
  | '"' => ['\\', '"']
  | '\\' => ['\\', '\\']
  | '\n' => ['\\', 'n']
  | '\r' => ['\\', 'r']
  | '\t' => ['\\', 't']
  | '\x00' => ['\\', '0']
  | _ =>
    if isEscaped c then
      ['\\', 'u', '\x7b'] ++ Nat.toDigits 16 c.toNat ++ ['\x7d']
    else
      [c]

/-- The text between double quotes, with what could not be read escaped. -/
def quoted (text : String) : String :=
  String.ofList ('"' :: text.toList.flatMap quotedChar ++ ['"'])

end JsonAudit
