/-!
# Faults of JSON texts

A `Fault` is the reason why a text is not JSON.  A reader that stops at one tells in a `Failure`
how much of the text is left there and how many bytes further the fault is reported;
`Failure.locate` turns this into a `ReadError` with a `Position`, whose lines begin at one and
whose columns count bytes.
-/

namespace JsonAudit

/-- The reason why a text is not JSON. -/
inductive Fault where
  | endInValue
  | endInArray
  | endInObject
  | endInString
  | expectedValue
  | expectedWord
  | expectedColon
  | expectedArrayEnd
  | expectedObjectEnd
  | expectedKey
  | trailingComma
  | trailingText
  | controlCharacter
  | invalidEscape
  | loneSurrogate
  | brokenSurrogatePair
  | invalidNumber
  | numberOutOfRange
  | tooDeep
deriving DecidableEq, Repr

/-- The wording of a fault. -/
def Fault.message : Fault → String
  | endInValue => "EOF while parsing a value"
  | endInArray => "EOF while parsing a list"
  | endInObject => "EOF while parsing an object"
  | endInString => "EOF while parsing a string"
  | expectedValue => "expected value"
  | expectedWord => "expected ident"
  | expectedColon => "expected `:`"
  | expectedArrayEnd => "expected `,` or `]`"
  | expectedObjectEnd => "expected `,` or `\x7d`"
  | expectedKey => "key must be a string"
  | trailingComma => "trailing comma"
  | trailingText => "trailing characters"
  | controlCharacter => "control character (\\u0000-\\u001F) found while parsing a string"
  | invalidEscape => "invalid escape"
  | loneSurrogate => "lone leading surrogate in hex escape"
  | brokenSurrogatePair => "unexpected end of hex escape"
  | invalidNumber => "invalid number"
  | numberOutOfRange => "number out of range"
  | tooDeep => "recursion limit exceeded"

/-- A place in a text. -/
structure Position where
  /-- The number of the line, from one. -/
  line : Nat
  /-- The number of bytes of the line before the place. -/
  column : Nat
deriving DecidableEq, Repr

namespace Position

/-- The place before the first character. -/
def start : Position := ⟨1, 0⟩

/-- The place after a character. -/
def after (p : Position) (c : Char) : Position :=
  if c == '\n' then ⟨p.line + 1, 0⟩ else ⟨p.line, p.column + c.utf8Size⟩

/-- The place so many bytes further in the text, or at its end. -/
def ahead (p : Position) (bytes : Nat) : List Char → Position
  | [] => p
  | c :: rest =>
    if bytes < c.utf8Size then ⟨p.line, p.column + bytes⟩
    else (p.after c).ahead (bytes - c.utf8Size) rest

end Position

/-- A fault and where a reader met it. -/
structure Failure where
  fault : Fault
  /-- The number of characters not read. -/
  remaining : Nat
  /-- The number of bytes from there to the place that is reported. -/
  ahead : Nat
deriving DecidableEq, Repr

/-- A fault and its place in the text. -/
structure ReadError where
  fault : Fault
  position : Position
deriving DecidableEq, Repr

/-- The failure with its place in the whole text. -/
def Failure.locate (failure : Failure) (text : List Char) : ReadError :=
  let read := text.length - failure.remaining
  ⟨failure.fault,
    ((text.take read).foldl Position.after Position.start).ahead failure.ahead (text.drop read)⟩

/-- The wording of the error, with its place. -/
def ReadError.message (e : ReadError) : String :=
  e.fault.message ++ " at line " ++ Nat.repr e.position.line
    ++ " column " ++ Nat.repr e.position.column

end JsonAudit
