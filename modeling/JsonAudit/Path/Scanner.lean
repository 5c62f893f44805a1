import JsonAudit.Text.Blank

/-!
# Scanning a path

A `Scanner` reads the characters of a path one by one.  It counts the open brackets and knows
whether it stands inside a quoted literal.  A quote mark opens a literal only as the first
character after `==` or `!=` inside brackets, blanks aside; everywhere else it is an ordinary
character.  `isPlain s c` says that `c`, read next, is not part of a quoted literal, and
`s.next c` is the scanner after it.
-/

namespace JsonAudit

/-- What is known of a path after some of its characters. -/
structure Scanner where
  /-- The number of open brackets. -/
  depth : Nat
  /-- The mark that closes the open literal. -/
  quote : Option Char
  /-- An operator was read and its literal has not begun. -/
  awaitingLiteral : Bool
  /-- The last character. -/
  previous : Option Char
deriving DecidableEq, Repr

namespace Scanner

/-- The scanner before the first character, inside `depth` brackets. -/
def start (depth : Nat) : Scanner := ⟨depth, none, false, none⟩

/-- The character may open and close a literal. -/
def isQuoteMark (c : Char) : Bool := c == '"' || c == '\''

/-- The character may stand before the `=` that ends an operator. -/
def beginsOperator (c : Char) : Bool := c == '=' || c == '!'

/-- The character, read next, is outside every quoted literal and does not open one. -/
def isPlain (s : Scanner) (c : Char) : Bool :=
  s.quote.isNone && !(s.awaitingLiteral && isQuoteMark c)

/-- The scanner after a plain character that ends no wait: brackets move the depth, and the
second character of an operator inside brackets starts the wait for its literal. -/
def nextPlain (s : Scanner) (c : Char) : Scanner :=
  match c with
  | '[' => ⟨s.depth + 1, none, false, some c⟩
  | ']' => ⟨s.depth - 1, none, false, some c⟩
  | '=' => ⟨s.depth, none, decide (0 < s.depth) && s.previous.any beginsOperator, some c⟩
  | _ => ⟨s.depth, none, false, some c⟩

/-- The scanner after the character. -/
def next (s : Scanner) (c : Char) : Scanner :=
  match s.quote with
  | some mark => { s with quote := if c == mark then none else some mark, previous := some c }
  | none =>
    if s.awaitingLiteral then
      if isBlank c then
        { s with previous := some c }
      else if isQuoteMark c then
        { s with quote := some c, awaitingLiteral := false, previous := some c }
      else
        s.nextPlain c
    else
      s.nextPlain c

/-- The scanner after a text. -/
def run (s : Scanner) (text : List Char) : Scanner := text.foldl next s

/-- The character, read next, is a plain `mark` after which no bracket is open. -/
def isOutermost (s : Scanner) (mark c : Char) : Bool :=
  s.isPlain c && c == mark && (s.next c).depth == 0

theorem run_append (s : Scanner) (a b : List Char) :
  s.run (a ++ b) = (s.run a).run b
  := List.foldl_append

end Scanner

end JsonAudit
