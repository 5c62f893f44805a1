import JsonAudit.Json.Lexeme

/-!
# Reading JSON

`Json.read text` reads a text that holds one value, with nothing but blanks around it.  At most
`depthLimit` brackets may be open at once.  In an object with a repeated key the last value is
kept, in the place of the first.

The reader of a value takes the reader of its parts, which has one bracket less to spend.
-/

namespace JsonAudit

/-- The largest number of open brackets. -/
def depthLimit : Nat := 127

namespace Json

/-- A reader of values. -/
abbrev Reader := (text : List Char) → Except Failure (Read Json text)

/-- The elements of an array from the one at the beginning of the text on, up to the closing
bracket. -/
def readItems (item : Reader) (text : List Char) : Except Failure (Read (List Json) text) :=
  match item text with
  | .error e => .error e
  | .ok ⟨first, afterFirst, h⟩ =>
    match hs : skipSpace afterFirst with
    | ']' :: rest => .ok ⟨[first], rest, Nat.lt_trans (length_lt_of_skipSpace hs) h⟩
    | ',' :: rest =>
      match hc : skipSpace rest with
      | ']' :: tail => failAt .trailingComma (']' :: tail) 1
      | [] => failAt .endInValue [] 0
      | c :: tail =>
        have : (c :: tail).length < text.length :=
          Nat.lt_of_le_of_lt (length_lt_of_skipSpace hc)
            (Nat.lt_trans (length_lt_of_skipSpace hs) h)
        match readItems item (c :: tail) with
        | .error e => .error e
        | .ok ⟨others, rest, h'⟩ => .ok ⟨first :: others, rest, Nat.lt_trans h' this⟩
    | [] => failAt .endInArray [] 0
    | c :: tail => failAt .expectedArrayEnd (c :: tail) 1
termination_by text.length

/-- The value of a member, after its key. -/
def readMemberValue (item : Reader) : Reader := fun text =>
  match hs : skipSpace text with
  | ':' :: rest =>
    match item rest with
    | .error e => .error e
    | .ok ⟨value, tail, h⟩ => .ok ⟨value, tail, Nat.lt_trans h (length_lt_of_skipSpace hs)⟩
  | [] => failAt .endInObject [] 0
  | c :: tail => failAt .expectedColon (c :: tail) 1

/-- The members of an object that are added to those before, from the one whose opening quote was
read on, up to the closing brace. -/
def readMembers (item : Reader) (members : List (String × Json)) (text : List Char) :
    Except Failure (Read (List (String × Json)) text) :=
  match readString text with
  | .error e => .error e
  | .ok ⟨key, afterKey, hk⟩ =>
    match readMemberValue item afterKey with
    | .error e => .error e
    | .ok ⟨value, afterValue, hv⟩ =>
      let longer := Keyed.insert (String.ofList key) value members
      match hs : skipSpace afterValue with
      | '\x7d' :: rest => .ok ⟨longer, rest,
          Nat.lt_trans (length_lt_of_skipSpace hs) (Nat.lt_trans hv hk)⟩
      | ',' :: rest =>
        match hc : skipSpace rest with
        | '"' :: tail =>
          have : tail.length < text.length :=
            Nat.lt_trans (length_lt_of_skipSpace hc)
              (Nat.lt_trans (length_lt_of_skipSpace hs) (Nat.lt_trans hv hk))
          match readMembers item longer tail with
          | .error e => .error e
          | .ok ⟨all, rest, h⟩ => .ok ⟨all, rest, Nat.lt_trans h this⟩
        | '\x7d' :: tail => failAt .trailingComma ('\x7d' :: tail) 1
        | [] => failAt .endInValue [] 0
        | c :: tail => failAt .expectedKey (c :: tail) 1
      | [] => failAt .endInObject [] 0
      | c :: tail => failAt .expectedObjectEnd (c :: tail) 1
termination_by text.length

/-- The array after its opening bracket. -/
def readArray (item : Reader) : Reader := fun text =>
  match hs : skipSpace text with
  | ']' :: rest => .ok ⟨.array [], rest, length_lt_of_skipSpace hs⟩
  | [] => failAt .endInArray [] 0
  | c :: tail =>
    match readItems item (c :: tail) with
    | .error e => .error e
    | .ok ⟨items, rest, h⟩ => .ok ⟨.array items, rest,
        Nat.lt_of_lt_of_le h (length_lt_of_skipSpace hs)⟩

/-- The object after its opening brace. -/
def readObject (item : Reader) : Reader := fun text =>
  match hs : skipSpace text with
  | '\x7d' :: rest => .ok ⟨.object [], rest, length_lt_of_skipSpace hs⟩
  | '"' :: tail =>
    match readMembers item [] tail with
    | .error e => .error e
    | .ok ⟨members, rest, h⟩ => .ok ⟨.object members, rest,
        Nat.lt_trans h (length_lt_of_skipSpace hs)⟩
  | [] => failAt .endInObject [] 0
  | c :: tail => failAt .expectedKey (c :: tail) 1

/-- The word that begins with a letter already read, standing for the value. -/
def readConstant (value : Json) (word : List Char) : Reader := fun text =>
  match text with
  | [] => failAt .endInValue [] 0
  | _ :: tail =>
    match h : readWord word tail with
    | .error e => .error e
    | .ok rest => .ok ⟨value, rest, Nat.lt_succ_of_le (length_le_of_readWord h)⟩

/-- The value at the beginning of the text, its parts being read by `item` if a bracket may be
opened. -/
def readWith (item : Option Reader) : Reader := fun text =>
  match text with
  | [] => failAt .endInValue [] 0
  | 'n' :: tail => readConstant .null ['u', 'l', 'l'] ('n' :: tail)
  | 't' :: tail => readConstant (.bool true) ['r', 'u', 'e'] ('t' :: tail)
  | 'f' :: tail => readConstant (.bool false) ['a', 'l', 's', 'e'] ('f' :: tail)
  | '"' :: tail =>
    (readString tail).map fun r => (r.map fun s => string (String.ofList s)).after '"'
  | '[' :: tail =>
    match item with
    | none => failAt .tooDeep ('[' :: tail) 1
    | some item => (readArray item tail).map (Read.after '[')
  | '\x7b' :: tail =>
    match item with
    | none => failAt .tooDeep ('\x7b' :: tail) 1
    | some item => (readObject item tail).map (Read.after '\x7b')
  | c :: tail =>
    if c == '-' || c.isDigit then
      (readNumber (c :: tail)).map (Read.map number)
    else
      failAt .expectedValue (c :: tail) 1

/-- The value after blanks. -/
def afterSpace (item : Reader) : Reader := fun text =>
  match item (skipSpace text) with
  | .error e => .error e
  | .ok ⟨value, rest, h⟩ => .ok ⟨value, rest, Nat.lt_of_lt_of_le h (length_skipSpace_le text)⟩

/-- The value at the beginning of the text, with at most so many brackets open. -/
def readNested : Nat → Reader
  | 0 => afterSpace (readWith none)
  | brackets + 1 => afterSpace (readWith (some (readNested brackets)))

/-- The value that is the whole text. -/
def readAll (text : List Char) : Except Failure Json :=
  match readNested depthLimit text with
  | .error e => .error e
  | .ok ⟨value, rest, _⟩ =>
    match skipSpace rest with
    | [] => .ok value
    | tail => failAt .trailingText tail 1

/-- The value of a JSON text. -/
def read (text : String) : Except ReadError Json :=
  (readAll text.toList).mapError fun failure => failure.locate text.toList

end Json

end JsonAudit
