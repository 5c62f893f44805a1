import JsonAudit.Json.Basic
import JsonAudit.Json.Fault

/-!
# Words, strings and numbers of JSON

A reader takes a text and gives a value and the rest of the text, which is shorter; this is a
`Read`.  The readers here are for the parts of JSON without parts of their own: `readWord` for
the tails of `null`, `true` and `false`, `readString` for the characters after an opening quote,
and `readNumber`.

A number without fraction and exponent that fits into sixty-four bits is an integer, signed if
negative; every other number is a double, `-0` too.  Its digits enter the significand while that
fits into sixty-four bits, and later whole digits count for the exponent only.
-/

namespace JsonAudit

/-- A value and what is left of the text it was read from. -/
structure Read (α : Type) (text : List Char) where
  value : α
  rest : List Char
  shorter : rest.length < text.length

namespace Read

variable {α β : Type} {text : List Char}

/-- The value changed, the rest kept. -/
def map (f : α → β) (r : Read α text) : Read β text := ⟨f r.value, r.rest, r.shorter⟩

/-- The value read from a text after a character. -/
def after (c : Char) (r : Read α text) : Read α (c :: text) :=
  ⟨r.value, r.rest, Nat.lt_succ_of_lt r.shorter⟩

end Read

/-- The failure at the rest of a text, reported so many bytes further. -/
def failAt {α : Type} (fault : Fault) (rest : List Char) (ahead : Nat) : Except Failure α :=
  .error ⟨fault, rest.length, ahead⟩

/-- The text without the blanks of JSON before it. -/
def skipSpace (text : List Char) : List Char :=
  text.dropWhile fun c => c == ' ' || c == '\t' || c == '\n' || c == '\r'

theorem length_skipSpace_le (text : List Char) :
  (skipSpace text).length ≤ text.length
  := (List.dropWhile_sublist _).length_le

/-- What is left behind space and a character is shorter than the text. -/
theorem length_lt_of_skipSpace {text tail : List Char} {c : Char}
    (h : skipSpace text = c :: tail) :
  tail.length < text.length
  := by
  have := length_skipSpace_le text
  rw [h, List.length_cons] at this
  exact this

/-! ### Words -/

/-- The text after a word that it has to begin with. -/
def readWord : (word text : List Char) → Except Failure (List Char)
  | [], text => .ok text
  | _ :: _, [] => failAt .endInValue [] 0
  | w :: word, c :: rest =>
    if c == w then readWord word rest else failAt .expectedWord (c :: rest) 1

/-- What is left behind a word is no longer than the text. -/
theorem length_le_of_readWord {word text rest : List Char} (h : readWord word text = .ok rest) :
  rest.length ≤ text.length
  := by
  induction word generalizing text with
  | nil =>
    cases h
    apply Nat.le_refl
  | cons w word ih =>
    cases text with
    | nil => cases h
    | cons c tail =>
      rw [readWord] at h
      split at h
      · exact Nat.le_succ_of_le (ih h)
      · cases h

/-! ### Strings -/

/-- The value of a hexadecimal digit. -/
def hexValue (c : Char) : Option Nat :=
  if c.isDigit then some (c.toNat - '0'.toNat)
  else if 'a'.toNat ≤ c.toNat && c.toNat ≤ 'f'.toNat then some (c.toNat - 'a'.toNat + 10)
  else if 'A'.toNat ≤ c.toNat && c.toNat ≤ 'F'.toNat then some (c.toNat - 'A'.toNat + 10)
  else none

/-- The text has at least so many bytes. -/
def hasBytes (n : Nat) (text : List Char) : Bool :=
  decide (n ≤ text.foldl (fun bytes c => bytes + c.utf8Size) 0)

/-- The failure of four hexadecimal digits that are not there. -/
def failHex {α : Type} (text : List Char) : Except Failure α :=
  failAt (if hasBytes 4 text then .invalidEscape else .endInString) text 4

/-- The value of four hexadecimal digits. -/
def readHex (text : List Char) : Except Failure (Read Nat text) :=
  match text with
  | a :: b :: c :: d :: rest =>
    match hexValue a, hexValue b, hexValue c, hexValue d with
    | some a, some b, some c, some d =>
      .ok ⟨((a * 16 + b) * 16 + c) * 16 + d, rest, by simp only [List.length_cons]; omega⟩
    | _, _, _, _ => failHex text
  | _ => failHex text

/-- The number is the first half of a surrogate pair. -/
def isLeadingSurrogate (n : Nat) : Bool := decide (0xD800 ≤ n) && decide (n ≤ 0xDBFF)

/-- The number is the second half of a surrogate pair. -/
def isTrailingSurrogate (n : Nat) : Bool := decide (0xDC00 ≤ n) && decide (n ≤ 0xDFFF)

/-- The character of the digits after `\u`, a surrogate pair being one character. -/
def readCodePoint (text : List Char) : Except Failure (Read Char text) :=
  match readHex text with
  | .error e => .error e
  | .ok ⟨n, rest, h⟩ =>
    if isTrailingSurrogate n then
      failAt .loneSurrogate rest 0
    else if isLeadingSurrogate n then
      match rest with
      | [] => failAt .endInString [] 0
      | ['\\'] => failAt .endInString [] 0
      | '\\' :: 'u' :: second =>
        match readHex second with
        | .error e => .error e
        | .ok ⟨m, rest, h'⟩ =>
          if isTrailingSurrogate m then
            .ok ⟨Char.ofNat (0x10000 + (n - 0xD800) * 0x400 + (m - 0xDC00)), rest, by
              simp only [List.length_cons] at h
              omega⟩
          else
            failAt .loneSurrogate rest 0
      | '\\' :: other => failAt .brokenSurrogatePair other 1
      | other => failAt .brokenSurrogatePair other 1
    else
      .ok ⟨Char.ofNat n, rest, h⟩

/-- The character that a letter after a backslash stands for. -/
def simpleEscape : Char → Option Char
  | '"' => some '"'
  | '\\' => some '\\'
  | '/' => some '/'
  | 'b' => some '\x08'
  | 'f' => some '\x0c'
  | 'n' => some '\n'
  | 'r' => some '\r'
  | 't' => some '\t'
  | _ => none

/-- The character of the escape after a backslash. -/
def readEscape (text : List Char) : Except Failure (Read Char text) :=
  match text with
  | [] => failAt .endInString [] 0
  | 'u' :: digits => (readCodePoint digits).map (Read.after 'u')
  | letter :: rest =>
    match simpleEscape letter with
    | some c => .ok ⟨c, rest, by simp only [List.length_cons]; omega⟩
    | none => failAt .invalidEscape text 1

/-- The characters of a string up to its closing quote. -/
def readString (text : List Char) : Except Failure (Read (List Char) text) :=
  match text with
  | [] => failAt .endInString [] 0
  | '"' :: rest => .ok ⟨[], rest, by simp⟩
  | '\\' :: tail =>
    match readEscape tail with
    | .error e => .error e
    | .ok ⟨c, rest, h⟩ =>
      match readString rest with
      | .error e => .error e
      | .ok ⟨s, rest, h'⟩ => .ok ⟨c :: s, rest, by simp only [List.length_cons]; omega⟩
  | c :: rest =>
    if c.toNat < 0x20 then
      failAt .controlCharacter text 1
    else
      match readString rest with
      | .error e => .error e
      | .ok ⟨s, rest, h⟩ => .ok ⟨c :: s, rest, by simp only [List.length_cons]; omega⟩
termination_by text.length

/-! ### Numbers -/

/-- The largest significand. -/
def significandLimit : Nat := Nat.pow 2 64 - 1

/-- The largest exponent that is written. -/
def exponentLimit : Nat := Nat.pow 2 31 - 1

/-- The value with the digits appended while it stays within the limit, and the digits that are
left. -/
def absorb (limit value : Nat) : List Char → Nat × List Char
  | [] => (value, [])
  | d :: rest =>
    let longer := 10 * value + (d.toNat - '0'.toNat)
    if longer ≤ limit then absorb limit longer rest else (value, d :: rest)

/-- The digits that a text begins with. -/
def leadingDigits (text : List Char) : List Char := text.takeWhile Char.isDigit

/-- The text after the digits that it begins with. -/
def afterDigits (text : List Char) : List Char := text.dropWhile Char.isDigit

theorem length_afterDigits_le (text : List Char) :
  (afterDigits text).length ≤ text.length
  := (List.dropWhile_sublist _).length_le

/-- The digits before the point: a zero alone, or digits that begin with another one. -/
def readWhole (text : List Char) : Except Failure (Read (List Char) text) :=
  match text with
  | [] => failAt .endInValue [] 0
  | c :: rest =>
    if c == '0' then
      if (leadingDigits rest).isEmpty then .ok ⟨['0'], rest, by simp⟩
      else failAt .invalidNumber rest 1
    else if c.isDigit then
      .ok ⟨c :: leadingDigits rest, afterDigits rest, Nat.lt_succ_of_le (length_afterDigits_le rest)⟩
    else
      failAt .invalidNumber text 1

/-- The digits after the point, if there is one, and the rest of the text. -/
def readFraction (text : List Char) : Except Failure (Option (List Char) × List Char) :=
  match text with
  | '.' :: rest =>
    if (leadingDigits rest).isEmpty then
      failAt (if rest.isEmpty then .endInValue else .invalidNumber) rest 1
    else
      .ok (some (leadingDigits rest), afterDigits rest)
  | _ => .ok (none, text)

/-- The written exponent of a number. -/
structure Exponent where
  negative : Bool
  digits : List Char

/-- The sign of an exponent, and the rest of the text. -/
def readSign : List Char → Bool × List Char
  | '-' :: rest => (true, rest)
  | '+' :: rest => (false, rest)
  | text => (false, text)

/-- The exponent, if there is one, and the rest of the text. -/
def readExponent (text : List Char) : Except Failure (Option Exponent × List Char) :=
  match text with
  | [] => .ok (none, [])
  | c :: rest =>
    if c == 'e' || c == 'E' then
      let tail := (readSign rest).2
      if (leadingDigits tail).isEmpty then
        failAt (if tail.isEmpty then .endInValue else .invalidNumber) tail 1
      else
        .ok (some ⟨(readSign rest).1, leadingDigits tail⟩, afterDigits tail)
    else
      .ok (none, text)

/-- The integer with this sign and absolute value, or the double where there is none. -/
def Number.ofWhole (negative : Bool) (n : Nat) : Number :=
  if negative then
    if 0 < n && n ≤ Nat.pow 2 63 then .int (-(n : Int)) else .float (Double.ofNat true n)
  else
    .int n

/-- The number written in these parts, before the rest of a text. -/
def Number.ofParts (negative : Bool) (whole : List Char) (fraction : Option (List Char))
    (exponent : Option Exponent) (rest : List Char) : Except Failure Number :=
  let (high, unread) := absorb significandLimit 0 whole
  if unread.isEmpty && fraction.isNone && exponent.isNone then
    .ok (.ofWhole negative high)
  else
    let digits := fraction.getD []
    let (significand, ignored) := absorb significandLimit high digits
    let shift : Int := unread.length - (digits.length - ignored.length : Nat)
    let scaled (e : Int) : Except Failure Number :=
      match Double.ofDecimal negative significand e with
      | some x => .ok (.float x)
      | none => failAt .numberOutOfRange rest 0
    match exponent with
    | none => scaled shift
    | some written =>
      match absorb exponentLimit 0 written.digits with
      | (e, []) => scaled (if written.negative then shift - e else shift + e)
      | (_, _ :: excess) =>
        if significand != 0 && !written.negative then
          failAt .numberOutOfRange (excess ++ rest) 0
        else
          .ok (.float (Double.ofNat negative 0))

/-- What is left behind a fraction is no longer than the text. -/
theorem length_le_of_readFraction {text rest : List Char} {digits : Option (List Char)}
    (h : readFraction text = .ok (digits, rest)) :
  rest.length ≤ text.length
  := by
  unfold readFraction at h
  split at h
  · rename_i tail
    split at h
    · cases h
    · cases h
      exact Nat.le_succ_of_le (length_afterDigits_le tail)
  · cases h
    apply Nat.le_refl

theorem length_readSign_le (text : List Char) :
  (readSign text).2.length ≤ text.length
  := by
  unfold readSign
  split
  · apply Nat.le_succ
  · apply Nat.le_succ
  · apply Nat.le_refl

/-- What is left behind an exponent is no longer than the text. -/
theorem length_le_of_readExponent {text rest : List Char} {exponent : Option Exponent}
    (h : readExponent text = .ok (exponent, rest)) :
  rest.length ≤ text.length
  := by
  unfold readExponent at h
  split at h
  · cases h
    apply Nat.le_refl
  · rename_i c tail
    split at h
    · dsimp only at h
      split at h
      · cases h
      · cases h
        have := length_afterDigits_le (readSign tail).2
        have := length_readSign_le tail
        simp only [List.length_cons]
        omega
    · cases h
      apply Nat.le_refl

/-- The number after its sign. -/
def readUnsigned (negative : Bool) (text : List Char) : Except Failure (Read Number text) :=
  match readWhole text with
  | .error e => .error e
  | .ok ⟨whole, afterWhole, hw⟩ =>
    match hf : readFraction afterWhole with
    | .error e => .error e
    | .ok (fraction, afterFraction) =>
      match he : readExponent afterFraction with
      | .error e => .error e
      | .ok (exponent, rest) =>
        match Number.ofParts negative whole fraction exponent rest with
        | .error e => .error e
        | .ok n => .ok ⟨n, rest, by
            have := length_le_of_readFraction hf
            have := length_le_of_readExponent he
            omega⟩

/-- The number at the beginning of a text. -/
def readNumber (text : List Char) : Except Failure (Read Number text) :=
  match text with
  | '-' :: tail => (readUnsigned true tail).map (Read.after '-')
  | other => readUnsigned false other

end JsonAudit
