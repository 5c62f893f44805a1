/-!
# Blank characters

`isBlank c` says that `c` is one of the twenty-five characters with the Unicode property
`White_Space`.  A text is cut by `trimStart`, which drops leading blanks, and by `trim`,
which drops blanks at both ends; `allBlank` says that nothing else is there.
-/

namespace JsonAudit

/-- A set of characters, as closed ranges of code points. -/
abbrev CharRanges := List (Nat × Nat)

/-- The character lies in one of the ranges. -/
def CharRanges.has (ranges : CharRanges) (c : Char) : Bool :=
  ranges.any fun range => decide (range.1 ≤ c.toNat) && decide (c.toNat ≤ range.2)

/-- The code points with the property `White_Space`. -/
def blankRanges : CharRanges := [
    (0x09, 0x0D), (0x20, 0x20), (0x85, 0x85), (0xA0, 0xA0), (0x1680, 0x1680),
    (0x2000, 0x200A), (0x2028, 0x2029), (0x202F, 0x202F), (0x205F, 0x205F), (0x3000, 0x3000)
  ]

/-- The character is white space. -/
def isBlank (c : Char) : Bool := blankRanges.has c

/-- The text without its leading blanks. -/
def trimStart (text : List Char) : List Char := text.dropWhile isBlank

/-- The text without its trailing blanks. -/
def trimEnd (text : List Char) : List Char := (trimStart text.reverse).reverse

/-- The text without the blanks at its ends. -/
def trim (text : List Char) : List Char := trimEnd (trimStart text)

/-- The text holds blanks only; the empty text does. -/
def allBlank (text : List Char) : Bool := text.all isBlank

theorem length_trimStart_le (text : List Char) :
  (trimStart text).length ≤ text.length
  := (List.dropWhile_sublist isBlank).length_le

theorem length_trimEnd_le (text : List Char) :
  (trimEnd text).length ≤ text.length
  := by
  rw [trimEnd, List.length_reverse]
  apply Nat.le_trans (length_trimStart_le _)
  apply Nat.le_of_eq List.length_reverse

theorem length_trim_le (text : List Char) :
  (trim text).length ≤ text.length
  := Nat.le_trans (length_trimEnd_le _) (length_trimStart_le _)

end JsonAudit
