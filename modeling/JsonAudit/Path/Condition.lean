import JsonAudit.Path.Scanner
import JsonAudit.Path.Segment

/-!
# The content of a bracket

Bracket content has a meaning in two forms.  `readIndex` reads an array index in decimal.
`readCondition` reads a condition `@.path == literal` or `@.path != literal`, on its own, after
`?`, or inside `?( )`; blanks may stand around the operator, and the literal may be quoted.
The path of a condition is shorter than its text by at least the five characters that every
condition has besides.
-/

namespace JsonAudit

/-- The largest index of an array. -/
def indexLimit : Nat := Nat.pow 2 64 - 1

/-- The value of a text of decimal digits. -/
def digitsValue (digits : List Char) : Nat :=
  digits.foldl (fun value d => 10 * value + (d.toNat - '0'.toNat)) 0

/-- The index written in decimal, a plus sign before it being allowed. -/
def readIndex (text : List Char) : Option Nat :=
  let digits := match text with
    | '+' :: rest => rest
    | _ => text
  if !digits.isEmpty && digits.all Char.isDigit && decide (digitsValue digits ≤ indexLimit) then
    some (digitsValue digits)
  else
    none

/-- A predicate whose path has not been read yet. -/
structure Condition where
  /-- The path inside an element, as written. -/
  property : List Char
  /-- The relation between the value and the literal. -/
  operator : Operator
  /-- The literal, without quotes. -/
  literal : List Char
deriving DecidableEq, Repr

/-- The operator that begins at this character, if it is outside brackets and quoted literals and
the text goes on with `=`. -/
def operatorAt (s : Scanner) (c : Char) (rest : List Char) : Option Operator :=
  if s.isPlain c && (s.next c).depth == 0 && rest.head? == some '=' then
    Operator.ofFirstChar c
  else
    none

/-- The text before the first operator outside brackets and quoted literals, the operator, and
the text after it. -/
def splitOperator (s : Scanner) : List Char → Option (List Char × Operator × List Char)
  | [] => none
  | c :: rest =>
    match operatorAt s c rest with
    | some operator => some ([], operator, rest.tail)
    | none => (splitOperator (s.next c) rest).map fun (before, found) => (c :: before, found)

/-- The text inside one pair of equal quote marks, or the text itself. -/
def unquote (literal : List Char) : List Char :=
  match literal with
  | mark :: rest =>
    if Scanner.isQuoteMark mark && rest.getLast? == some mark then rest.dropLast else literal
  | [] => literal

/-- The condition inside its wrapper `?( )` or `?`, if it has one. -/
def unwrap (text : List Char) : Option (List Char) :=
  match text with
  | '?' :: rest =>
    match trimStart rest with
    | '(' :: inner => if inner.getLast? == some ')' then some (trim inner.dropLast) else none
    | body => some body
  | _ => some text

/-- The condition between an operator found and the texts around it. -/
def Condition.ofParts (before : List Char) (operator : Operator) (after : List Char) :
    Option Condition :=
  if (trim before).isEmpty || (trim before).any isBlank || (trim after).isEmpty then
    none
  else
    some ⟨trim before, operator, unquote (trim after)⟩

/-- The condition that a trimmed bracket content states. -/
def readCondition (text : List Char) : Option Condition :=
  match unwrap text with
  | some ('@' :: '.' :: body) =>
    match splitOperator (Scanner.start 0) body with
    | some (before, operator, after) => Condition.ofParts before operator after
    | none => none
  | _ => none

/-! ### Sizes -/

/-- An operator has two characters between the parts that it divides. -/
theorem length_add_two_of_splitOperator {s : Scanner} {text before after : List Char}
    {operator : Operator} (h : splitOperator s text = some (before, operator, after)) :
  before.length + 2 + after.length = text.length
  := by
  induction text generalizing s before with
  | nil => simp [splitOperator] at h
  | cons c rest ih =>
    rw [splitOperator] at h
    split at h
    · rename_i ho
      cases h
      cases rest with
      | nil => simp [operatorAt] at ho
      | cons _ _ =>
        simp only [List.length_nil, List.length_cons, List.tail_cons]
        omega
    · obtain ⟨⟨inner, found⟩, hi, he⟩ := Option.map_eq_some_iff.mp h
      obtain ⟨rfl, rfl⟩ := Prod.mk.inj he
      have hl := ih hi
      simp only [List.length_cons]
      omega

/-- A condition is no longer than with its wrapper. -/
theorem length_le_of_unwrap {text body : List Char} (h : unwrap text = some body) :
  body.length ≤ text.length
  := by
  unfold unwrap at h
  split at h
  · rename_i rest
    have hs := length_trimStart_le rest
    split at h
    · rename_i inner hr
      split at h
      · cases h
        have ht := length_trim_le inner.dropLast
        have hd := @List.length_dropLast _ inner
        rw [hr] at hs
        simp only [List.length_cons] at hs ⊢
        omega
      · cases h
    · cases h
      simp only [List.length_cons]
      omega
  · cases h
    apply Nat.le_refl

/-- The path of a condition leaves room for `@.`, an operator and a literal. -/
theorem length_property_add_five_le {text : List Char} {condition : Condition}
    (h : readCondition text = some condition) :
  condition.property.length + 5 ≤ text.length
  := by
  unfold readCondition at h
  split at h
  · rename_i body hu
    split at h
    · rename_i before operator after hs
      rw [Condition.ofParts] at h
      split at h
      · cases h
      · rename_i hn
        cases h
        simp only [Bool.or_eq_true, List.isEmpty_iff, not_or] at hn
        have hw := length_le_of_unwrap hu
        have ho := length_add_two_of_splitOperator hs
        have hb := length_trim_le before
        have ha := length_trim_le after
        have hp := List.length_pos_iff.mpr hn.2
        simp only [List.length_cons] at hw
        show (trim before).length + 5 ≤ text.length
        omega
    · cases h
  · cases h

end JsonAudit
