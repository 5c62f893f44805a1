import JsonAudit.Decimal.Shortest

/-!
# Written forms of numbers

A `Layout` holds the decisions of a format for numbers: which exponents are written out in
positional form, whether a whole number keeps `.0`, and how ties between shortest decimals go.
`Layout.json` is the form inside JSON text, `Layout.plain` the form inside messages.
-/

namespace JsonAudit

/-- The decisions of a format for numbers. -/
structure Layout where
  /-- The choice between shortest decimals. -/
  tie : Tie
  /-- The least and the greatest exponent of a leading digit in positional form; every exponent
  if absent. -/
  positional : Option (Int × Int)
  /-- Whole numbers in positional form end in `.0`. -/
  keepsPoint : Bool
deriving DecidableEq, Repr

namespace Layout

/-- JSON text writes leading digits from `10 ^ -5` to `10 ^ 15` in positional form, keeps `.0`,
and lets ties go to the even digit. -/
def json : Layout := ⟨.toEven, some (-5, 15), true⟩

/-- Messages write every number in positional form, whole ones without a point, and let ties go
up. -/
def plain : Layout := ⟨.up, none, false⟩

/-- The exponent is written out in positional form. -/
def isPositional (layout : Layout) (lead : Int) : Bool :=
  match layout.positional with
  | none => true
  | some (least, greatest) => decide (least ≤ lead) && decide (lead ≤ greatest)

/-- The digits with the point in their midst, after them, or before them; `lead` is the exponent
of the first digit. -/
def writePositional (layout : Layout) (digits : List Char) (lead : Int) : List Char :=
  if lead < 0 then
    ['0', '.'] ++ List.replicate (-lead - 1).toNat '0' ++ digits
  else
    let whole := lead.toNat + 1
    let tail := digits.drop whole
    digits.take whole ++ List.replicate (whole - digits.length) '0'
      ++ (if !tail.isEmpty then '.' :: tail else if layout.keepsPoint then ['.', '0'] else [])

/-- The digits with the point after the first one, and the exponent with its sign. -/
def writeScientific (digits : List Char) (lead : Int) : List Char :=
  let tail := digits.drop 1
  digits.take 1 ++ (if tail.isEmpty then [] else '.' :: tail)
    ++ ['e', if lead < 0 then '-' else '+'] ++ Nat.toDigits 10 lead.natAbs

/-- The written form of a number. -/
def write (layout : Layout) (x : Double) : String :=
  let decimal := x.shortest layout.tie
  let digits := Nat.toDigits 10 decimal.coefficient
  let lead := decimal.exponent + digits.length - 1
  let body :=
    if layout.isPositional lead then layout.writePositional digits lead
    else writeScientific digits lead
  String.ofList (if x.isNegative then '-' :: body else body)

/-! ### Samples: one, a tenth, `10 ^ 16`, the least double and minus zero -/

example : json.write ⟨0x3FF0000000000000⟩ = "1.0" := by decide +kernel

example : json.write ⟨0x3FB999999999999A⟩ = "0.1" := by decide +kernel

example : json.write ⟨0x4341C37937E08000⟩ = "1e+16" := by decide +kernel

example : json.write ⟨1⟩ = "5e-324" := by decide +kernel

example : json.write ⟨0x8000000000000000⟩ = "-0.0" := by decide +kernel

example : plain.write ⟨0x3FF0000000000000⟩ = "1" := by decide +kernel

example : plain.write ⟨0x4341C37937E08000⟩ = "10000000000000000" := by decide +kernel

end Layout

end JsonAudit
