/-!
# Double-precision numbers

A finite double is held by its sixty-four bits, so that its equality is decided and `-0` is
kept.  Its absolute value is `x.significand * 2 ^ x.exponent`.  `Double.same` is equality of
values, for which the two zeros are one.  `Double.ofInt` rounds to nearest, and
`Double.ofDecimal` scales a significand by a power of ten in floating-point steps; the result
is the nearest double when the significand is below `2 ^ 53` and the power at most `10 ^ 22`,
and may be off by a few units in the last place elsewhere.
-/

namespace JsonAudit

/-- A finite double-precision number, by its bits. -/
structure Double where
  bits : UInt64
deriving DecidableEq, Repr

namespace Double

/-- The number with the value of a machine float. -/
def ofFloat (f : Float) : Double := ⟨f.toBits⟩

/-- The machine float of the number. -/
def toFloat (x : Double) : Float := Float.ofBits x.bits

/-- The sign bit is set. -/
def isNegative (x : Double) : Bool := decide (Nat.pow 2 63 ≤ x.bits.toNat)

/-- The eleven bits of the exponent. -/
def exponentField (x : Double) : Nat := x.bits.toNat / Nat.pow 2 52 % Nat.pow 2 11

/-- The fifty-two bits of the fraction. -/
def fraction (x : Double) : Nat := x.bits.toNat % Nat.pow 2 52

/-- The integer that the power of two scales: the fraction, below the implicit bit if there is
one. -/
def significand (x : Double) : Nat :=
  if x.exponentField = 0 then x.fraction else Nat.pow 2 52 + x.fraction

/-- The exponent of the power of two. -/
def exponent (x : Double) : Int := (max x.exponentField 1 : Int) - 1075

/-- The number is `0` or `-0`. -/
def isZero (x : Double) : Bool := x.significand == 0

/-- The numbers have one value. -/
def same (x y : Double) : Bool := x == y || (x.isZero && y.isZero)

/-- A number has the value of itself. -/
theorem same_refl (x : Double) :
  x.same x = true
  := by
  simp [same]

/-- The order of two numbers does not matter to whether they have one value. -/
theorem same_comm (x y : Double) :
  x.same y = y.same x
  := by
  rw [same, same, Bool.and_comm, Bool.beq_comm]

/-! ### From integers -/

/-- The double nearest to an integer of at most sixty-four bits, with a sign of its own. -/
def ofNat (negative : Bool) (n : Nat) : Double :=
  let f := (UInt64.ofNat n).toFloat
  ofFloat (if negative then -f else f)

/-- The double nearest to an integer of at most sixty-four bits. -/
def ofInt (n : Int) : Double := ofNat (decide (n < 0)) n.natAbs

/-! ### From decimals -/

/-- The double nearest to a power of ten. -/
def powerOfTen (e : Nat) : Float := Float.ofScientific 1 false e

/-- The largest exponent of a power of ten that is a double. -/
def largestPower : Nat := 308

/-- The float divided by the power of ten, the largest power at a time. -/
def divideByPower (f : Float) (e : Nat) : Float :=
  if _ : e ≤ largestPower then
    f / powerOfTen e
  else if f == 0 then
    f
  else
    divideByPower (f / powerOfTen largestPower) (e - largestPower)
termination_by e
decreasing_by
  simp only [largestPower] at *
  omega

/-- The float times the power of ten, unless it is out of range. -/
def multiplyByPower (f : Float) (e : Nat) : Option Float :=
  if e ≤ largestPower then
    let product := f * powerOfTen e
    if product.isInf then none else some product
  else if f == 0 then
    some f
  else
    none

/-- The number `significand * 10 ^ exponent` with its sign, unless it is out of range. -/
def ofDecimal (negative : Bool) (significand : Nat) (exponent : Int) : Option Double :=
  let f := (UInt64.ofNat significand).toFloat
  let scaled :=
    if exponent < 0 then some (divideByPower f exponent.natAbs)
    else multiplyByPower f exponent.natAbs
  scaled.map fun f => ofFloat (if negative then -f else f)

end Double

end JsonAudit
