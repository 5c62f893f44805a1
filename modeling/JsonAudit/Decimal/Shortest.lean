import JsonAudit.Decimal.Double

/-!
# Shortest decimals

`x.shortest tie` is the decimal with the fewest digits that lies among the reals which round to
`x`, and of those with so few digits the nearest to `x`; `tie` decides between two that are
equally near.  The reals which round to `x` are a `Window` around it.  The decimals are tried
on one grid `10 ^ e` after the other, from the place of the leading digit down, and on each
grid only the two neighbours of `x`: if a point of a grid lies in the window, so does one of
them.  Seventeen digits always suffice.
-/

namespace JsonAudit

/-- The choice between two decimals that are equally near. -/
inductive Tie where
  /-- The one with an even last digit. -/
  | toEven
  /-- The larger one. -/
  | up
deriving DecidableEq, Repr

/-- The number `coefficient * 10 ^ exponent`. -/
structure Decimal where
  coefficient : Nat
  exponent : Int
deriving DecidableEq, Repr

/-- The decimal without the zeros at the end of its coefficient. -/
def Decimal.normalize (d : Decimal) : Decimal :=
  if d.coefficient ≠ 0 ∧ d.coefficient % 10 = 0 then
    Decimal.normalize ⟨d.coefficient / 10, d.exponent + 1⟩
  else
    d
termination_by d.coefficient
decreasing_by
  show d.coefficient / 10 < d.coefficient
  omega

/-- The reals that round to a positive double, in units of `2 ^ scale`. -/
structure Window where
  /-- The lower end. -/
  low : Nat
  /-- The double itself. -/
  mid : Nat
  /-- The upper end. -/
  high : Nat
  /-- The exponent of the unit. -/
  scale : Int
  /-- The ends belong to the window. -/
  closed : Bool
deriving DecidableEq, Repr

/-- The reals that round to the absolute value of a double; the step below a power of two is
half the step above it. -/
def Double.window (x : Double) : Window where
  low := if x.fraction = 0 ∧ 1 < x.exponentField then 4 * x.significand - 1
    else 4 * x.significand - 2
  mid := 4 * x.significand
  high := 4 * x.significand + 2
  scale := x.exponent - 2
  closed := x.significand % 2 == 0

namespace Window

/-- The factor of a number of units in `units * factor = points * divisor`, on the grid
`10 ^ e`. -/
def factor (w : Window) (e : Int) : Nat := Nat.pow 2 w.scale.toNat * Nat.pow 10 (-e).toNat

/-- The divisor of a number of points in `units * factor = points * divisor`, on the grid
`10 ^ e`. -/
def divisor (w : Window) (e : Int) : Nat := Nat.pow 2 (-w.scale).toNat * Nat.pow 10 e.toNat

/-- The point of the grid `10 ^ e` lies in the window. -/
def has (w : Window) (e : Int) (point : Nat) : Bool :=
  let place := point * w.divisor e
  if w.closed then
    decide (w.low * w.factor e ≤ place) && decide (place ≤ w.high * w.factor e)
  else
    decide (w.low * w.factor e < place) && decide (place < w.high * w.factor e)

/-- The last point of the grid `10 ^ e` that is not above the double. -/
def below (w : Window) (e : Int) : Nat := w.mid * w.factor e / w.divisor e

/-- The point of the grid `10 ^ e` that is nearest to the double. -/
def nearest (w : Window) (tie : Tie) (e : Int) : Nat :=
  let point := w.below e
  match compare (2 * w.mid * w.factor e) ((2 * point + 1) * w.divisor e), tie with
  | .lt, _ => point
  | .gt, _ => point + 1
  | .eq, .toEven => point + point % 2
  | .eq, .up => point + 1

/-- The point of the grid `10 ^ e` in the window, if there is one. -/
def point? (w : Window) (tie : Tie) (e : Int) : Option Nat :=
  match w.has e (w.below e), w.has e (w.below e + 1) with
  | true, true => some (w.nearest tie e)
  | true, false => some (w.below e)
  | false, true => some (w.below e + 1)
  | false, false => none

/-- The exponent of the leading digit of the double. -/
def magnitude (w : Window) : Int :=
  let num := w.mid * Nat.pow 2 w.scale.toNat
  let den := Nat.pow 2 (-w.scale).toNat
  if den ≤ num then
    ((Nat.toDigits 10 (num / den)).length : Int) - 1
  else
    -((Nat.toDigits 10 (den / num)).length : Int)

/-- The first decimal in the window, on the grid `10 ^ e` or one of so many finer ones. -/
def firstFrom (w : Window) (tie : Tie) (e : Int) : Nat → Decimal
  | 0 => ⟨w.nearest tie e, e⟩
  | grids + 1 =>
    match w.point? tie e with
    | some point => ⟨point, e⟩
    | none => w.firstFrom tie (e - 1) grids

end Window

/-- The shortest decimal of the absolute value of a double. -/
def Double.shortest (x : Double) (tie : Tie) : Decimal :=
  if x.isZero then
    ⟨0, 0⟩
  else
    (x.window.firstFrom tie x.window.magnitude 16).normalize

end JsonAudit
