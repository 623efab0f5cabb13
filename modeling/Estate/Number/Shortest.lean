import Estate.Number.Binary64

/-!
# The shortest decimal that reads back

A decimal reads back as a binary number when it lies in the interval of reals that round to that
number; the ends belong to the interval when the significand is even.  `Binary64.shortest` looks on
the grids of decimals with one, two, … seventeen digits and takes the first grid with a point in the
interval.  Of two such points it takes the nearer one.

If any point of a grid lies in the interval, then so does one of the two neighbours of the number on
that grid, so that only these are tried.
-/

namespace Estate

/-- The decimal `coefficient · 10 ^ exponent`. -/
structure Decimal where
  coefficient : Nat
  exponent : Int
  deriving DecidableEq, Repr, Inhabited

/-- The decimal digits of a number, most significant first. -/
def digitsOf (n : Nat) : List Char :=
  Nat.toDigits 10 n

namespace Decimal

/-- Moves trailing zeros of the coefficient into the exponent, at most `fuel` of them. -/
def trim : Nat → Decimal → Decimal
  | 0, d => d
  | fuel + 1, d =>
    if d.coefficient ≠ 0 ∧ d.coefficient % 10 = 0 then
      trim fuel ⟨d.coefficient / 10, d.exponent + 1⟩
    else d

/-- A decimal as a fraction. -/
def ratio (d : Decimal) : Nat × Nat :=
  if 0 ≤ d.exponent then (d.coefficient * Nat.pow 10 d.exponent.toNat, 1)
  else (d.coefficient, Nat.pow 10 (-d.exponent).toNat)

end Decimal

/-- The exponent of the leading decimal digit of `num / den`, both positive. -/
def leadingExponent (num den : Nat) : Int :=
  if den ≤ num then ((digitsOf (num / den)).length : Int) - 1
  else -((digitsOf ((den - 1) / num)).length : Int)

namespace Binary64

/-- The denominator of the quarter units in which the interval of a number is measured. -/
def quarter : Nat :=
  4 <<< 1074

/-- The least and the greatest real that round to a positive number, in quarter units.  Below a
power of two the numbers of the format lie twice as close. -/
def interval (x : Binary64) : Nat × Nat :=
  let below := if x.significand = 1 <<< 52 ∧ 0 < x.shift then 1 else 2
  ((4 * x.significand - below) <<< x.shift, (4 * x.significand + 2) <<< x.shift)

/-- Whether a decimal reads back as a positive number. -/
def readsBack (x : Binary64) (d : Decimal) : Bool :=
  let (num, den) := d.ratio
  let point := num * quarter
  let (least, greatest) := x.interval
  if x.significand % 2 = 0 then least * den ≤ point && point ≤ greatest * den
  else least * den < point && point < greatest * den

/-- How far a decimal lies from a positive number, in units that are the same for all decimals of
one exponent. -/
def distance (x : Binary64) (d : Decimal) : Nat :=
  let (num, den) := d.ratio
  let point : Int := num * quarter
  let value : Int := ((4 * x.significand) <<< x.shift : Nat) * den
  (point - value).natAbs

/-- The two neighbours of a positive number among the decimals of `n` digits. -/
def neighbours (x : Binary64) (n : Nat) : Decimal × Decimal :=
  let num := x.significand <<< x.shift
  let den := 1 <<< 1074
  let exponent := leadingExponent num den - n + 1
  let floor :=
    if 0 ≤ exponent then num / (den * Nat.pow 10 exponent.toNat)
    else num * Nat.pow 10 (-exponent).toNat / den
  (⟨floor, exponent⟩, ⟨floor + 1, exponent⟩)

/-- The decimal of `n` digits that stands for a positive number, if one reads back. -/
def onGrid? (x : Binary64) (n : Nat) : Option Decimal :=
  let (low, high) := x.neighbours n
  match x.readsBack low, x.readsBack high with
  | false, false => none
  | true, false => some low
  | false, true => some high
  | true, true =>
    if x.distance low < x.distance high then some low
    else if x.distance high < x.distance low then some high
    else if low.coefficient % 2 = 0 then some low else some high

/-- The shortest decimal that reads back as the magnitude of a number. -/
def shortest (x : Binary64) : Decimal :=
  if x.significand = 0 then ⟨0, 0⟩
  else
    match (List.range 17).findSome? fun n => x.onGrid? (n + 1) with
    | some d => d.trim 20
    | none => ⟨0, 0⟩

end Binary64

end Estate
