/-!
# Finite binary floating point numbers

The finite numbers of the 64-bit binary format, as exact dyadic fractions: a significand below
`2 ^ 53` times a power of two, counted in units of `2 ^ -1074`, the smallest positive number of the
format.  In these units every finite number is an integer, so numbers are compared as integers.

* `Binary64.units` — the number as a multiple of the unit.
* `Binary64.ofRatio?` — the nearest number of the format to a quotient, ties going to an even
  significand.
* `Binary64.ofBits?` — the number that a 64-bit word stands for.
-/

namespace Estate

/-- A finite number, `± significand · 2 ^ (shift - 1074)`. -/
structure Binary64 where
  negative : Bool
  significand : Nat
  shift : Nat
  deriving DecidableEq, Repr, Inhabited

/-- The nearest integer to a quotient; a half goes to the even neighbour. -/
def roundHalfEven (num den : Nat) : Nat :=
  let q := num / den
  let r := num % den
  if 2 * r < den then q
  else if den < 2 * r then q + 1
  else if q % 2 = 0 then q else q + 1

namespace Binary64

/-- The number as a multiple of `2 ^ -1074`. -/
def units (x : Binary64) : Int :=
  let magnitude : Int := ((x.significand <<< x.shift : Nat) : Int)
  if x.negative then -magnitude else magnitude

/-- Numbers are compared by value: the two zeros are equal. -/
def order (x y : Binary64) : Ordering :=
  compare x.units y.units

/-- Whether two numbers have the same value. -/
def same (x y : Binary64) : Bool :=
  x.units == y.units

/-- The number nearest to `num / den`, unless it is out of range. -/
def ofRatio? (negative : Bool) (num den : Nat) : Option Binary64 :=
  let scaled := num <<< 1074
  let shift := (scaled / den).log2 + 1 - 53
  let significand := roundHalfEven scaled (den <<< shift)
  let (significand, shift) :=
    if significand = 1 <<< 53 then (1 <<< 52, shift + 1) else (significand, shift)
  if shift ≤ 2045 then some ⟨negative, significand, shift⟩ else none

/-- The number nearest to an integer of at most 64 bits. -/
def ofInt (n : Int) : Binary64 :=
  (ofRatio? (decide (n < 0)) n.natAbs 1).getD ⟨decide (n < 0), 1 <<< 53 - 1, 2045⟩

/-- The number that a 64-bit word stands for, unless it is infinite or no number at all. -/
def ofBits? (bits : Nat) : Option Binary64 :=
  let negative := bits >>> 63 % 2 == 1
  let exponent := bits >>> 52 % 1 <<< 11
  let fraction := bits % 1 <<< 52
  if exponent = 2047 then none
  else if exponent = 0 then some ⟨negative, fraction, 0⟩
  else some ⟨negative, 1 <<< 52 + fraction, exponent - 1⟩

end Binary64

end Estate
