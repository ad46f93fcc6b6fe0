import Columnar.Number.Power

/-!
# Binary64 values

A floating-point value is kept as its 64 bits, so that a NaN keeps its payload
and two values are the same value exactly when their bits agree.  Comparison in
the sense of arithmetic is a separate relation, `Binary64.eqv`.

## Main definitions

* `Binary64.mantissa`, `Binary64.scale` — a finite magnitude is
  `mantissa * 2 ^ scale`.
* `Binary64.nearest` — the value nearest to a quotient of naturals, a tie going
  to the even neighbour.
* `Binary64.nearestDecimal` — the value nearest to `digits * 10 ^ exponent`.
-/

namespace Columnar

/-- A floating-point value, given by its bits. -/
structure Binary64 where
  bits : UInt64
deriving DecidableEq, Repr, Inhabited

namespace Binary64

/-! ### Taking a value apart -/

/-- The sign bit. -/
def isNegative (x : Binary64) : Bool := 2 ^ 63 ≤ x.bits.toNat

/-- All bits but the sign. -/
def magnitude (x : Binary64) : Nat := x.bits.toNat % 2 ^ 63

/-- The magnitude of infinity; every larger one is a NaN. -/
def infinite : Nat := 0x7ff * 2 ^ 52

def isNaN (x : Binary64) : Bool := infinite < x.magnitude

def isInfinite (x : Binary64) : Bool := x.magnitude = infinite

def isZero (x : Binary64) : Bool := x.magnitude = 0

/-- The integer part of a finite magnitude in units of `2 ^ scale`. -/
def mantissa (x : Binary64) : Nat :=
  if x.magnitude < 2 ^ 52 then x.magnitude else x.magnitude % 2 ^ 52 + 2 ^ 52

/-- The binary exponent of the last place of a finite magnitude. -/
def scale (x : Binary64) : Int := max (x.magnitude / 2 ^ 52 : Nat) 1 - 1075

/-- Just above a power of two the neighbour below is half as far away as the one above. -/
def narrowBelow (x : Binary64) : Bool :=
  x.magnitude % 2 ^ 52 = 0 ∧ 2 ^ 53 ≤ x.magnitude

/-- Equality of arithmetic: a NaN differs from everything, the two zeros are equal. -/
def eqv (x y : Binary64) : Bool :=
  !x.isNaN && !y.isNaN && (x.bits == y.bits || (x.isZero && y.isZero))

/-! ### Putting a value together -/

/-- A value from its sign and magnitude. -/
def ofMagnitude (negative : Bool) (magnitude : Nat) : Binary64 :=
  ⟨UInt64.ofNat (magnitude + if negative then 2 ^ 63 else 0)⟩

/-- Positive zero. -/
def zero : Binary64 := ⟨0⟩

/-- The NaN that reading the text of a NaN gives. -/
def nan (negative : Bool) : Binary64 := ofMagnitude negative (infinite + 2 ^ 51)

def infinity (negative : Bool) : Binary64 := ofMagnitude negative infinite

/-- `num / den` rounded to an integer, a tie going to the even neighbour. -/
def roundedQuotient (num den : Nat) : Nat :=
  let q := num / den
  let r := num % den
  if 2 * r < den ∨ (2 * r = den ∧ q % 2 = 0) then q else q + 1

/-- `num / den / 2 ^ q` as a quotient of naturals. -/
def rescaled (num den : Nat) (q : Int) : Nat × Nat :=
  (num * 2 ^ (-q).toNat, den * 2 ^ q.toNat)

/-- The scale at which `num / den` has 53 binary digits, or the least scale there is. -/
def scaleOf (num den : Nat) : Int :=
  let low := max (-1074) ((Nat.log2 num : Int) - Nat.log2 den - 53)
  let (n, d) := rescaled num den low
  if n / d < 2 ^ 53 then low else low + 1

/-- The value nearest to `num / den`; too large a quotient gives infinity. -/
def nearest (negative : Bool) (num den : Nat) : Binary64 :=
  if num = 0 then ofMagnitude negative 0 else
    let q := scaleOf num den
    let (n, d) := rescaled num den q
    -- a mantissa that is rounded up to a power of two carries into the exponent
    ofMagnitude negative (min infinite ((q + 1074).toNat * 2 ^ 52 + roundedQuotient n d))

/-- The value nearest to `digits * 10 ^ exponent`.  Numbers beyond `10 ^ 400` and below `10 ^ (-400)`
are past either end of the range, so their powers of ten are never computed. -/
def nearestDecimal (negative : Bool) (digits : Nat) (exponent : Int) : Binary64 :=
  let places : Int := Nat.log2 digits * 3 / 10 + exponent
  if digits = 0 then ofMagnitude negative 0
  else if 400 < places then infinity negative
  else if places + Nat.log2 digits < -400 then ofMagnitude negative 0
  else nearest negative (digits * 10 ^ exponent.toNat) (10 ^ (-exponent).toNat)

/-- The value nearest to a natural number. -/
def ofNat (n : Nat) : Binary64 := nearest false n 1

/-- The value with the opposite sign. -/
def neg (x : Binary64) : Binary64 := ofMagnitude (!x.isNegative) x.magnitude

/-- The nearest value to the product of two finite non-negative values. -/
def mul (x y : Binary64) : Binary64 :=
  let q := x.scale + y.scale
  nearest false (x.mantissa * y.mantissa * 2 ^ q.toNat) (2 ^ (-q).toNat)

/-- The nearest value to the quotient of two finite non-negative values, the second positive. -/
def div (x y : Binary64) : Binary64 :=
  let q := x.scale - y.scale
  nearest false (x.mantissa * 2 ^ q.toNat) (y.mantissa * 2 ^ (-q).toNat)

end Binary64
end Columnar
