import Columnar.Number.Binary64

/-!
# The shortest decimal that reads back

Every decimal near a floating-point value rounds to it.  Among those with the
fewest digits the nearest one is printed.  The search walks the decimal grids
from coarse to fine and tests, on each, the two neighbours of the value in
exact natural arithmetic.

## Main definitions

* `Decimal.readsBack` — a decimal lies among the reals that round to a value.
* `Decimal.shortest` — the fewest digits that read back, the nearest of those.
-/

namespace Columnar

/-- The number `digits * 10 ^ exponent`. -/
structure Decimal where
  digits : Nat
  exponent : Int
deriving DecidableEq, Repr

namespace Decimal

/-- Which of two equally near decimals is taken. -/
inductive Tie where
  | toEven
  | up
deriving DecidableEq, Repr

/-- `a * 10 ^ i` against `m * 2 ^ q`. -/
def compareBinary (a : Nat) (i : Int) (m : Nat) (q : Int) : Ordering :=
  compare (a * 10 ^ i.toNat * 2 ^ (-q).toNat) (m * 2 ^ q.toNat * 10 ^ (-i).toNat)

/-- The decimal rounds to the finite positive magnitude of `x`: it lies between the midpoints to the
neighbours, which themselves round to the even one. -/
def readsBack (x : Binary64) (d : Decimal) : Bool :=
  let below := 4 * x.mantissa - if x.narrowBelow then 1 else 2
  let above := 4 * x.mantissa + 2
  let even := x.mantissa % 2 = 0
  let lower := compareBinary d.digits d.exponent below (x.scale - 2)
  let upper := compareBinary d.digits d.exponent above (x.scale - 2)
  (lower == .gt || (even && lower == .eq)) && (upper == .lt || (even && upper == .eq))

/-- The largest multiple of `10 ^ k` that is not above the magnitude of `x`. -/
def floorOn (x : Binary64) (k : Int) : Nat :=
  (x.mantissa * 2 ^ x.scale.toNat * 10 ^ (-k).toNat) / (10 ^ k.toNat * 2 ^ (-x.scale).toNat)

/-- The neighbour of the magnitude of `x` on the grid `10 ^ k` that reads back, the nearer if both
do. -/
def onGrid (tie : Tie) (x : Binary64) (k : Int) : Option Decimal :=
  let low := floorOn x k
  let down : Decimal := ⟨low, k⟩
  let up : Decimal := ⟨low + 1, k⟩
  match readsBack x down, readsBack x up with
  | false, false => none
  | true, false => some down
  | false, true => some up
  | true, true =>
    match compareBinary (2 * low + 1) k (2 * x.mantissa) x.scale with
    | .gt => some down
    | .lt => some up
    | .eq => some (if tie = .toEven ∧ low % 2 = 0 then down else up)

/-- A power of ten above the magnitude of `x`, and at most a few times too large. -/
def ceiling (x : Binary64) : Int := ((Nat.log2 x.mantissa : Int) + x.scale) * 30103 / 100000 + 2

/-- Trailing zeros move into the exponent; `n` bounds how many. -/
def stripped : Nat → Decimal → Decimal
  | 0, d => d
  | n + 1, d => if d.digits ≠ 0 ∧ d.digits % 10 = 0 then stripped n ⟨d.digits / 10, d.exponent + 1⟩ else d

/-- The shortest decimal that reads back as the finite positive magnitude of `x`.  Seventeen digits
are always enough; twenty grids cover them. -/
def shortest (tie : Tie) (x : Binary64) : Decimal :=
  let top := ceiling x
  match (List.range 20).findSome? fun n : Nat => onGrid tie x (top - n) with
  | some d => stripped 20 d
  | none => ⟨x.mantissa * 2 ^ x.scale.toNat * 5 ^ (-x.scale).toNat, min x.scale 0⟩

/-- The digits of the number, most significant first. -/
def digitChars (d : Decimal) : List Char := Nat.toDigits 10 d.digits

/-- The exponent of the first digit: the number is `f * 10 ^ leading` with `1 ≤ f < 10`. -/
def leading (d : Decimal) : Int := d.exponent + d.digitChars.length - 1

end Decimal
end Columnar
