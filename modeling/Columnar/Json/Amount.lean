import Columnar.Json
import Columnar.Number.Binary64

/-!
# What a JSON number comes to

Whole numbers are exact and have to fit.  For a floating-point value the digits
are gathered into a 64-bit number as far as they fit and the rest of the integer
part only counts; the result is then scaled by a power of ten, with a rounding at
each of the two steps.  So a long number may miss the nearest value by a little.

## Main definitions

* `Amount.ofText` — the parts of a number.
* `Amount.nat?`, `Amount.int?` — whole numbers in range.
* `Amount.float?` — floating-point values.
-/

namespace Columnar

/-- The parts of a number. -/
structure Amount where
  negative : Bool
  whole : List Char
  /-- The digits after the point. -/
  places : List Char
  /-- There is a point or an exponent. -/
  isFractional : Bool
  exponent : Int
deriving Repr

namespace Amount

/-- The parts of the text of a number. -/
def ofText (cs : List Char) : Amount :=
  let (negative, cs) := Text.takeSign cs
  let whole := cs.takeWhile Char.isDigit
  let rest := cs.drop whole.length
  let places := match rest with
    | '.' :: ds => ds.takeWhile Char.isDigit
    | _ => []
  let exponent := (rest.dropWhile fun c => c.isDigit || c == '.').drop 1
  ⟨negative, whole, places, !rest.isEmpty, (Text.signed? exponent).getD 0⟩

/-- A natural number below a bound. -/
def nat? (a : Amount) (bound : Nat) : Option Nat :=
  let n := Text.ofDigits a.whole
  if !a.isFractional && !a.negative && n < bound then some n else none

/-- A signed 64-bit number; minus zero is none. -/
def int? (a : Amount) : Option Int64 :=
  let n := Text.ofDigits a.whole
  if a.isFractional then none
  else if a.negative then (if 0 < n ∧ n ≤ 2 ^ 63 then some (Int64.ofInt (-n)) else none)
  else if n < 2 ^ 63 then some (Int64.ofNat n)
  else none

/-- Digits put behind a number while it stays below `2 ^ 64`, and how many are left over. -/
def gather (n : Nat) : List Char → Nat × Nat
  | [] => (n, 0)
  | c :: cs =>
    let n' := 10 * n + Text.digitValue c
    if n' < 2 ^ 64 then gather n' cs else (n, cs.length + 1)

/-- A power of ten that has a floating-point value. -/
def power (n : Nat) : Binary64 := Binary64.nearestDecimal false 1 n

/-- A magnitude times a power of ten, unless it is too large. -/
def scaled (x : Binary64) (exponent : Int) : Option Binary64 :=
  if x.isZero then some x
  else if 308 < exponent then none
  else if 0 ≤ exponent then
    let y := x.mul (power exponent.toNat)
    if y.isInfinite then none else some y
  else if -308 ≤ exponent then some (x.div (power (-exponent).toNat))
  else scaled (x.div (power 308)) (exponent + 308)
termination_by (-exponent).toNat

/-- A floating-point value, unless it is too large. -/
def float? (a : Amount) : Option Binary64 :=
  let (n, lost) := gather 0 a.whole
  let (n, skipped) := gather n a.places
  let exponent : Int := a.exponent + lost - (a.places.length - skipped : Nat)
  (scaled (Binary64.ofNat n) exponent).map fun x => if a.negative then x.neg else x

end Amount
end Columnar
