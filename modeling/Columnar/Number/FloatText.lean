import Columnar.Number.Shortest

/-!
# Text of floating-point values

Two forms of one printer: numbers in messages, and numbers in JSON text.  Both
write the shortest digits that read back; they differ in the range of exponents
that are written positionally and in how a tie between two shortest decimals
goes.
-/

namespace Columnar

/-- The decisions of a floating-point text form. -/
structure FloatForm where
  /-- The least exponent of a first digit that is written positionally. -/
  least : Int
  /-- The greatest one. -/
  greatest : Int
  tie : Decimal.Tie

namespace FloatForm

/-- Messages: positional from `10 ^ (-4)` to below `10 ^ 16`, ties up. -/
def message : FloatForm := ⟨-4, 15, .up⟩

/-- JSON text: positional from `10 ^ (-5)` to below `10 ^ 16`, ties to even. -/
def json : FloatForm := ⟨-5, 15, .toEven⟩

/-- Digits and exponent in positional notation, with at least one place after the point. -/
def positional (digits : List Char) (leading : Int) : List Char :=
  if leading < 0 then
    '0' :: '.' :: (List.replicate (-leading - 1).toNat '0' ++ digits)
  else
    let whole := leading.toNat + 1
    if digits.length ≤ whole then
      digits ++ List.replicate (whole - digits.length) '0' ++ ['.', '0']
    else
      digits.take whole ++ '.' :: digits.drop whole

/-- Digits and exponent in scientific notation: the exponent has no plus sign and no padding. -/
def scientific (digits : List Char) (leading : Int) : List Char :=
  let fraction := match digits.drop 1 with
    | [] => []
    | more => '.' :: more
  digits.take 1 ++ fraction ++ 'e' :: (toString leading).toList

/-- The text of a magnitude. -/
def magnitude (form : FloatForm) (x : Binary64) : List Char :=
  if x.isZero then ['0', '.', '0'] else
    let d := Decimal.shortest form.tie x
    if form.least ≤ d.leading ∧ d.leading ≤ form.greatest then
      positional d.digitChars d.leading
    else
      scientific d.digitChars d.leading

/-- The text of a value. -/
def render (form : FloatForm) (x : Binary64) : String :=
  if x.isNaN then "NaN" else
    let body := if x.isInfinite then ['i', 'n', 'f'] else form.magnitude x
    String.ofList (if x.isNegative then '-' :: body else body)

end FloatForm
end Columnar
