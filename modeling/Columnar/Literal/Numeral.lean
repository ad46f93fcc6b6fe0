import Columnar.Number.Binary64
import Columnar.Text.Digits

/-!
# Floating-point literals

A literal is a sign, digits with at most one point among or around them, and an
optional exponent; or a sign and the word for infinity or for a NaN, in letters
of either case.  Its value is the nearest one.
-/

namespace Columnar
namespace Numeral

/-- The value of an exponent, with the `e` before it; no text at all is exponent zero. -/
def exponent? : List Char → Option Int
  | [] => some 0
  | c :: cs => if c = 'e' ∨ c = 'E' then Text.signed? cs else none

/-- The fraction after a point, if there is one, and the text after it. -/
def takeFraction : List Char → List Char × List Char
  | '.' :: cs => (cs.takeWhile Char.isDigit, cs.dropWhile Char.isDigit)
  | cs => ([], cs)

/-- The value of an unsigned decimal number. -/
def decimal? (negative : Bool) (cs : List Char) : Option Binary64 :=
  let whole := cs.takeWhile Char.isDigit
  let (fraction, rest) := takeFraction (cs.dropWhile Char.isDigit)
  if whole.isEmpty && fraction.isEmpty then none
  else (exponent? rest).map fun e =>
    Binary64.nearestDecimal negative (Text.ofDigits (whole ++ fraction)) (e - fraction.length)

/-- The value of a floating-point literal. -/
def float? (cs : List Char) : Option Binary64 :=
  let (negative, body) := Text.takeSign cs
  let word := String.ofList (body.map Char.toLower)
  if word = "inf" ∨ word = "infinity" then some (Binary64.infinity negative)
  else if word = "nan" then some (Binary64.nan negative)
  else decimal? negative body

end Numeral
end Columnar
