import Columnar.Text.Digits
import Columnar.Text.Utf8

/-!
# Byte literals

After `0x` a literal spells bytes in pairs of hexadecimal digits; any other text
stands for its UTF-8 bytes.  In a pair the first digit may be a plus sign, which
stands for no digit at all.
-/

namespace Columnar
namespace HexBytes

/-- The byte that two characters spell. -/
def pair? (a b : Char) : Option UInt8 :=
  if a = '+' then (Text.hexValue? b).map UInt8.ofNat
  else do
    let high ← Text.hexValue? a
    let low ← Text.hexValue? b
    return UInt8.ofNat (16 * high + low)

/-- The bytes that pairs of characters spell. -/
def pairs? : List Char → Option (List UInt8)
  | [] => some []
  | [_] => none
  | a :: b :: rest => do
    let byte ← pair? a b
    let bytes ← pairs? rest
    return byte :: bytes

/-- The bytes of a literal. -/
def parse? : List Char → Option (List UInt8)
  | '0' :: 'x' :: rest => pairs? rest
  | cs => some (Utf8.encode (String.ofList cs))

end HexBytes
end Columnar
