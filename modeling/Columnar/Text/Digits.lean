/-!
# Digits

Numbers in text: how many digits may be taken off its front, and what they spell.

## Main definitions

* `Text.ofDigits` — the number that decimal digits spell.
* `Text.hexValue?` — the value of a hexadecimal digit.
* `Text.takeDigits` — digits off the front of a text.
* `Text.unsigned?`, `Text.signed?` — whole texts that are numbers.
-/

namespace Columnar
namespace Text

/-- The value of a digit. -/
def digitValue (c : Char) : Nat := c.toNat - 48

/-- The value of a hexadecimal digit of either case. -/
def hexValue? (c : Char) : Option Nat :=
  if '0' ≤ c ∧ c ≤ '9' then some (c.toNat - 48)
  else if 'a' ≤ c ∧ c ≤ 'f' then some (c.toNat - 87)
  else if 'A' ≤ c ∧ c ≤ 'F' then some (c.toNat - 55)
  else none

/-- The number that decimal digits spell, the first one most significant. -/
def ofDigits (ds : List Char) : Nat := ds.foldl (fun n c => 10 * n + digitValue c) 0

/-- At least `least` and at most `most` digits, and the text after them. -/
def takeDigits (least most : Nat) (cs : List Char) : Option (List Char × List Char) :=
  let ds := (cs.take most).takeWhile Char.isDigit
  if ds.length < least then none else some (ds, cs.drop ds.length)

/-- The text after a character that has to come first. -/
def expect (c : Char) : List Char → Option (List Char)
  | d :: cs => if d = c then some cs else none
  | [] => none

/-- The sign at the front of a text, negative or not, and the text after it. -/
def takeSign : List Char → Bool × List Char
  | '-' :: cs => (true, cs)
  | '+' :: cs => (false, cs)
  | cs => (false, cs)

/-- The number that a text spells in nothing but digits. -/
def digits? (cs : List Char) : Option Nat :=
  if cs.isEmpty || !cs.all Char.isDigit then none else some (ofDigits cs)

/-- The number that a text spells in an optional plus sign and digits. -/
def unsigned? : List Char → Option Nat
  | '+' :: cs => digits? cs
  | cs => digits? cs

/-- The number that a text spells in an optional sign and digits. -/
def signed? (cs : List Char) : Option Int :=
  let (negative, ds) := takeSign cs
  (digits? ds).map fun n => if negative then -n else n

end Text
end Columnar
