import Columnar.Json.Amount
import Columnar.Number.FloatText

/-!
# JSON values with settled numbers

A number is kept as its text until it is asked for.  Settling a value asks for
all of them at once: a whole number that fits a 64-bit word stays as it is, and
any other becomes the text of the floating-point value it comes to.  Since that
value may miss the nearest one by a little, so may its text.

## Main definitions

* `Json.settle?` — a value with its numbers settled.
-/

namespace Columnar
namespace Json

/-- The text of what a number comes to, unless that is too large. -/
def settleNumber? (text : List Char) : Option (List Char) :=
  let a := Amount.ofText text
  if (a.nat? (2 ^ 64)).isSome || a.int?.isSome then some text
  else a.float?.map fun x => (FloatForm.json.render x).toList

mutual

/-- The value with its numbers settled, unless one of them is too large. -/
def settle? : Json → Option Json
  | null => some null
  | bool b => some (bool b)
  | number text => (settleNumber? text).map number
  | string text => some (string text)
  | array items => (settleItems? items).map array
  | object members => (settleMembers? members).map object

/-- The items of an array. -/
def settleItems? : List Json → Option (List Json)
  | [] => some []
  | v :: vs => do return (← settle? v) :: (← settleItems? vs)

/-- The members of an object. -/
def settleMembers? : List (Option String × Json) → Option (List (Option String × Json))
  | [] => some []
  | (k, v) :: ms => do return (k, ← settle? v) :: (← settleMembers? ms)

end

end Json
end Columnar
