import Columnar.Kind
import Columnar.Number.Binary64
import Columnar.Number.FloatText
import Columnar.Text.Quoted

/-!
# Values

A value is tagged by the way it is stored.  Cells of rows, entries of columns
and typed defaults are all values.

## Main definitions

* `Value.storage` — the tag.
* `Value.zero` — what a page stores in place of a value that is not there.
* `Value.eqv` — equality in the sense of arithmetic.
* `Value.describe` — how messages show a value.
-/

namespace Columnar

/-- A stored value. -/
inductive Value where
  | uint (n : UInt64)
  | int (n : Int64)
  | float (x : Binary64)
  | bool (b : Bool)
  | text (s : String)
  | bytes (bs : List UInt8)
deriving DecidableEq, Repr, Inhabited

namespace Value

/-- How the value is stored. -/
def storage : Value → Storage
  | uint _ => .uint
  | int _ => .int
  | float _ => .float
  | bool _ => .bool
  | text _ => .text
  | bytes _ => .bytes

/-- The placeholder of a storage. -/
def zero : Storage → Value
  | .uint => uint 0
  | .int => int 0
  | .float => float .zero
  | .bool => bool false
  | .text => text ""
  | .bytes => bytes []

@[simp] theorem storage_zero (s : Storage) : (zero s).storage = s := by cases s <;> rfl

/-- Equality in the sense of arithmetic: it differs from equality at floating-point values only. -/
def eqv : Value → Value → Bool
  | float x, float y => x.eqv y
  | v, w => v == w

/-! ### Reading a value under one storage -/

def asUint? : Value → Option UInt64
  | uint n => some n
  | _ => none

def asInt? : Value → Option Int64
  | int n => some n
  | _ => none

def asFloat? : Value → Option Binary64
  | float x => some x
  | _ => none

def asBool? : Value → Option Bool
  | bool b => some b
  | _ => none

def asText? : Value → Option String
  | text s => some s
  | _ => none

def asBytes? : Value → Option (List UInt8)
  | bytes bs => some bs
  | _ => none

/-! ### Values in messages -/

/-- A value as messages show it: its tag and, in parentheses, what it holds. -/
def describe : Value → String
  | uint n => "Uint(" ++ toString n.toNat ++ ")"
  | int n => "Int(" ++ toString n.toInt ++ ")"
  | float x => "Float(" ++ FloatForm.message.render x ++ ")"
  | bool b => "Bool(" ++ (if b then "true" else "false") ++ ")"
  | text s => "Str(" ++ Text.quoted s ++ ")"
  | bytes bs => "Bytes([" ++ String.intercalate ", " (bs.map fun b => toString b.toNat) ++ "])"

end Value
end Columnar
