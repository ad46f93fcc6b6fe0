import Columnar.Json

/-!
# Reading JSON

Text is first cut into tokens.  A single pass over the tokens, with a stack of
the arrays and objects that are open, then builds the value.

## Main definitions

* `Json.tokens?` — the tokens of a text.
* `Json.Phase`, `Json.Phase.next?` — the pass over the tokens.
* `Json.parse?` — the value that a text spells.
-/

namespace Columnar
namespace Json

inductive Token where
  | openArray
  | closeArray
  | openObject
  | closeObject
  | comma
  | colon
  | null
  | bool (b : Bool)
  | number (text : List Char)
  | string (text : Option String)
deriving Repr

/-! ### Strings -/

/-- The code unit that four hexadecimal digits spell. -/
def unit? (a b c d : Char) : Option Nat := do
  let a ← Text.hexValue? a
  let b ← Text.hexValue? b
  let c ← Text.hexValue? c
  let d ← Text.hexValue? d
  return 4096 * a + 256 * b + 16 * c + d

/-- The character that a one-letter escape stands for. -/
def escaped? : Char → Option Char
  | '"' => some '"'
  | '\\' => some '\\'
  | '/' => some '/'
  | 'b' => some '\x08'
  | 'f' => some '\x0c'
  | 'n' => some '\n'
  | 'r' => some '\r'
  | 't' => some '\t'
  | _ => none

/-- The UTF-16 code units of the inside of a string, and the text after its closing mark. -/
def takeUnits : List Char → Option (List (Char ⊕ Nat) × List Char)
  | [] => none
  | '"' :: rest => some ([], rest)
  | '\\' :: 'u' :: a :: b :: c :: d :: rest => do
    let u ← unit? a b c d
    let (units, rest) ← takeUnits rest
    return (.inr u :: units, rest)
  | '\\' :: e :: rest => do
    let c ← escaped? e
    let (units, rest) ← takeUnits rest
    return (.inl c :: units, rest)
  | c :: rest =>
    if c = '\\' ∨ c.toNat < 32 then none else do
      let (units, rest) ← takeUnits rest
      return (.inl c :: units, rest)

/-- The characters of a string, surrogate pairs put together.  Half a pair has no character. -/
def joinUnits : List (Char ⊕ Nat) → Option (List Char)
  | [] => some []
  | .inl c :: rest => (joinUnits rest).map (c :: ·)
  | .inr u :: rest =>
    if u < 0xd800 ∨ 0xe000 ≤ u then (joinUnits rest).map (Char.ofNat u :: ·)
    else match rest with
      | .inr v :: rest =>
        if u < 0xdc00 ∧ 0xdc00 ≤ v ∧ v < 0xe000 then
          (joinUnits rest).map (Char.ofNat (0x10000 + (u - 0xd800) * 0x400 + (v - 0xdc00)) :: ·)
        else none
      | _ => none

/-! ### Numbers -/

/-- Digits, at least one. -/
def takeDigits? (cs : List Char) : Option (List Char × List Char) :=
  let ds := cs.takeWhile Char.isDigit
  if ds.isEmpty then none else some (ds, cs.drop ds.length)

/-- The integer part of a number: no zero before other digits. -/
def takeWhole? : List Char → Option (List Char × List Char)
  | '0' :: cs => if (cs.head?.any Char.isDigit) then none else some (['0'], cs)
  | cs => takeDigits? cs

/-- A point and digits, or nothing. -/
def takePlaces? : List Char → Option (List Char × List Char)
  | '.' :: cs => do
    let (ds, rest) ← takeDigits? cs
    return ('.' :: ds, rest)
  | cs => some ([], cs)

/-- An exponent, or nothing. -/
def takeExponent? : List Char → Option (List Char × List Char)
  | e :: cs =>
    if e = 'e' ∨ e = 'E' then
      match cs with
      | s :: rest =>
        if s = '+' ∨ s = '-' then do
          let (ds, rest) ← takeDigits? rest
          return (e :: s :: ds, rest)
        else do
          let (ds, rest) ← takeDigits? cs
          return (e :: ds, rest)
      | [] => none
    else some ([], e :: cs)
  | [] => some ([], [])

/-- A number without its sign. -/
def takeNumber? (cs : List Char) : Option (List Char × List Char) := do
  let (whole, cs) ← takeWhole? cs
  let (places, cs) ← takePlaces? cs
  let (exponent, cs) ← takeExponent? cs
  return (whole ++ places ++ exponent, cs)

/-! ### Tokens -/

def isSpace (c : Char) : Bool := c == ' ' || c == '\n' || c == '\t' || c == '\r'

/-- The token at the front of a text that starts with no blank. -/
def takeToken? : List Char → Option (Token × List Char)
  | '[' :: cs => some (.openArray, cs)
  | ']' :: cs => some (.closeArray, cs)
  | '\x7b' :: cs => some (.openObject, cs)
  | '\x7d' :: cs => some (.closeObject, cs)
  | ',' :: cs => some (.comma, cs)
  | ':' :: cs => some (.colon, cs)
  | 'n' :: 'u' :: 'l' :: 'l' :: cs => some (.null, cs)
  | 't' :: 'r' :: 'u' :: 'e' :: cs => some (.bool true, cs)
  | 'f' :: 'a' :: 'l' :: 's' :: 'e' :: cs => some (.bool false, cs)
  | '"' :: cs => do
    let (units, rest) ← takeUnits cs
    return (.string ((joinUnits units).map String.ofList), rest)
  | '-' :: cs => do
    let (text, rest) ← takeNumber? cs
    return (.number ('-' :: text), rest)
  | cs => do
    let (text, rest) ← takeNumber? cs
    return (.number text, rest)

/-- The tokens of a text.  Every token takes at least one character, so the search ends. -/
def tokens? (cs : List Char) : Option (List Token) :=
  let cs' := cs.dropWhile isSpace
  if cs'.isEmpty then some [] else do
    let (token, rest) ← takeToken? cs'
    if rest.length < cs.length then
      let more ← tokens? rest
      return token :: more
    else none
termination_by cs.length

/-! ### From tokens to a value -/

/-- An array or object that is open, its entries so far in reverse.  In an object the name of the
next member is known. -/
inductive Open where
  | array (items : List Json)
  | object (members : List (Option String × Json)) (key : Option String)

/-- What the next token may be. -/
inductive Phase where
  /-- A value, or the end of an array that has just been opened. -/
  | value (stack : List Open) (fresh : Bool)
  /-- The name of a member, or the end of an object that has just been opened. -/
  | name (stack : List Open) (members : List (Option String × Json)) (fresh : Bool)
  /-- The colon after a name. -/
  | colon (stack : List Open) (members : List (Option String × Json)) (key : Option String)
  /-- What follows a value. -/
  | after (stack : List Open) (v : Json)

namespace Phase

/-- The phase after one more token. -/
def next? : Phase → Token → Option Phase
  | value stack _, .null => some (after stack .null)
  | value stack _, .bool b => some (after stack (.bool b))
  | value stack _, .number text => some (after stack (.number text))
  | value stack _, .string text => some (after stack (.string text))
  | value stack _, .openArray => some (value (.array [] :: stack) true)
  | value stack _, .openObject => some (name stack [] true)
  | value (.array [] :: stack) true, .closeArray => some (after stack (.array []))
  | name stack members _, .string key => some (colon stack members key)
  | name stack [] true, .closeObject => some (after stack (.object []))
  | colon stack members key, .colon => some (value (.object members key :: stack) false)
  | after (.array items :: stack) v, .comma => some (value (.array (v :: items) :: stack) false)
  | after (.array items :: stack) v, .closeArray => some (after stack (.array (v :: items).reverse))
  | after (.object members key :: stack) v, .comma => some (name stack ((key, v) :: members) false)
  | after (.object members key :: stack) v, .closeObject =>
    some (after stack (.object ((key, v) :: members).reverse))
  | _, _ => none

end Phase

/-- The value that a text spells. -/
def parse? (text : String) : Option Json := do
  let tokens ← tokens? text.toList
  match ← tokens.foldlM Phase.next? (.value [] false) with
  | .after [] v => some v
  | _ => none

end Json
end Columnar
