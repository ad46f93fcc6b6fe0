import Columnar.Text.Digits
import Columnar.Text.Quoted

/-!
# JSON values and their text

Schemas are exchanged as JSON.  A number is kept as its text, because what it
comes to depends on what is asked for.  The escapes of a string may spell half of
a surrogate pair; such a string is well formed but has no text.

## Main definitions

* `Json` — values.
* `Json.render` — their text, without blanks.
-/

namespace Columnar

/-- A JSON value.  Objects keep their members in order, repeated names included. -/
inductive Json where
  | null
  | bool (b : Bool)
  /-- A number, by its text. -/
  | number (text : List Char)
  /-- A string, and its text if it has one. -/
  | string (text : Option String)
  | array (items : List Json)
  | object (members : List (Option String × Json))
deriving Repr

namespace Json

def ofText (s : String) : Json := string (some s)

def ofInt (n : Int) : Json := number (toString n).toList

def ofNat (n : Nat) : Json := number (Nat.toDigits 10 n)

/-- A missing value is `null`. -/
def ofOption {α : Type} (f : α → Json) : Option α → Json
  | none => null
  | some a => f a

/-- How one character stands in a string. -/
def escapeChar (c : Char) : List Char :=
  if c = '"' then ['\\', '"']
  else if c = '\\' then ['\\', '\\']
  else if c = '\n' then ['\\', 'n']
  else if c = '\r' then ['\\', 'r']
  else if c = '\t' then ['\\', 't']
  else if c.toNat < 32 then '\\' :: 'u' :: Text.hexPadded 4 c.toNat
  else [c]

/-- A string between quotation marks. -/
def renderText (s : String) : List Char := '"' :: s.toList.flatMap escapeChar ++ ['"']

mutual

/-- The text of a value. -/
def renderChars : Json → List Char
  | null => "null".toList
  | bool true => "true".toList
  | bool false => "false".toList
  | number text => text
  | string text => renderText (text.getD "")
  | array items => '[' :: renderItems items
  | object members => '\x7b' :: renderMembers members

/-- The items of an array and its end. -/
def renderItems : List Json → List Char
  | [] => [']']
  | [v] => renderChars v ++ [']']
  | v :: vs => renderChars v ++ ',' :: renderItems vs

/-- The members of an object and its end. -/
def renderMembers : List (Option String × Json) → List Char
  | [] => ['\x7d']
  | [(k, v)] => renderText (k.getD "") ++ ':' :: renderChars v ++ ['\x7d']
  | (k, v) :: ms => renderText (k.getD "") ++ ':' :: renderChars v ++ ',' :: renderMembers ms

end

/-- The text of a value. -/
def render (j : Json) : String := String.ofList (renderChars j)

end Json
end Columnar
