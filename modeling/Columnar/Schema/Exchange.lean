import Columnar.Json.Amount
import Columnar.Json.Reader
import Columnar.Json.Settled
import Columnar.Schema

/-!
# Schemas as JSON

A schema is written as an object with a member for every part; what resolving
has found is not written.  When it is read back, a record may also be an array
of its parts in order; members with other names are skipped; a member given twice
is refused; of the missing ones only targets and defaults may be missing.

## Main definitions

* `Schema.toJson`, `Schema.ofJson?` — between schemas and JSON values.
* `Schema.render`, `Schema.parse?` — between schemas and text.
* `Schema.received?` — the JSON value that a reader of the text has.
-/

namespace Columnar

/-! ### Writing -/

namespace Kind

/-- The name of a kind in exchanged schemas. -/
def tag : Kind → String
  | uint64 => "Uint64"
  | string => "String"
  | ref => "Ref"
  | bool => "Bool"
  | int64 => "Int64"
  | float64 => "Float64"
  | bytes => "Bytes"
  | date => "Date"
  | datetime => "DateTime"
  | timestamp => "Timestamp"
  | timestamptz => "TimestampTZ"
  | duration => "Duration"

/-- The kind of a name in exchanged schemas. -/
def ofTag? (s : String) : Option Kind := all.find? fun k => k.tag == s

end Kind

/-- An object with one member, which says what its value is. -/
def tagged (tag : String) (v : Json) : Json := .object [(some tag, v)]

namespace Value

/-- A floating-point value that is no number is written as `null`. -/
def toJson : Value → Json
  | uint n => tagged "Uint" (.ofNat n.toNat)
  | int n => tagged "Int" (.ofInt n.toInt)
  | float x =>
    tagged "Float" (if x.isNaN || x.isInfinite then .null else .number (FloatForm.json.render x).toList)
  | bool b => tagged "Bool" (.bool b)
  | text s => tagged "Str" (.ofText s)
  | bytes bs => tagged "Bytes" (.array (bs.map fun b => .ofNat b.toNat))

end Value

namespace Default

def toJson : Default → Json
  | typed v => tagged "Value" v.toJson
  | literal text => tagged "Literal" (.ofText text)

end Default

namespace Field

/-- The names of the parts of a field. -/
def partNames : List String :=
  ["name", "kind", "raw_type", "target_schema", "target_field", "auto_increment", "attributes",
    "default"]

def parts (f : Field) : List Json :=
  [.ofText f.name, .ofText f.kind.tag, .ofText f.rawType, .ofOption .ofText f.targetSchema,
    .ofOption .ofText f.targetField, .bool f.autoIncrement, .array (f.attributes.map .ofText),
    .ofOption Default.toJson f.declaredDefault]

def toJson (f : Field) : Json := .object (List.zip (partNames.map some) f.parts)

end Field

namespace Schema

/-- The names of the parts of a schema. -/
def partNames : List String := ["name", "fields"]

def toJson (s : Schema) : Json :=
  .object (List.zip (partNames.map some) [.ofText s.name, .array (s.fields.map Field.toJson)])

/-- The text of an exchanged schema. -/
def render (s : Schema) : String := s.toJson.render

end Schema

/-! ### Reading -/

namespace Json

def asText? : Json → Option String
  | string text => text
  | _ => none

def asBool? : Json → Option Bool
  | bool b => some b
  | _ => none

def asArray? : Json → Option (List Json)
  | array items => some items
  | _ => none

def asAmount? : Json → Option Amount
  | number text => some (.ofText text)
  | _ => none

/-- A value that may be missing or `null`. -/
def optional? {α : Type} (read : Json → Option α) : Option Json → Option (Option α)
  | none | some null => some none
  | some v => (read v).map some

/-- The members of a given name. -/
def membersNamed (name : String) (members : List (Option String × Json)) : List Json :=
  (members.filter fun m => m.1 == some name).map (·.2)

/-- The parts of a record by their names: the members of an object, none of them twice, or all items
of an array. -/
def parts? (names : List String) : Json → Option (List (Option Json))
  | object members =>
    if members.all (fun m => m.1.isSome) && names.all (fun n => (membersNamed n members).length ≤ 1)
    then some (names.map fun n => (membersNamed n members).head?)
    else none
  | array items => if items.length = names.length then some (items.map some) else none
  | _ => none

/-- The tag and the value of an object with one member. -/
def tagged? : Json → Option (String × Json)
  | object [(some tag, v)] => some (tag, v)
  | _ => none

end Json

namespace Kind

/-- A kind is its name, or an object that holds nothing under its name. -/
def ofJson? : Json → Option Kind
  | .string (some s) => ofTag? s
  | .object [(some s, .null)] => ofTag? s
  | _ => none

end Kind

namespace Value

def ofJson? (j : Json) : Option Value := do
  let (tag, v) ← j.tagged?
  match tag with
  | "Uint" => (← v.asAmount?).nat? (2 ^ 64) |>.map fun n => uint (UInt64.ofNat n)
  | "Int" => (← v.asAmount?).int?.map int
  | "Float" => (← v.asAmount?).float?.map float
  | "Bool" => v.asBool?.map bool
  | "Str" => v.asText?.map text
  | "Bytes" =>
    let items ← v.asArray?
    let bs ← items.mapM fun i => do (← i.asAmount?).nat? 256
    return bytes (bs.map UInt8.ofNat)
  | _ => none

end Value

namespace Default

def ofJson? (j : Json) : Option Default := do
  let (tag, v) ← j.tagged?
  match tag with
  | "Value" => (Value.ofJson? v).map typed
  | "Literal" => v.asText?.map literal
  | _ => none

end Default

namespace Field

def ofJson? (j : Json) : Option Field := do
  match ← j.parts? partNames with
  | [some name, some kind, some rawType, schema, field, some auto, some attributes, declared] =>
    let name ← name.asText?
    let kind ← Kind.ofJson? kind
    let rawType ← rawType.asText?
    let targetSchema ← Json.optional? Json.asText? schema
    let targetField ← Json.optional? Json.asText? field
    let autoIncrement ← auto.asBool?
    let attributes ← (← attributes.asArray?).mapM Json.asText?
    let declaredDefault ← Json.optional? Default.ofJson? declared
    return {
      name, kind, rawType, targetSchema, targetField, autoIncrement, declaredDefault
      attributes := attributes.foldl (fun as a => insertAttribute a as) []
      resolution := none }
  | _ => none

end Field

namespace Schema

def ofJson? (j : Json) : Option Schema := do
  match ← j.parts? partNames with
  | [some name, some fields] =>
    let name ← name.asText?
    let fields ← (← fields.asArray?).mapM Field.ofJson?
    return ⟨name, fields⟩
  | _ => none

/-- The schema of an exchanged text. -/
def parse? (text : String) : Option Schema := (Json.parse? text).bind ofJson?

/-- What a reader of the exchanged text has before it takes that for a schema. -/
def received? (s : Schema) : Option Json := (Json.parse? s.render).bind Json.settle?

end Schema
end Columnar
