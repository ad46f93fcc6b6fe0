import Columnar.Schema.Default

/-!
# Fields

A field has a name, a declared kind and what goes with it: the target of a
reference, flags, attributes, a default.  Resolving a field adds the kind it has
once references are followed, and its default under that kind.

## Main definitions

* `Field` — a declared field, resolved or not.
* `Field.ofKind`, `Field.reference` — new fields.
* `Field.withAttribute` — attributes form a set, kept in ascending order.
-/

namespace Columnar

/-- What resolving a field found. -/
structure Resolution where
  /-- The kind of the values of the field; never a reference. -/
  kind : Kind
  default : Option Value
deriving DecidableEq, Repr

structure Field where
  name : String
  kind : Kind
  /-- The type as it was written. -/
  rawType : String
  targetSchema : Option String
  targetField : Option String
  autoIncrement : Bool
  /-- Strictly ascending. -/
  attributes : List String
  declaredDefault : Option Default
  resolution : Option Resolution
deriving DecidableEq, Repr

namespace Field

/-- A field of a kind, with nothing else said about it. -/
def ofKind (name : String) (kind : Kind) : Field where
  name := name
  kind := kind
  rawType := kind.name
  targetSchema := none
  targetField := none
  autoIncrement := false
  attributes := []
  declaredDefault := none
  resolution := none

/-- A field that takes its kind from a field of another schema. -/
def reference (name schema field : String) : Field :=
  { ofKind name .ref with
    rawType := "ref:" ++ schema ++ "." ++ field
    targetSchema := some schema
    targetField := some field }

/-- A string put in its place in a strictly ascending list, unless it is there. -/
def insertAttribute (a : String) : List String → List String
  | [] => [a]
  | b :: bs => if a < b then a :: b :: bs else if a = b then b :: bs else b :: insertAttribute a bs

def withAttribute (f : Field) (a : String) : Field :=
  { f with attributes := insertAttribute a f.attributes }

def withAutoIncrement (f : Field) : Field := { f with autoIncrement := true }

/-- The field with a default in place of any it had. -/
def withDefault (f : Field) (d : Default) : Field := { f with declaredDefault := some d }

def withRawType (f : Field) (rawType : String) : Field := { f with rawType := rawType }

/-- The target of a reference, if both of its parts are there. -/
def target? (f : Field) : Option (String × String) :=
  match f.targetSchema, f.targetField with
  | some schema, some field => some (schema, field)
  | _, _ => none

def isResolved (f : Field) : Bool := f.resolution.isSome

/-- The kind of the values of a resolved field. -/
def valueKind? (f : Field) : Option Kind := f.resolution.map (·.kind)

/-- How the values of a resolved field are stored. -/
def storage? (f : Field) : Option Storage := f.valueKind?.bind Kind.storage?

/-- The default of a resolved field. -/
def default? (f : Field) : Option Value := f.resolution.bind (·.default)

/-- The field with a resolution, unless it has one. -/
def resolvedTo (f : Field) (r : Resolution) : Field :=
  { f with resolution := some (f.resolution.getD r) }

theorem mem_insertAttribute {a b : String} {l : List String} :
    b ∈ insertAttribute a l ↔ b = a ∨ b ∈ l := by
  induction l with
  | nil => simp [insertAttribute]
  | cons c l ih =>
    unfold insertAttribute
    split
    · simp
    · split
      · next h => subst h; simp
      · simp only [List.mem_cons, ih]
        constructor
        · rintro (h | h | h) <;> simp [h]
        · rintro (h | h | h) <;> simp [h]

/-- A string put in its place leaves the list strictly ascending. -/
theorem pairwise_insertAttribute {l : List String} (h : l.Pairwise (· < ·)) (a : String) :
    (insertAttribute a l).Pairwise (· < ·) := by
  induction l with
  | nil => exact List.pairwise_singleton _ a
  | cons b l ih =>
    obtain ⟨hb, hl⟩ := List.pairwise_cons.mp h
    unfold insertAttribute
    split
    · next hab =>
      refine List.pairwise_cons.mpr ⟨fun c hc => ?_, h⟩
      rcases List.mem_cons.mp hc with rfl | hc
      · exact hab
      · exact String.lt_trans hab (hb c hc)
    · next hnot =>
      split
      · exact h
      · next hne =>
        have hba : b < a := by
          rw [← String.not_le]
          exact fun hle => hne (String.le_antisymm hle (String.not_lt.mp hnot))
        refine List.pairwise_cons.mpr ⟨fun c hc => ?_, ih hl⟩
        rcases mem_insertAttribute.mp hc with rfl | hc
        · exact hba
        · exact hb c hc

end Field
end Columnar
