import Columnar.Catalog.Resolution

/-!
# Catalogues of schemas

A catalogue holds schemas by name, in ascending order of names.  Finalizing it
resolves every field of every schema, references leading to any member; if one
field cannot be resolved, none is.

## Main definitions

* `Catalog.add`, `Catalog.get?` — membership by name.
* `Catalog.finalize` — all fields resolved.
-/

namespace Columnar

/-- Schemas in strictly ascending order of their names. -/
structure Catalog where
  schemas : List Schema
deriving DecidableEq, Repr

namespace Catalog

def empty : Catalog := ⟨[]⟩

def size (c : Catalog) : Nat := c.schemas.length

/-- A schema by its name. -/
def get? (c : Catalog) (name : String) : Option Schema := Resolution.find? c.schemas name

/-- A schema put in its place in ascending order of names. -/
def insert (s : Schema) : List Schema → List Schema
  | [] => [s]
  | t :: ts => if s.name < t.name then s :: t :: ts else t :: insert s ts

/-- The catalogue with one more schema, whose name has to be new. -/
def add (c : Catalog) (s : Schema) : Except Failure Catalog :=
  match c.get? s.name with
  | some _ => .error (.duplicateSchema s.name)
  | none => .ok ⟨insert s c.schemas⟩

/-- The kind at the end of the references from a field of a schema, which need not be a member. -/
def kindOf (c : Catalog) (s : Schema) (index : Nat) : Except Failure Kind :=
  Resolution.kindOf c.schemas s index

/-- The catalogue with all fields resolved. -/
def finalize [Calendar] (c : Catalog) : Except Failure Catalog := do
  let rss ← c.schemas.mapM (Resolution.ofSchema c.schemas)
  return ⟨List.zipWith Schema.resolvedTo c.schemas rss⟩

end Catalog
end Columnar
