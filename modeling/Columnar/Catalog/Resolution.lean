import Columnar.Schema

/-!
# Following references

A reference takes its kind from the field it targets, which may be a reference
again.  The path is remembered as texts `schema.field`; coming back to a text on
it ends the search.

## Main definitions

* `Resolution.follow` — the kind at the end of the references from a field.
* `Resolution.kindOf` — the same from a field given by its position.
* `Resolution.ofField` — kind and default of a field.
* `Schema.finalize` — a schema with all fields resolved among its own.

Following ends because every field passed adds a text that was not on the path,
and the fields that can be reached have finitely many texts.
-/

namespace Columnar
namespace Resolution

/-- The text by which a path remembers a field. -/
def pathKey (schema : String) (f : Field) : String := schema ++ "." ++ f.name

/-- The texts of all fields of some schemas. -/
def pathKeys (members : List Schema) : List String :=
  members.flatMap fun s => s.fields.map (pathKey s.name)

/-- A schema by its name. -/
def find? (members : List Schema) (name : String) : Option Schema :=
  members.find? fun s => s.name == name

/-- How many texts are not on a path. -/
def unvisited (keys visited : List String) : Nat := keys.countP fun k => !visited.contains k

theorem unvisited_le (keys visited : List String) (k : String) :
    unvisited keys (visited ++ [k]) ≤ unvisited keys visited := by
  apply List.countP_mono_left
  intro x _ hx
  simp only [List.contains_eq_mem, List.mem_append, Bool.not_eq_eq_eq_not, Bool.not_true,
    decide_eq_false_iff_not] at hx ⊢
  exact fun h => hx (Or.inl h)

theorem unvisited_cons (x : String) (keys visited : List String) :
    unvisited (x :: keys) visited = unvisited keys visited + if x ∈ visited then 0 else 1 := by
  by_cases hx : x ∈ visited <;> simp [unvisited, hx]

theorem unvisited_lt {keys visited : List String} {k : String} (hk : k ∈ keys)
    (hv : k ∉ visited) : unvisited keys (visited ++ [k]) < unvisited keys visited := by
  induction keys with
  | nil => cases hk
  | cons x keys ih =>
    rw [unvisited_cons, unvisited_cons]
    by_cases hx : x = k
    · have hle := unvisited_le keys visited k
      rw [if_pos (by simp [hx]), if_neg (hx ▸ hv)]
      omega
    · have hlt := ih ((List.mem_cons.mp hk).resolve_left (Ne.symm hx))
      have hiff : x ∈ visited ++ [k] ↔ x ∈ visited := by simp [hx]
      simp only [hiff]
      omega

theorem pathKey_mem {members : List Schema} {s : Schema} {f : Field} {name field : String}
    (hs : find? members name = some s) (hf : s.field? field = some f) :
    pathKey s.name f ∈ pathKeys members :=
  List.mem_flatMap.mpr ⟨s, List.mem_of_find?_eq_some hs,
    List.mem_map_of_mem (Schema.mem_of_field? hf)⟩

/-- The kind at the end of the references from a field, past the fields already on the path. -/
def follow (members : List Schema) (visited : List String) (schema : String) (f : Field) :
    Except Failure Kind :=
  if f.kind ≠ .ref then .ok f.kind else
    let key := pathKey schema f
    if _hv : key ∈ visited then .error (.circularReference (visited ++ [key])) else
      match f.target? with
      | none => .error (.unknownSchema "")
      | some (targetSchema, targetField) =>
        match _hs : find? members targetSchema with
        | none => .error (.unknownSchema targetSchema)
        | some s =>
          match _hf : s.field? targetField with
          | none => .error (.unknownField targetSchema targetField)
          | some next => follow members (visited ++ [key]) s.name next
termination_by (unvisited (pathKeys members) visited, if pathKey schema f ∈ pathKeys members then 0 else 1)
decreasing_by
  by_cases hk : pathKey schema f ∈ pathKeys members
  · -- the field is one of the members', and its text was not on the path
    exact Prod.Lex.left _ _ (unvisited_lt hk _hv)
  · -- the field is from outside, and what it targets is not
    have hle := unvisited_le (pathKeys members) visited (pathKey schema f)
    rcases Nat.lt_or_eq_of_le hle with h | h
    · exact Prod.Lex.left _ _ h
    · rw [Prod.lex_def]
      refine Or.inr ⟨h, ?_⟩
      rw [if_pos (pathKey_mem _hs _hf), if_neg hk]
      exact Nat.zero_lt_one

/-- The kind at the end of the references from a field of a schema, which need not be a member. -/
def kindOf (members : List Schema) (s : Schema) (index : Nat) : Except Failure Kind :=
  match s.fields[index]? with
  | none => .error (.unknownField s.name (toString index))
  | some f => follow members [] s.name f

variable [Calendar]

/-- Kind and default of a field of a schema. -/
def ofField (members : List Schema) (schema : String) (f : Field) : Except Failure Resolution := do
  let kind ← follow members [] schema f
  match f.declaredDefault with
  | none => return ⟨kind, none⟩
  | some d =>
    match d.resolve? kind with
    | some v => return ⟨kind, some v⟩
    | none => throw (.invalidDefault (schema ++ "." ++ f.name) d.describe kind)

/-- The resolutions of all fields of a schema. -/
def ofSchema (members : List Schema) (s : Schema) : Except Failure (List Resolution) :=
  s.fields.mapM (ofField members s.name)

end Resolution

namespace Schema

/-- The schema with resolutions for the fields that have none. -/
def resolvedTo (s : Schema) (rs : List Resolution) : Schema :=
  { s with fields := List.zipWith Field.resolvedTo s.fields rs }

/-- The schema with all fields resolved, references leading to its own fields only. -/
def finalize [Calendar] (s : Schema) : Except Failure Schema := do
  let rs ← Resolution.ofSchema [s] s
  return s.resolvedTo rs

end Schema
end Columnar
