import Columnar.Failure
import Columnar.Schema.Field

/-!
# Schemas

A schema is a named list of fields.  Fields are found by position or by name; of
several fields of one name the last is found.

## Main definitions

* `Schema` — name and fields.
* `Schema.fieldIndex?`, `Schema.field?` — looking up a field by name.
* `Schema.layout` — kind and storage of every field of a resolved schema.

## Main results

* `lastIndex?_eq_some_iff` — the position that is found is the last one.
-/

namespace Columnar

/-- The position of the last element with a property. -/
def lastIndex? {α : Type} (p : α → Bool) : List α → Option Nat
  | [] => none
  | a :: as =>
    match lastIndex? p as with
    | some i => some (i + 1)
    | none => if p a then some 0 else none

theorem lastIndex?_eq_none_iff {α : Type} {p : α → Bool} {as : List α} :
    lastIndex? p as = none ↔ ∀ a ∈ as, p a = false := by
  induction as with
  | nil => simp [lastIndex?]
  | cons a as ih =>
    unfold lastIndex?
    split
    · next j hj =>
      have hsome : ¬ ∀ a ∈ as, p a = false := fun hall => by
        rw [ih.mpr hall] at hj
        cases hj
      simp [hsome]
    · next hnone =>
      have hall := ih.mp hnone
      simp only [ite_eq_right_iff, reduceCtorEq, imp_false, Bool.not_eq_true, List.forall_mem_cons]
      exact ⟨fun hpa => ⟨hpa, hall⟩, And.left⟩

/-- The element at the position has the property, and none behind it has. -/
theorem lastIndex?_eq_some_iff {α : Type} {p : α → Bool} {as : List α} {i : Nat} :
    lastIndex? p as = some i ↔
      ∃ a, as[i]? = some a ∧ p a = true ∧ ∀ j, i < j → ∀ b, as[j]? = some b → p b = false := by
  induction as generalizing i with
  | nil => simp [lastIndex?]
  | cons a as ih =>
    unfold lastIndex?
    constructor
    · intro h
      split at h
      · next k hk =>
        cases h
        obtain ⟨b, hb, hpb, hlast⟩ := ih.mp hk
        refine ⟨b, hb, hpb, fun j hj c hc => ?_⟩
        cases j with
        | zero => cases hj
        | succ j => exact hlast j (Nat.lt_of_succ_lt_succ hj) c hc
      · next hnone =>
        split at h
        · next hpa =>
          cases h
          refine ⟨a, rfl, hpa, fun j hj c hc => ?_⟩
          cases j with
          | zero => cases hj
          | succ j => exact lastIndex?_eq_none_iff.mp hnone c (List.mem_of_getElem? hc)
        · cases h
    · rintro ⟨b, hb, hpb, hlast⟩
      cases i with
      | zero =>
        cases hb
        have hnone : lastIndex? p as = none := by
          refine lastIndex?_eq_none_iff.mpr fun c hc => ?_
          obtain ⟨j, hj⟩ := List.getElem?_of_mem hc
          exact hlast (j + 1) (Nat.zero_lt_succ j) c hj
        rw [hnone, if_pos hpb]
      | succ i =>
        rw [ih.mpr ⟨b, hb, hpb, fun j hj => hlast (j + 1) (Nat.succ_lt_succ hj)⟩]

structure Schema where
  name : String
  fields : List Field
deriving DecidableEq, Repr

namespace Schema

/-- How many fields a schema has. -/
def width (s : Schema) : Nat := s.fields.length

/-- The position of a field. -/
def fieldIndex? (s : Schema) (name : String) : Option Nat := lastIndex? (·.name == name) s.fields

/-- A field by its name. -/
def field? (s : Schema) (name : String) : Option Field :=
  (s.fieldIndex? name).bind fun i => s.fields[i]?

/-- The position of a field that has to be there. -/
def findField (s : Schema) (name : String) : Except Failure Nat :=
  match s.fieldIndex? name with
  | some i => .ok i
  | none => .error (.unknownField s.name name)

/-- Every field is resolved. -/
def isResolved (s : Schema) : Bool := s.fields.all Field.isResolved

/-- Kind and storage of a resolved field. -/
def fieldLayout? (f : Field) : Option (Kind × Storage) := do
  let kind ← f.valueKind?
  let storage ← kind.storage?
  return (kind, storage)

/-- Kind and storage of every field. -/
def layout (s : Schema) : Except Failure (List (Kind × Storage)) :=
  match s.fields.mapM fieldLayout? with
  | some l => .ok l
  | none => .error (.unresolvedSchema s.name)

theorem mem_of_field? {s : Schema} {name : String} {f : Field} (h : s.field? name = some f) :
    f ∈ s.fields := by
  obtain ⟨i, -, hf⟩ := Option.bind_eq_some_iff.mp h
  exact List.mem_of_getElem? hf

end Schema
end Columnar
