import Mathlib.Data.List.Induction
import Columnar.Proofs.Catalog.Finalizing

/-!
# Schemas that were published

A schema is put together of fields, and then only finalizing changes it: by itself or
as a member of catalogues, any number of times.  Fields can be taken from schemas that
were finalized before, and keep what they had found there, whatever else is changed in
them.  But the kind of a field never changes.  So all that a field has found it has
found for its kind, among some schemas, and that is enough for its values to be stored.

## Main definitions

* `Schema.Formed` — the ways in which schemas come about.
* `Schema.Published` — a schema that finalizing gave.
* `Resolution.Serves` — what a field of such a schema has found.

## Main results

* `Schema.found_of_formed` — nothing is in a field but what was found for its kind.
* `Schema.Formed.serves` — once all fields are resolved, every one is to a kind that is
  no reference, with a default of its storage.
* `Schema.Published.finalized` — a published schema is finalized.
-/

namespace Columnar

namespace Resolution

variable [Calendar] {members : List Schema} {schema : String} {f : Field} {r : Resolution}

/-- A field that is no reference keeps its kind. -/
theorem kind_of_ne_ref (hf : f.kind ≠ .ref) (h : ofField members schema f = .ok r) :
    r.kind = f.kind := by
  obtain ⟨hkind, -⟩ := ofField_eq_ok_iff.mp h
  rw [follow, if_pos hf] at hkind
  exact (Except.ok.inj hkind).symm

/-- What a field has to have found so that its values can be stored: a kind that is no reference, and a
default of its storage if any.  A field that is no reference has found its own kind. -/
structure Serves (r : Resolution) (f : Field) : Prop where
  kind : r.kind ≠ .ref
  own : f.kind ≠ .ref → r.kind = f.kind
  default : ∀ v, r.default = some v → r.kind.storage? = some v.storage

theorem serves_of_ofField (h : ofField members schema f = .ok r) : r.Serves f := by
  obtain ⟨hkind, -⟩ := ofField_eq_ok_iff.mp h
  obtain ⟨storage, hsound⟩ := sound_of_ofField h
  refine ⟨follow_ne_ref hkind, fun hf => kind_of_ne_ref hf h, ?_⟩
  intro v hv
  rw [hsound.default v hv]
  exact hsound.kind

end Resolution

namespace Field

open Resolution

variable [Calendar] {f g : Field}

/-- A field that was built out of another one: its kind is the same, and so is what it has found. -/
structure BuiltFrom (f g : Field) : Prop where
  kind : f.kind = g.kind
  resolution : f.resolution = g.resolution

/-- What is in the field was found for a field of its kind, among some schemas. -/
def Found (f : Field) : Prop :=
  ∀ r, f.resolution = some r → ∃ members schema g, g.kind = f.kind ∧ ofField members schema g = .ok r

theorem found_of_declared (h : f.resolution = none) : f.Found := by
  intro r hr
  rw [h] at hr
  cases hr

theorem Found.of_built (hg : g.Found) (h : f.BuiltFrom g) : f.Found := by
  intro r hr
  rw [h.resolution] at hr
  rw [h.kind]
  exact hg r hr

/-- Resolving a field keeps what it had found, or finds it now. -/
theorem Found.resolvedTo (hg : g.Found) {members : List Schema} {schema : String} {r : Resolution}
    (hr : ofField members schema g = .ok r) : (g.resolvedTo r).Found := by
  intro r' hr'
  cases hold : g.resolution with
  | none =>
    obtain rfl : r = r' := by simpa [Field.resolvedTo, hold] using hr'
    exact ⟨members, schema, g, rfl, hr⟩
  | some old =>
    obtain rfl : old = r' := by simpa [Field.resolvedTo, hold] using hr'
    exact hg old hold

end Field

namespace Schema

open Resolution

variable [Calendar] {s t : Schema}

/-- The ways in which schemas come about: field by field, where a field is new or built out of one of
another schema; and by finalizing, alone or in a catalogue. -/
inductive Formed : Schema → Prop where
  | empty (name : String) : Formed ⟨name, []⟩
  | declared {s : Schema} {f : Field} (name : String) (h : Formed s) (hf : f.resolution = none) :
      Formed ⟨name, s.fields ++ [f]⟩
  | built {s t : Schema} {f g : Field} (name : String) (h : Formed s) (ht : Formed t)
      (hg : g ∈ t.fields) (hf : f.BuiltFrom g) : Formed ⟨name, s.fields ++ [f]⟩
  | alone {s t : Schema} (h : Formed s) (ht : s.finalize = .ok t) : Formed t
  | member {c d : Catalog} {t : Schema} (h : ∀ s ∈ c.schemas, Formed s) (hd : c.finalize = .ok d)
      (ht : t ∈ d.schemas) : Formed t

/-- A schema that was finalized, by itself or in a catalogue. -/
inductive Published : Schema → Prop where
  | alone {s t : Schema} (h : s.Formed) (ht : s.finalize = .ok t) : Published t
  | member {c d : Catalog} {t : Schema} (h : ∀ s ∈ c.schemas, s.Formed) (hd : c.finalize = .ok d)
      (ht : t ∈ d.schemas) : Published t

/-- A schema of new fields. -/
theorem formed_of_declared (h : ∀ f ∈ s.fields, f.resolution = none) : s.Formed := by
  obtain ⟨name, fields⟩ := s
  induction fields using List.reverseRecOn generalizing name with
  | nil => exact .empty name
  | append_singleton fields f ih =>
    have hfields := ih name fun g hg => h g (List.mem_append_left _ hg)
    exact .declared name hfields (h f (List.mem_append_right _ List.mem_cons_self))

theorem Published.formed (h : s.Published) : s.Formed := by
  cases h with
  | alone h ht => exact .alone h ht
  | member h hd ht => exact .member h hd ht

theorem exists_of_finalize (ht : s.finalize = .ok t) :
    ∃ rs, ofSchema [s] s = .ok rs ∧ t = s.resolvedTo rs := by
  obtain ⟨rs, hrs, ht⟩ := exists_of_bind ht
  exact ⟨rs, hrs, (Except.ok.inj ht).symm⟩

theorem found_append {fields : List Field} {f : Field} (h : ∀ g ∈ fields, g.Found) (hf : f.Found) :
    ∀ g ∈ fields ++ [f], g.Found := by
  intro g hg
  rcases List.mem_append.mp hg with hg | hg
  · exact h g hg
  · exact List.mem_singleton.mp hg ▸ hf

theorem found_resolvedTo {members : List Schema} (h : ∀ f ∈ s.fields, f.Found) {rs : List Resolution}
    (hrs : ofSchema members s = .ok rs) : ∀ f ∈ (s.resolvedTo rs).fields, f.Found := by
  intro f hf
  obtain ⟨g, hg, r, hr, rfl⟩ := exists_of_mem_resolvedTo hrs hf
  exact (h g hg).resolvedTo hr

/-- **Nothing is in a field but what was found for its kind**, however its schema came about. -/
theorem found_of_formed (h : s.Formed) : ∀ f ∈ s.fields, f.Found := by
  induction h with
  | empty name => exact fun f hf => absurd hf List.not_mem_nil
  | declared name _ hf ih => exact found_append ih (Field.found_of_declared hf)
  | built name _ _ hg hf ihs iht => exact found_append ihs ((iht _ hg).of_built hf)
  | alone _ ht ih =>
    obtain ⟨rs, hrs, rfl⟩ := exists_of_finalize ht
    exact found_resolvedTo ih hrs
  | member _ hd ht ih =>
    obtain ⟨s, hs, rs, hrs, rfl⟩ := Catalog.exists_of_mem_finalize hd ht
    exact found_resolvedTo (ih s hs) hrs

theorem Published.isResolved (h : s.Published) : s.isResolved = true := by
  cases h with
  | alone _ ht =>
    obtain ⟨rs, hrs, rfl⟩ := exists_of_finalize ht
    exact isResolved_resolvedTo hrs
  | member _ hd ht =>
    obtain ⟨s, -, rs, hrs, rfl⟩ := Catalog.exists_of_mem_finalize hd ht
    exact isResolved_resolvedTo hrs

/-- **The values of every field of a resolved schema can be stored.** -/
theorem Formed.serves (h : s.Formed) (hres : s.isResolved = true) {f : Field} (hf : f ∈ s.fields) :
    ∃ r, f.resolution = some r ∧ r.Serves f := by
  obtain ⟨r, hr⟩ := Option.isSome_iff_exists.mp (List.all_eq_true.mp hres f hf)
  obtain ⟨members, schema, g, hkind, hfound⟩ := found_of_formed h f hf r hr
  obtain ⟨hne, hown, hdefault⟩ := serves_of_ofField hfound
  exact ⟨r, hr, hne, hkind ▸ hown, hdefault⟩

/-- A resolved schema is finalized. -/
theorem Formed.finalized (h : s.Formed) (hres : s.isResolved = true) : s.Finalized := by
  intro f hf
  obtain ⟨r, hr, hserves⟩ := h.serves hres hf
  obtain ⟨storage, hstorage⟩ := Option.ne_none_iff_exists'.mp
    fun hnone => hserves.kind (Kind.storage?_eq_none_iff.mp hnone)
  refine ⟨r, storage, hr, hstorage, ?_⟩
  intro v hv
  exact (Option.some.inj (hstorage.symm.trans (hserves.default v hv))).symm

theorem Published.finalized (h : s.Published) : s.Finalized := h.formed.finalized h.isResolved

/-- A field that is no reference stores its values as its kind says. -/
theorem Formed.storage_of_ne_ref (h : s.Formed) (hres : s.isResolved = true) {f : Field}
    (hf : f ∈ s.fields) (hkind : f.kind ≠ .ref) : f.storage? = f.kind.storage? := by
  obtain ⟨r, hr, hserves⟩ := h.serves hres hf
  simp [Field.storage?, Field.valueKind?, hr, hserves.own hkind]

end Schema
end Columnar
