import Mathlib.Data.List.Forall2
import Columnar.Catalog
import Columnar.Proofs.Bytes.Follow
import Columnar.Row

/-!
# Finalized schemas

Resolving a field never gives it the kind of a reference, and a default that it
gives has the storage of the kind.  A schema with such a resolution for every
field is finalized; streams are written and read under finalized schemas only.

A row is well typed if its set slots hold values of the storage of their field.
Setting slots keeps it so.

## Main definitions

* `Schema.Finalized` — every field has a sound resolution.
* `Schema.Admits` — a list of slots is well typed.

## Main results

* `Schema.resolvedTo_of_isResolved` — a resolved schema is left as it is.
* `Catalog.forall₂_of_finalize` — what finalizing does to every schema.
* `Schema.finalized_of_finalize`, `Catalog.finalized_of_finalize` — finalizing
  makes schemas finalized.
* `Schema.layout_of_finalized` — a finalized schema has a layout.
* `Row.admits_set` — setting a slot keeps a row well typed.
-/

namespace Columnar

/-- The kind is stored in some way, and a default is stored in that way. -/
structure Resolution.Sound (r : Resolution) (storage : Storage) : Prop where
  kind : r.kind.storage? = some storage
  default : ∀ v, r.default = some v → v.storage = storage

namespace Field

/-- The field is resolved, soundly. -/
def Settled (f : Field) : Prop := ∃ r storage, f.resolution = some r ∧ r.Sound storage

/-- If the field is resolved, then soundly. -/
def Unspoiled (f : Field) : Prop := f.resolution = none ∨ f.Settled

theorem settled_resolvedTo {f : Field} (h : f.Unspoiled) {r : Resolution} {storage : Storage}
    (hr : r.Sound storage) : (f.resolvedTo r).Settled := by
  rcases h with hnone | ⟨old, storage', hsome, hold⟩
  · exact ⟨r, storage, by simp [resolvedTo, hnone], hr⟩
  · exact ⟨old, storage', by simp [resolvedTo, hsome], hold⟩

/-- The value of a default that a settled field has. -/
theorem storage_of_default? {f : Field} (h : f.Settled) {v : Value} (hv : f.default? = some v) :
    f.storage? = some v.storage := by
  obtain ⟨r, storage, hr, hsound⟩ := h
  have hdefault : r.default = some v := by simpa [default?, hr] using hv
  simp [storage?, valueKind?, hr, hsound.kind, hsound.default v hdefault]

end Field

namespace Resolution

/-- References are followed to a kind that is none. -/
theorem follow_ne_ref {members : List Schema} {visited : List String} {schema : String} {f : Field}
    {kind : Kind} (h : follow members visited schema f = .ok kind) : kind ≠ .ref := by
  fun_induction follow members visited schema f with
  | case1 visited schema f hkind =>
    cases h
    exact hkind
  | case6 visited schema f hkind key hv target field ht s hs next hf ih =>
    exact ih h
  | _ => cases h

theorem sound_of_ofField [Calendar] {members : List Schema} {schema : String} {f : Field} {r : Resolution}
    (h : ofField members schema f = .ok r) : ∃ storage, r.Sound storage := by
  unfold ofField at h
  cases hk : follow members [] schema f with
  | error e =>
    rw [hk] at h
    cases h
  | ok kind =>
    rw [hk] at h
    obtain ⟨storage, hstorage⟩ : ∃ storage, kind.storage? = some storage := by
      cases hs : kind.storage? with
      | none => exact absurd (Kind.storage?_eq_none_iff.mp hs) (follow_ne_ref hk)
      | some storage => exact ⟨storage, rfl⟩
    simp only [bind, Except.bind] at h
    split at h
    · cases h
      exact ⟨storage, hstorage, fun v hv => by cases hv⟩
    · split at h
      · next d _ v hd =>
        cases h
        refine ⟨storage, hstorage, ?_⟩
        intro w hw
        cases hw
        have hsame := Default.storage_of_resolve? hd
        rw [hstorage] at hsame
        exact (Option.some.inj hsame).symm
      · cases h

end Resolution

theorem forall₂_of_mapM {ε α β : Type} {f : α → Except ε β} {as : List α} {bs : List β}
    (h : as.mapM f = .ok bs) : List.Forall₂ (fun a b => f a = .ok b) as bs := by
  induction as generalizing bs with
  | nil =>
    rw [List.mapM_nil] at h
    cases h
    exact List.Forall₂.nil
  | cons a as ih =>
    rw [List.mapM_cons] at h
    cases ha : f a with
    | error e =>
      rw [ha] at h
      cases h
    | ok b =>
      rw [ha] at h
      cases has : as.mapM f with
      | error e =>
        simp only [has] at h
        cases h
      | ok bs' =>
        simp only [has] at h
        cases h
        exact List.Forall₂.cons ha (ih has)

theorem mapM_of_forall₂ {ε α β : Type} {f : α → Except ε β} {as : List α} {bs : List β}
    (h : List.Forall₂ (fun a b => f a = .ok b) as bs) : as.mapM f = .ok bs := by
  induction h with
  | nil => rfl
  | cons hone _ ih => simp only [List.mapM_cons, hone, ih, bind, Except.bind, pure, Except.pure]

/-- Two lists put together, against the first of them. -/
theorem forall₂_zipWith {α β γ : Type} {R : α → β → Prop} {as : List α} {bs : List β}
    (g : α → β → γ) (h : List.Forall₂ R as bs) :
    List.Forall₂ (fun a x => ∃ b, R a b ∧ x = g a b) as (List.zipWith g as bs) := by
  induction h with
  | nil => exact .nil
  | cons hone _ ih => exact .cons ⟨_, hone, rfl⟩ ih

theorem exists_of_forall₂ {α β : Type} {R : α → β → Prop} {as : List α} {bs : List β}
    (h : List.Forall₂ R as bs) {a : α} (ha : a ∈ as) : ∃ b ∈ bs, R a b := by
  induction h with
  | nil => cases ha
  | @cons a' b as bs hone _ ih =>
    rcases List.mem_cons.mp ha with rfl | ha
    · exact ⟨b, List.mem_cons_self, hone⟩
    · obtain ⟨b', hb', hab⟩ := ih ha
      exact ⟨b', List.mem_cons_of_mem _ hb', hab⟩

namespace Schema

variable {members : List Schema} {s : Schema} {rs : List Resolution}

theorem length_of_ofSchema [Calendar] (h : Resolution.ofSchema members s = .ok rs) :
    rs.length = s.fields.length :=
  (forall₂_of_mapM h).length_eq.symm

theorem exists_of_mem_resolvedTo [Calendar] (hrs : Resolution.ofSchema members s = .ok rs) {f : Field}
    (hf : f ∈ (s.resolvedTo rs).fields) :
    ∃ g ∈ s.fields, ∃ r, Resolution.ofField members s.name g = .ok r ∧ f = g.resolvedTo r :=
  exists_of_forall₂ (forall₂_zipWith Field.resolvedTo (forall₂_of_mapM hrs)).flip hf

theorem isResolved_resolvedTo [Calendar] (hrs : Resolution.ofSchema members s = .ok rs) :
    (s.resolvedTo rs).isResolved = true := by
  refine List.all_eq_true.mpr fun f hf => ?_
  obtain ⟨g, -, r, -, rfl⟩ := exists_of_mem_resolvedTo hrs hf
  rfl

/-- A schema that is resolved is left as it is. -/
theorem resolvedTo_of_isResolved (h : s.isResolved = true) (hlen : rs.length = s.fields.length) :
    s.resolvedTo rs = s := by
  unfold isResolved at h
  unfold resolvedTo
  obtain ⟨name, fields⟩ := s
  simp only at h hlen
  have hfields : List.zipWith Field.resolvedTo fields rs = fields := by
    induction fields generalizing rs with
    | nil => simp
    | cons f fields ih =>
      cases rs with
      | nil => cases hlen
      | cons r rs =>
        rw [List.all_cons, Bool.and_eq_true] at h
        obtain ⟨old, hold⟩ := Option.isSome_iff_exists.mp h.1
        have hsame : f.resolvedTo r = f := by
          rw [Field.resolvedTo, hold, Option.getD_some, ← hold]
        rw [List.zipWith_cons_cons, hsame, ih h.2 (Nat.succ.inj hlen)]
  rw [hfields]

/-- Every field is resolved, soundly. -/
def Finalized (s : Schema) : Prop := ∀ f ∈ s.fields, f.Settled

/-- Fields that are resolved already are so soundly. -/
def Unspoiled (s : Schema) : Prop := ∀ f ∈ s.fields, f.Unspoiled

theorem finalized_resolvedTo [Calendar] {members : List Schema} {s : Schema} (h : s.Unspoiled)
    {rs : List Resolution} (hrs : Resolution.ofSchema members s = .ok rs) :
    (s.resolvedTo rs).Finalized := by
  intro f hf
  obtain ⟨g, hg, r, hr, rfl⟩ := exists_of_mem_resolvedTo hrs hf
  obtain ⟨storage, hsound⟩ := Resolution.sound_of_ofField hr
  exact Field.settled_resolvedTo (h g hg) hsound

/-- **A schema that was finalized on its own is finalized.** -/
theorem finalized_of_finalize [Calendar] {s t : Schema} (h : s.Unspoiled) (ht : s.finalize = .ok t) :
    t.Finalized := by
  unfold finalize at ht
  cases hrs : Resolution.ofSchema [s] s with
  | error e =>
    rw [hrs] at ht
    cases ht
  | ok rs =>
    rw [hrs] at ht
    cases ht
    exact finalized_resolvedTo h hrs

end Schema

namespace Catalog

variable [Calendar] {c d : Catalog} {s t : Schema}

/-- Every schema of a finalized catalogue is one of the catalogue with what was found for it. -/
theorem forall₂_of_finalize (h : c.finalize = .ok d) :
    List.Forall₂ (fun s t => ∃ rs, Resolution.ofSchema c.schemas s = .ok rs ∧ t = s.resolvedTo rs)
      c.schemas d.schemas := by
  obtain ⟨rss, hrss, hd⟩ := exists_of_bind h
  obtain rfl := Except.ok.inj hd
  exact forall₂_zipWith Schema.resolvedTo (forall₂_of_mapM hrss)

theorem exists_resolvedTo_of_mem (h : c.finalize = .ok d) (hs : s ∈ c.schemas) :
    ∃ rs, Resolution.ofSchema c.schemas s = .ok rs ∧ s.resolvedTo rs ∈ d.schemas := by
  obtain ⟨t, ht, rs, hrs, rfl⟩ := exists_of_forall₂ (forall₂_of_finalize h) hs
  exact ⟨rs, hrs, ht⟩

theorem exists_of_mem_finalize (h : c.finalize = .ok d) (ht : t ∈ d.schemas) :
    ∃ s ∈ c.schemas, ∃ rs, Resolution.ofSchema c.schemas s = .ok rs ∧ t = s.resolvedTo rs :=
  exists_of_forall₂ (forall₂_of_finalize h).flip ht

theorem names_of_finalize (h : c.finalize = .ok d) :
    d.schemas.map (·.name) = c.schemas.map (·.name) := by
  have hall := forall₂_of_finalize h
  generalize Resolution.ofSchema c.schemas = found at hall
  generalize c.schemas = ss, d.schemas = ts at hall
  induction hall with
  | nil => rfl
  | cons hone _ ih =>
    obtain ⟨rs, -, rfl⟩ := hone
    rw [List.map_cons, List.map_cons, ih]
    rfl

/-- **All schemas of a catalogue that was finalized are finalized.** -/
theorem finalized_of_finalize (h : ∀ s ∈ c.schemas, s.Unspoiled) (hd : c.finalize = .ok d) :
    ∀ t ∈ d.schemas, t.Finalized := by
  intro t ht
  obtain ⟨s, hs, rs, hrs, rfl⟩ := exists_of_mem_finalize hd ht
  exact Schema.finalized_resolvedTo (h s hs) hrs

end Catalog

namespace Schema

/-! ### The layout of a resolved schema -/

theorem forall₂_layout {s : Schema} {layout : List (Kind × Storage)} (h : s.layout = .ok layout) :
    List.Forall₂ (fun f entry => fieldLayout? f = some entry) s.fields layout := by
  unfold Schema.layout at h
  split at h
  · next l hl =>
    cases h
    generalize s.fields = fields at hl
    induction fields generalizing layout with
    | nil =>
      rw [List.mapM_nil] at hl
      cases hl
      exact List.Forall₂.nil
    | cons f fields ih =>
      rw [List.mapM_cons] at hl
      obtain ⟨entry, hentry, hl⟩ := Option.bind_eq_some_iff.mp hl
      obtain ⟨entries, hentries, hl⟩ := Option.bind_eq_some_iff.mp hl
      cases hl
      exact List.Forall₂.cons hentry (ih hentries)
  · cases h

theorem length_layout {s : Schema} {layout : List (Kind × Storage)} (h : s.layout = .ok layout) :
    layout.length = s.width := (forall₂_layout h).length_eq.symm

theorem fieldLayout?_eq_some {f : Field} {kind : Kind} {storage : Storage}
    (h : fieldLayout? f = some (kind, storage)) : f.storage? = some storage := by
  obtain ⟨k, hk, h⟩ := Option.bind_eq_some_iff.mp h
  obtain ⟨st, hst, h⟩ := Option.bind_eq_some_iff.mp h
  cases h
  simp [Field.storage?, hk, hst]

/-- The entry of the layout for a field. -/
theorem layout_getElem? {s : Schema} {layout : List (Kind × Storage)} (h : s.layout = .ok layout)
    {i : Nat} {f : Field} (hf : s.fields[i]? = some f) :
    ∃ kind storage, layout[i]? = some (kind, storage) ∧ f.storage? = some storage := by
  have hall := forall₂_layout h
  obtain ⟨hi, rfl⟩ := List.getElem?_eq_some_iff.mp hf
  have hi' : i < layout.length := hall.length_eq ▸ hi
  have hentry := hall.get hi hi'
  refine ⟨layout[i].1, layout[i].2, List.getElem?_eq_getElem hi', ?_⟩
  exact fieldLayout?_eq_some hentry

theorem isResolved_of_layout {s : Schema} {layout : List (Kind × Storage)}
    (h : s.layout = .ok layout) : s.isResolved = true := by
  refine List.all_eq_true.mpr fun f hf => ?_
  obtain ⟨i, hi⟩ := List.getElem?_of_mem hf
  obtain ⟨kind, storage, -, hstorage⟩ := layout_getElem? h hi
  obtain ⟨k, hk, -⟩ := Option.bind_eq_some_iff.mp hstorage
  obtain ⟨r, hr, -⟩ := Option.map_eq_some_iff.mp hk
  rw [Field.isResolved, hr, Option.isSome_some]

/-- Resolving a schema that has a layout again changes nothing. -/
theorem resolvedTo_of_layout [Calendar] {s : Schema} {layout : List (Kind × Storage)}
    (h : s.layout = .ok layout) {members : List Schema} {rs : List Resolution} (hrs : Resolution.ofSchema members s = .ok rs) :
    s.resolvedTo rs = s :=
  resolvedTo_of_isResolved (isResolved_of_layout h) (length_of_ofSchema hrs)

/-- A finalized schema has a layout. -/
theorem layout_of_finalized {s : Schema} (h : s.Finalized) : ∃ layout, s.layout = .ok layout := by
  have hall : ∃ l, s.fields.mapM fieldLayout? = some l := by
    unfold Finalized at h
    generalize s.fields = fields at h
    induction fields with
    | nil => exact ⟨[], rfl⟩
    | cons f fields ih =>
      obtain ⟨⟨r, storage, hr, hsound⟩, hrest⟩ := List.forall_mem_cons.mp h
      obtain ⟨l, hl⟩ := ih hrest
      refine ⟨(r.kind, storage) :: l, ?_⟩
      simp [List.mapM_cons, fieldLayout?, Field.valueKind?, hr, hsound.kind, hl]
  obtain ⟨l, hl⟩ := hall
  exact ⟨l, by rw [Schema.layout, hl]⟩

theorem isResolved_of_finalized {s : Schema} (h : s.Finalized) : s.isResolved = true := by
  apply List.all_eq_true.mpr
  intro f hf
  obtain ⟨r, -, hr, -⟩ := h f hf
  simp [Field.isResolved, hr]

/-- A schema with one field of unsigned numbers, which are seven where they are not set. -/
def counter : Schema where
  name := "counter"
  fields := [{ (Field.ofKind "n" .uint64).withDefault (.typed (.uint 7)) with
    resolution := some ⟨.uint64, some (.uint 7)⟩ }]

theorem finalized_counter : counter.Finalized := by
  intro f hf
  obtain rfl := List.mem_singleton.mp hf
  exact ⟨_, .uint, rfl, rfl, fun v hv => by cases hv; rfl⟩

/-! ### Well-typed slots -/

/-- There is a slot for every field, and set slots hold values of their field's storage. -/
structure Admits (s : Schema) (slots : List (Option Value)) : Prop where
  length : slots.length = s.width
  storage : ∀ (i : Nat) (f : Field) (v : Value), s.fields[i]? = some f → slots[i]? = some (some v) →
    f.storage? = some v.storage

end Schema

namespace Row

theorem admits_blank (s : Schema) : s.Admits (blank s).slots where
  length := List.length_replicate
  storage := by
    intro i f v _ hv
    simp [blank, List.getElem?_replicate] at hv

/-- A slot is set to a value of its field's storage, or not at all. -/
theorem storage_of_set {r r' : Row} {i : Nat} {v : Value} (h : r.set i v = .ok r') :
    r' = r.put i (some v) ∧ ∃ f, r.schema.fields[i]? = some f ∧ f.storage? = some v.storage := by
  unfold set at h
  split at h
  · cases h
  · next f hf =>
    split at h
    · cases h
    · next expected hstorage =>
      split at h
      · next heq =>
        cases h
        exact ⟨rfl, f, hf, by rw [hstorage, heq]⟩
      · cases h

/-- **Setting a slot keeps a row well typed.** -/
theorem admits_set {r r' : Row} {i : Nat} {v : Value} (h : r.schema.Admits r.slots)
    (hset : r.set i v = .ok r') : r'.schema.Admits r'.slots := by
  obtain ⟨rfl, f, hf, hv⟩ := storage_of_set hset
  refine ⟨(List.length_set ..).trans h.length, ?_⟩
  intro j g w hg hw
  have hw' : (r.slots.set i (some v))[j]? = some (some w) := hw
  rw [List.getElem?_set] at hw'
  split at hw'
  · next hij =>
    subst hij
    split at hw'
    · cases hw'
      have hg' : r.schema.fields[i]? = some g := hg
      rw [hf] at hg'
      cases hg'
      exact hv
    · cases hw'
  · exact h.storage j g w hg hw'

/-- So does unsetting one. -/
theorem admits_unset {r : Row} (h : r.schema.Admits r.slots) (i : Nat) :
    (r.unset i).schema.Admits (r.unset i).slots := by
  refine ⟨(List.length_set ..).trans h.length, ?_⟩
  intro j g w hg hw
  have hw' : (r.slots.set i none)[j]? = some (some w) := hw
  rw [List.getElem?_set] at hw'
  split at hw'
  · split at hw' <;> cases hw'
  · exact h.storage j g w hg hw'

end Row
end Columnar
