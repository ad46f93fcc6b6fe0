import Columnar.Proofs.Bytes.Follow
import Columnar.Proofs.Catalog.References
import Columnar.Proofs.Schema.Finalized

/-!
# Finalizing a catalogue, over and over

A catalogue grows, and is finalized now and then.  What resolving has found for a field
is kept: it is written once, and later finalizing leaves it.  That this is still right
later on needs two things.  References go by the declarations of fields, which nothing
changes; and a name that leads somewhere leads there for good, since names are not
given twice.  So the chain of references from a field that was resolved is the same in
every later catalogue, and the same as it was in a schema by itself.

Finalizing looks up everything first and writes afterwards, field by field.  It is
written here in that way too, so that what a failure leaves behind can be said.

## Main definitions

* `Schema.declaration` — a schema without what resolving has found.
* `Resolution.Extends` — what is found by a name stays to be found.
* `Schema.Alone` — a schema that was finalized on its own only, if at all.
* `Catalog.finalizeInPlace` — finalizing as writes to one field after the other.
* `Catalog.Call`, `Catalog.run` — adding and finalizing.
* `Catalog.Kept` — what holds of a catalogue after any calls.
* `Catalog.Resolves` — all fields of a schema are resolved as the catalogue says.

## Main results

* `Resolution.ofField_of_extends` — what was found is found again when there is more.
* `Catalog.finalizeInPlace_eq` — the writes come to what `Catalog.finalize` gives.
* `Catalog.kept_run` — what every call keeps.
* `Catalog.lasts_run` — finalizing is all or nothing, and for good.
-/

namespace Columnar

/-! ### Declarations -/

namespace Field

/-- The field without what resolving has found. -/
def declaration (f : Field) : Field := { f with resolution := none }

@[simp] theorem declaration_resolvedTo (f : Field) (r : Resolution) :
    (f.resolvedTo r).declaration = f.declaration := rfl

variable {f g : Field}

theorem name_of_declaration (h : f.declaration = g.declaration) : f.name = g.name :=
  show f.declaration.name = g.declaration.name from congrArg Field.name h

theorem kind_of_declaration (h : f.declaration = g.declaration) : f.kind = g.kind :=
  show f.declaration.kind = g.declaration.kind from congrArg Field.kind h

theorem target?_of_declaration (h : f.declaration = g.declaration) : f.target? = g.target? :=
  show f.declaration.target? = g.declaration.target? from congrArg Field.target? h

theorem declaredDefault_of_declaration (h : f.declaration = g.declaration) :
    f.declaredDefault = g.declaredDefault :=
  show f.declaration.declaredDefault = g.declaration.declaredDefault from congrArg Field.declaredDefault h

end Field

namespace Schema

/-- The schema without what resolving has found. -/
def declaration (s : Schema) : Schema := { s with fields := s.fields.map Field.declaration }

variable {s t : Schema}

theorem name_of_declaration (h : s.declaration = t.declaration) : s.name = t.name :=
  show s.declaration.name = t.declaration.name from congrArg Schema.name h

/-- Two schemas of one declaration have the same fields in the same places. -/
theorem getElem?_of_declaration (h : s.declaration = t.declaration) (i : Nat) :
    s.fields[i]?.map Field.declaration = t.fields[i]?.map Field.declaration := by
  have hfields : s.fields.map Field.declaration = t.fields.map Field.declaration :=
    congrArg (fun d : Schema => d.fields) h
  simpa using congrArg (·[i]?) hfields

theorem exists_field_of_declaration (h : s.declaration = t.declaration) {i : Nat} {f : Field}
    (hf : s.fields[i]? = some f) :
    ∃ g, t.fields[i]? = some g ∧ f.declaration = g.declaration := by
  have hsame := getElem?_of_declaration h i
  rw [hf] at hsame
  obtain ⟨g, hg, heq⟩ := Option.map_eq_some_iff.mp hsame.symm
  exact ⟨g, hg, heq.symm⟩

theorem LastNamed.of_declaration (h : s.declaration = t.declaration) {name : String} {f : Field}
    (hf : s.LastNamed name f) : ∃ g, t.LastNamed name g ∧ f.declaration = g.declaration := by
  obtain ⟨i, hi, hname, hlast⟩ := hf
  obtain ⟨g, hg, hsame⟩ := exists_field_of_declaration h hi
  refine ⟨g, ⟨i, hg, ?_, ?_⟩, hsame⟩
  · rw [← Field.name_of_declaration hsame, hname]
  · intro j d hj hd
    obtain ⟨e, he, hde⟩ := exists_field_of_declaration h.symm hd
    rw [Field.name_of_declaration hde]
    exact hlast j e hj he

theorem declaration_resolvedTo {rs : List Resolution} (h : rs.length = s.fields.length) :
    (s.resolvedTo rs).declaration = s.declaration := by
  unfold declaration resolvedTo
  have hfields : (List.zipWith Field.resolvedTo s.fields rs).map Field.declaration =
      s.fields.map Field.declaration := by
    generalize s.fields = fields at h
    induction fields generalizing rs with
    | nil => simp
    | cons f fields ih =>
      cases rs with
      | nil => cases h
      | cons r rs => simp [ih (Nat.succ.inj h)]
  rw [hfields]

end Schema

/-! ### Chains stay when there is more -/

namespace Resolution

variable {members members' : List Schema}

/-- What is found by a name in the first schemas is found in the second with the same declaration. -/
def Extends (members members' : List Schema) : Prop :=
  ∀ name s, find? members name = some s →
    ∃ t, find? members' name = some t ∧ s.declaration = t.declaration

end Resolution

namespace Stop

open Resolution

variable {members members' : List Schema} {a a' b : Stop} {stops : List Stop}

/-- The stops are of one schema name, and their fields of one declaration. -/
structure Same (a a' : Stop) : Prop where
  schema : a.schema = a'.schema
  field : a.field.declaration = a'.field.declaration

theorem Same.text (h : a.Same a') : a.text = a'.text := by
  rw [Stop.text, Stop.text, pathKey, pathKey, h.schema, Field.name_of_declaration h.field]

theorem Targets.of_extends (hext : Extends members members') (ha : a.Same a')
    (h : a.Targets members b) : ∃ b', a'.Targets members' b' ∧ b.Same b' := by
  obtain ⟨s, hs, hlast⟩ := h.found
  obtain ⟨t, ht, hst⟩ := hext _ _ hs
  obtain ⟨g, hg, hfield⟩ := hlast.of_declaration hst
  have hname := Field.name_of_declaration hfield
  refine ⟨⟨b.schema, g⟩, ⟨?_, ?_, t, ht, ?_⟩, rfl, hfield⟩
  · rw [← Field.kind_of_declaration ha.field, h.ref]
  · rw [← Field.target?_of_declaration ha.field, h.target, hname]
  · rwa [← hname]

/-- A chain of references is there when there is more, with the same texts. -/
theorem Leads.of_extends (hext : Extends members members') (ha : a.Same a')
    (h : Leads members a stops b) :
    ∃ stops' b', Leads members' a' stops' b' ∧ stops.map text = stops'.map text ∧ b.Same b' := by
  -- every stop is replaced by one of the same declaration, and that means what the old one meant
  induction h generalizing a' with
  | here a => exact ⟨[], a', .here a', rfl, ha⟩
  | on first _ ih =>
    obtain ⟨d, hd, hsame⟩ := first.of_extends hext ha
    obtain ⟨stops', b', hrest, htexts, hb⟩ := ih hsame
    exact ⟨a' :: stops', b', .on hd hrest, by rw [List.map_cons, List.map_cons, ha.text, htexts], hb⟩

end Stop

namespace Resolution

variable {members members' : List Schema} {schema : String} {f g : Field} {r : Resolution}

/-- A kind that was found is found again when there is more. -/
theorem follow_of_extends (hext : Extends members members') (hfield : f.declaration = g.declaration)
    {kind : Kind} (h : follow members [] schema f = .ok kind) :
    follow members' [] schema g = .ok kind := by
  obtain ⟨stops, b, hleads, hnew, hconcrete, rfl⟩ :=
    (follow_eq_ok_iff (a := ⟨schema, f⟩)).mp h
  have hstart : Stop.Same ⟨schema, f⟩ ⟨schema, g⟩ := ⟨rfl, hfield⟩
  obtain ⟨stops', b', hleads', htexts, hb⟩ := hleads.of_extends hext hstart
  have hkind := Field.kind_of_declaration hb.field
  exact (follow_eq_ok_iff (a := ⟨schema, g⟩)).mpr
    ⟨stops', b', hleads', htexts ▸ hnew, hkind ▸ hconcrete, hkind.symm⟩

/-- The default is that which the field declares under the kind, and there is none if and only if it
declares none. -/
structure Defaults [Calendar] (r : Resolution) (f : Field) : Prop where
  value : r.default = f.declaredDefault.bind (Default.resolve? r.kind)
  absent : r.default = none ↔ f.declaredDefault = none

theorem ofField_eq_ok_iff [Calendar] :
    ofField members schema f = .ok r ↔ follow members [] schema f = .ok r.kind ∧ r.Defaults f := by
  unfold ofField
  obtain ⟨kind, default⟩ := r
  cases hk : follow members [] schema f with
  | error e => simp [bind, Except.bind]
  | ok k =>
    cases hd : f.declaredDefault with
    | none =>
      simp only [bind, Except.bind, pure, Except.pure, Except.ok.injEq, Resolution.mk.injEq]
      constructor
      · rintro ⟨rfl, rfl⟩
        exact ⟨rfl, by simp [hd], by simp [hd]⟩
      · rintro ⟨rfl, hdefault⟩
        exact ⟨rfl, by simpa [hd] using hdefault.value.symm⟩
    | some d =>
      cases hv : d.resolve? k with
      | none =>
        simp only [bind, Except.bind, hv, reduceCtorEq, false_iff]
        rintro ⟨hkind, hdefault⟩
        obtain rfl := Except.ok.inj hkind
        have hnone : default = none := by simpa [hd, hv] using hdefault.value
        have habsent := hdefault.absent.mp hnone
        rw [hd] at habsent
        cases habsent
      | some v =>
        simp only [bind, Except.bind, hv, pure, Except.pure, Except.ok.injEq, Resolution.mk.injEq]
        constructor
        · rintro ⟨rfl, rfl⟩
          exact ⟨rfl, by simp [hd, hv], by simp [hd]⟩
        · rintro ⟨rfl, hdefault⟩
          exact ⟨rfl, by simpa [hd, hv] using hdefault.value.symm⟩

/-- **What was found for a field is found again when there is more.** -/
theorem ofField_of_extends [Calendar] (hext : Extends members members')
    (hfield : f.declaration = g.declaration) (h : ofField members schema f = .ok r) :
    ofField members' schema g = .ok r := by
  obtain ⟨hkind, hdefault⟩ := ofField_eq_ok_iff.mp h
  have hdeclared := Field.declaredDefault_of_declaration hfield
  exact ofField_eq_ok_iff.mpr ⟨follow_of_extends hext hfield hkind,
    hdeclared ▸ hdefault.value, hdeclared ▸ hdefault.absent⟩

/-! ### Names -/

/-- No two schemas have one name. -/
def Distinct (members : List Schema) : Prop := (members.map (·.name)).Nodup

theorem distinct_singleton (s : Schema) : Distinct [s] := List.nodup_singleton _

theorem find?_eq_some_iff (h : Distinct members) {name : String} {s : Schema} :
    find? members name = some s ↔ s ∈ members ∧ s.name = name := by
  constructor
  · intro hs
    exact ⟨List.mem_of_find?_eq_some hs, name_of_find? hs⟩
  · rintro ⟨hs, rfl⟩
    cases ht : find? members s.name with
    | none => simpa using List.find?_eq_none.mp ht s hs
    | some t =>
      rw [List.inj_on_of_nodup_map h (List.mem_of_find?_eq_some ht) hs (name_of_find? ht)]

theorem extends_of_declarations (hdistinct : Distinct members')
    (h : ∀ s ∈ members, ∃ t ∈ members', s.declaration = t.declaration) :
    Extends members members' := by
  intro name s hs
  obtain ⟨t, ht, hsame⟩ := h s (List.mem_of_find?_eq_some hs)
  refine ⟨t, (find?_eq_some_iff hdistinct).mpr ⟨ht, ?_⟩, hsame⟩
  rw [← Schema.name_of_declaration hsame, name_of_find? hs]

end Resolution

/-! ### Resolutions that are right -/

namespace Schema

open Resolution

variable [Calendar] {members members' : List Schema} {s t : Schema} {rs : List Resolution}

/-- The fields that are resolved are so as resolving them would find. -/
def RightAmong (s : Schema) (members : List Schema) : Prop :=
  ∀ f ∈ s.fields, ∀ r, f.resolution = some r → ofField members s.name f = .ok r

theorem RightAmong.of_extends (h : s.RightAmong members) (hext : Extends members members') :
    s.RightAmong members' :=
  fun f hf r hr => ofField_of_extends hext rfl (h f hf r hr)

/-- Resolving a schema keeps what was right, and makes all of it so. -/
theorem rightAmong_resolvedTo (h : s.RightAmong members) (hrs : ofSchema members s = .ok rs)
    (hext : Extends members members') : (s.resolvedTo rs).RightAmong members' := by
  intro f hf r hr
  obtain ⟨g, hg, r', hr', rfl⟩ := exists_of_mem_resolvedTo hrs hf
  refine ofField_of_extends (f := g) hext rfl ?_
  -- the field keeps a resolution that it had, and takes the new one only if it had none
  cases hold : g.resolution with
  | none =>
    obtain rfl : r' = r := by simpa [Field.resolvedTo, hold] using hr
    exact hr'
  | some old =>
    obtain rfl : old = r := by simpa [Field.resolvedTo, hold] using hr
    exact h g hg old hold

/-- A schema that was finalized on its own only, if at all. -/
inductive Alone : Schema → Prop where
  | declared {s : Schema} (h : ∀ f ∈ s.fields, f.resolution = none) : Alone s
  | finalized {s t : Schema} (h : Alone s) (ht : s.finalize = .ok t) : Alone t

/-- What a schema has found on its own is right among its own fields. -/
theorem rightAmong_of_alone (h : s.Alone) : s.RightAmong [s] := by
  induction h with
  | declared h =>
    intro f hf r hr
    rw [h f hf] at hr
    cases hr
  | @finalized s t _ ht ih =>
    obtain ⟨rs, hrs, ht⟩ := exists_of_bind ht
    obtain rfl : s.resolvedTo rs = t := Except.ok.inj ht
    -- its own fields before are its own fields after, but for what was found
    refine rightAmong_resolvedTo ih hrs (extends_of_declarations (distinct_singleton _) ?_)
    intro u hu
    obtain rfl := List.mem_singleton.mp hu
    exact ⟨_, List.mem_singleton_self _, (declaration_resolvedTo (length_of_ofSchema hrs)).symm⟩

end Schema

/-! ### Finalizing in place -/

section WriteAt

variable {α β : Type}

/-- The list after a write to one of its elements. -/
def writeAt (g : α → β → α) (as : List α) (w : Nat × β) : List α := as.modify w.1 (g · w.2)

/-- Writes behind the first element leave that alone. -/
theorem foldl_writeAt_behind (g : α → β → α) (a : α) (as : List α) (ws : List (Nat × β)) :
    (ws.map fun w => (w.1 + 1, w.2)).foldl (writeAt g) (a :: as) =
      a :: ws.foldl (writeAt g) as := by
  induction ws generalizing as with
  | nil => rfl
  | cons w ws ih => simp only [List.map_cons, List.foldl_cons, writeAt, List.modify_succ_cons, ih]

/-- Writes to one element after the other write to all of them. -/
theorem foldl_writeAt_mapIdx (g : α → β → α) {as : List α} {bs : List β}
    (h : bs.length = as.length) :
    (bs.mapIdx Prod.mk).foldl (writeAt g) as = List.zipWith g as bs := by
  induction as generalizing bs with
  | nil =>
    obtain rfl := List.eq_nil_of_length_eq_zero h
    rfl
  | cons a as ih =>
    cases bs with
    | nil => cases h
    | cons b bs =>
      have hbehind : bs.mapIdx (fun i => Prod.mk (i + 1)) =
          (bs.mapIdx Prod.mk).map fun w => (w.1 + 1, w.2) :=
        List.ext_getElem? fun i => by simp [Function.comp_def]
      rw [List.mapIdx_cons, hbehind, List.foldl_cons, writeAt, List.modify_zero_cons,
        foldl_writeAt_behind, ih (Nat.succ.inj h), List.zipWith_cons_cons]

/-- Writes to one element only. -/
theorem foldl_writeAt_same (g : α → β → α) (i : Nat) (as : List α) (bs : List β) :
    (bs.map (Prod.mk i)).foldl (writeAt g) as = as.modify i fun a => bs.foldl g a := by
  induction bs generalizing as with
  | nil => exact (List.modify_id i as).symm
  | cons b bs ih =>
    rw [List.map_cons, List.foldl_cons, ih, writeAt, List.modify_modify_eq]
    rfl

end WriteAt

namespace Schema

/-- The schema after one of its fields was written, unless that was resolved before. -/
def settle (s : Schema) (w : Nat × Resolution) : Schema :=
  { s with fields := writeAt Field.resolvedTo s.fields w }

theorem foldl_settle {s : Schema} {rs : List Resolution} (h : rs.length = s.fields.length) :
    (rs.mapIdx Prod.mk).foldl settle s = s.resolvedTo rs := by
  have hone : ∀ (fields : List Field) (w : Nat × Resolution),
      settle ⟨s.name, fields⟩ w = ⟨s.name, writeAt Field.resolvedTo fields w⟩ := fun _ _ => rfl
  rw [resolvedTo, ← foldl_writeAt_mapIdx _ h]
  exact List.foldl_hom (Schema.mk s.name) hone

end Schema

namespace Catalog

open Stop

variable {c d : Catalog} {s t : Schema}

/-- What was found for the fields of schemas, with the places of the fields. -/
def placed (rss : List (List Resolution)) : List (Nat × Nat × Resolution) :=
  (rss.mapIdx Prod.mk).flatMap fun p => (p.2.mapIdx Prod.mk).map (Prod.mk p.1)

/-- Finalizing a catalogue whose fields are written while that is done.  Everything is found before
the first field is written. -/
def finalizeInPlace [Calendar] (c : Catalog) : Except Failure Unit × Catalog :=
  match c.schemas.mapM (Resolution.ofSchema c.schemas) with
  | .error e => (.error e, c)
  | .ok rss => (.ok (), ⟨(placed rss).foldl (writeAt Schema.settle) c.schemas⟩)

theorem foldl_settle_placed {ss : List Schema} {rss : List (List Resolution)}
    (h : List.Forall₂ (fun s rs => rs.length = s.fields.length) ss rss) :
    (placed rss).foldl (writeAt Schema.settle) ss = List.zipWith Schema.resolvedTo ss rss := by
  -- schema by schema, the writes to its fields are one write to the schema
  have hschemas : (placed rss).foldl (writeAt Schema.settle) ss =
      List.zipWith (fun s rs => (rs.mapIdx Prod.mk).foldl Schema.settle s) ss rss := by
    rw [placed, List.foldl_flatMap, ← foldl_writeAt_mapIdx _ h.length_eq.symm]
    simp only [foldl_writeAt_same]
    rfl
  rw [hschemas]
  clear hschemas
  induction h with
  | nil => rfl
  | cons hlen _ ih => simp only [List.zipWith_cons_cons, Schema.foldl_settle hlen, ih]

/-- **Writing field by field comes to the catalogue with all fields resolved.** -/
theorem finalizeInPlace_eq [Calendar] (c : Catalog) : c.finalizeInPlace =
    match c.finalize with
    | .ok d => (.ok (), d)
    | .error e => (.error e, c) := by
  unfold finalizeInPlace finalize
  cases hrss : c.schemas.mapM (Resolution.ofSchema c.schemas) with
  | error e => rfl
  | ok rss =>
    have hlen := (forall₂_of_mapM hrss).imp fun _ _ h => Schema.length_of_ofSchema h
    simp only [foldl_settle_placed hlen, bind, Except.bind, pure, Except.pure]

/-! ### Calls -/

theorem insert_perm (s : Schema) (ss : List Schema) : (insert s ss).Perm (s :: ss) := by
  induction ss with
  | nil => exact .refl _
  | cons t ss ih =>
    unfold insert
    split
    · exact .refl _
    · exact (ih.cons t).trans (.swap s t ss)

/-- A call on a catalogue. -/
inductive Call where
  | add (s : Schema)
  | finalize

variable [Calendar]

/-- What a call answers, and the catalogue after it. -/
def call (c : Catalog) : Call → Except Failure Unit × Catalog
  | .add s =>
    match c.add s with
    | .ok d => (.ok (), d)
    | .error e => (.error e, c)
  | .finalize => c.finalizeInPlace

/-- The catalogue after some calls. -/
def run (c : Catalog) (calls : List Call) : Catalog := calls.foldl (fun c k => (c.call k).2) c

/-- All that a call can do: add a schema under a new name, finalize, or fail and leave the catalogue
as it is. -/
theorem call_cases (c : Catalog) (k : Call) :
    (∃ s, k = .add s ∧ Resolution.find? c.schemas s.name = none ∧
        c.call k = (.ok (), ⟨insert s c.schemas⟩)) ∨
      (∃ d, k = .finalize ∧ c.finalize = .ok d ∧ c.call k = (.ok (), d)) ∨
      ∃ e, c.call k = (.error e, c) := by
  cases k with
  | add s =>
    cases hs : Resolution.find? c.schemas s.name with
    | none => exact .inl ⟨s, rfl, hs, by simp [call, add, get?, hs]⟩
    | some t => exact .inr (.inr ⟨.duplicateSchema s.name, by simp [call, add, get?, hs]⟩)
  | finalize =>
    cases hd : c.finalize with
    | error e => exact .inr (.inr ⟨e, by simp [call, finalizeInPlace_eq, hd]⟩)
    | ok d => exact .inr (.inl ⟨d, rfl, rfl, by simp [call, finalizeInPlace_eq, hd]⟩)

/-! ### What all calls keep -/

/-- No name is given twice, and what is resolved is so rightly. -/
structure Kept (c : Catalog) : Prop where
  names : Resolution.Distinct c.schemas
  right : ∀ s ∈ c.schemas, s.RightAmong c.schemas

theorem kept_empty : empty.Kept where
  names := List.nodup_nil
  right := fun _ hs => absurd hs List.not_mem_nil

theorem Kept.insert (h : c.Kept) (hnew : Resolution.find? c.schemas s.name = none) (hs : s.Alone) :
    Kept ⟨insert s c.schemas⟩ := by
  have hperm := insert_perm s c.schemas
  have hnames : Resolution.Distinct (Catalog.insert s c.schemas) := by
    refine (hperm.map _).nodup_iff.mpr (List.nodup_cons.mpr ⟨?_, h.names⟩)
    intro hmem
    obtain ⟨t, ht, hname⟩ := List.mem_map.mp hmem
    simpa [hname] using List.find?_eq_none.mp hnew t ht
  refine ⟨hnames, fun t ht => ?_⟩
  rcases List.mem_cons.mp (hperm.mem_iff.mp ht) with rfl | ht
  · -- what it has found by itself it would find here
    refine (Schema.rightAmong_of_alone hs).of_extends (Resolution.extends_of_declarations hnames ?_)
    intro u hu
    obtain rfl := List.mem_singleton.mp hu
    exact ⟨u, hperm.mem_iff.mpr List.mem_cons_self, rfl⟩
  · refine (h.right t ht).of_extends (Resolution.extends_of_declarations hnames ?_)
    exact fun u hu => ⟨u, hperm.mem_iff.mpr (List.mem_cons_of_mem _ hu), rfl⟩

theorem Kept.finalize (h : c.Kept) (hd : c.finalize = .ok d) : d.Kept := by
  have hnames : Resolution.Distinct d.schemas := by
    rw [Resolution.Distinct, names_of_finalize hd]
    exact h.names
  have hext : Resolution.Extends c.schemas d.schemas := by
    refine Resolution.extends_of_declarations hnames fun s hs => ?_
    obtain ⟨rs, hrs, hmem⟩ := exists_resolvedTo_of_mem hd hs
    exact ⟨_, hmem, (Schema.declaration_resolvedTo (Schema.length_of_ofSchema hrs)).symm⟩
  refine ⟨hnames, fun t ht => ?_⟩
  obtain ⟨s, hs, rs, hrs, rfl⟩ := exists_of_mem_finalize hd ht
  exact Schema.rightAmong_resolvedTo (h.right s hs) hrs hext

theorem kept_call (h : c.Kept) {k : Call} (hk : ∀ s, k = .add s → s.Alone) : (c.call k).2.Kept := by
  rcases c.call_cases k with ⟨s, rfl, hnew, hcall⟩ | ⟨d, rfl, hd, hcall⟩ | ⟨e, hcall⟩
  · rw [hcall]
    exact h.insert hnew (hk s rfl)
  · rw [hcall]
    exact h.finalize hd
  · rw [hcall]
    exact h

/-- **Every call keeps names distinct and resolutions right.** -/
theorem kept_run (h : c.Kept) {calls : List Call} (hcalls : ∀ s, Call.add s ∈ calls → s.Alone) :
    (c.run calls).Kept := by
  induction calls generalizing c with
  | nil => exact h
  | cons k calls ih =>
    refine ih (kept_call h fun s hs => hcalls s ?_) fun s hs => hcalls s (List.mem_cons_of_mem _ hs)
    rw [hs]
    exact List.mem_cons_self

/-- A schema that is resolved stays, as it is. -/
theorem mem_call (hs : s ∈ c.schemas) (hres : s.isResolved = true) (k : Call) :
    s ∈ (c.call k).2.schemas := by
  rcases c.call_cases k with ⟨t, -, -, hcall⟩ | ⟨d, -, hd, hcall⟩ | ⟨e, hcall⟩
  · rw [hcall]
    exact (insert_perm t c.schemas).mem_iff.mpr (List.mem_cons_of_mem _ hs)
  · rw [hcall]
    obtain ⟨rs, hrs, hmem⟩ := exists_resolvedTo_of_mem hd hs
    rwa [Schema.resolvedTo_of_isResolved hres (Schema.length_of_ofSchema hrs)] at hmem
  · rw [hcall]
    exact hs

theorem mem_run (hs : s ∈ c.schemas) (hres : s.isResolved = true) (calls : List Call) :
    s ∈ (c.run calls).schemas := by
  induction calls generalizing c with
  | nil => exact hs
  | cons k calls ih => exact ih (mem_call hs hres k)

/-! ### Finalizing is for good -/

/-- All fields of a schema are resolved, with the kind that the catalogue says, and the default that
is declared. -/
def Resolves (c : Catalog) (s : Schema) : Prop :=
  ∀ index f, s.fields[index]? = some f →
    ∃ r, f.resolution = some r ∧ c.kindOf s index = .ok r.kind ∧ r.Defaults f

theorem Kept.resolves (h : c.Kept) (hs : s ∈ c.schemas) (hres : s.isResolved = true) :
    c.Resolves s := by
  intro index f hf
  have hmem := List.mem_of_getElem? hf
  obtain ⟨r, hr⟩ := Option.isSome_iff_exists.mp (List.all_eq_true.mp hres f hmem)
  obtain ⟨hkind, hdefault⟩ := Resolution.ofField_eq_ok_iff.mp (h.right s hs f hmem r hr)
  exact ⟨r, hr, (kindOf_of_some hf).trans hkind, hdefault⟩

/-- What can be said of the answer and of the catalogue after it was finalized, and after some more
calls. -/
structure Lasts (c : Catalog) (later : List Call) (out : Except Failure Unit × Catalog) : Prop where
  /-- If finalizing fails, then nothing was changed. -/
  failed : ∀ e, out.1 = .error e → out.2 = c
  /-- If it succeeds, then all fields of all schemas are resolved as the catalogue says, and nothing
  else was changed.  After more calls these schemas are there as they are now, and resolved as the
  catalogue says then. -/
  done : out.1 = .ok () → List.Forall₂
    (fun s t => t.declaration = s.declaration ∧ out.2.Resolves t ∧
      (out.2.run later).get? t.name = some t ∧ (out.2.run later).Resolves t) c.schemas out.2.schemas

/-- **Finalizing is all or nothing, and for good.** -/
theorem lasts_run (before later : List Call)
    (h : ∀ s, Call.add s ∈ before ++ later → s.Alone) :
    (empty.run before).Lasts later ((empty.run before).call .finalize) := by
  have hkept : (empty.run before).Kept :=
    kept_run kept_empty fun s hs => h s (List.mem_append_left _ hs)
  generalize empty.run before = c at hkept
  rcases c.call_cases .finalize with ⟨s, hk, -, -⟩ | ⟨d, -, hd, hcall⟩ | ⟨e, hcall⟩
  · cases hk
  · rw [hcall]
    refine ⟨?_, fun _ => ?_⟩
    · intro e he
      cases he
    · have hafter := hkept.finalize hd
      have hlater : (d.run later).Kept := kept_run hafter fun s hs => h s (List.mem_append_right _ hs)
      have hall := (List.forall₂_and_left d.schemas c.schemas).mpr
        ⟨fun t ht => ht, (forall₂_of_finalize hd).flip⟩
      refine hall.flip.imp ?_
      -- what is resolved stays as it is, and everything that stays is right
      rintro s t ⟨ht, rs, hrs, rfl⟩
      have hres := Schema.isResolved_resolvedTo hrs
      have ht' := mem_run ht hres later
      exact ⟨Schema.declaration_resolvedTo (Schema.length_of_ofSchema hrs), hafter.resolves ht hres,
        (Resolution.find?_eq_some_iff hlater.names).mpr ⟨ht', rfl⟩, hlater.resolves ht' hres⟩
  · rw [hcall]
    refine ⟨fun _ _ => rfl, fun hok => ?_⟩
    cases hok

end Catalog

namespace Catalog

open Stop
open scoped Builtin

/-- A field with a default. -/
def sensorId : Field := (Field.ofKind "id" .uint64).withDefault (.typed (.uint 7))

def sensor : Schema := ⟨"sensor", [sensorId]⟩

/-- The schema after it was finalized on its own. -/
def settledSensor : Schema := sensor.resolvedTo [⟨.uint64, some (.uint 7)⟩]

/-- A field that means the one with the default. -/
def readingOf : Field := Field.reference "of" "sensor" "id"

def reading : Schema := ⟨"reading", [readingOf]⟩

/-- A schema whose only field means nothing that is there. -/
def stray : Schema := ⟨"stray", [Field.reference "of" "nowhere" "id"]⟩

theorem finalize_sensor : sensor.finalize = .ok settledSensor := by
  have hkind : Resolution.follow [sensor] [] "sensor" sensorId = .ok .uint64 :=
    Resolution.follow_eq_ok_iff (a := ⟨"sensor", sensorId⟩).mpr
      ⟨[], _, .here _, List.nodup_nil, by decide, rfl⟩
  have hfield := Resolution.ofField_eq_ok_iff (r := ⟨.uint64, some (.uint 7)⟩).mpr
    ⟨hkind, rfl, by decide⟩
  have hschema : Resolution.ofSchema [sensor] sensor = .ok [⟨.uint64, some (.uint 7)⟩] :=
    mapM_of_forall₂ (.cons hfield .nil)
  rw [Schema.finalize, hschema]
  rfl

theorem finalize_sensors : (⟨[reading, settledSensor]⟩ : Catalog).finalize =
    .ok ⟨[reading.resolvedTo [⟨.uint64, none⟩], settledSensor]⟩ := by
  let found : Field := sensorId.resolvedTo ⟨.uint64, some (.uint 7)⟩
  have htargets : Targets [reading, settledSensor] ⟨"reading", readingOf⟩ ⟨"sensor", found⟩ :=
    ⟨rfl, rfl, _, rfl, Schema.field?_eq_some_iff.mp rfl⟩
  have hreading : Resolution.follow [reading, settledSensor] [] "reading" readingOf = .ok .uint64 :=
    Resolution.follow_eq_ok_iff (a := ⟨"reading", readingOf⟩).mpr
      ⟨_, _, .on htargets (.here _), List.nodup_singleton _, by decide, rfl⟩
  have hsensor : Resolution.follow [reading, settledSensor] [] "sensor" found = .ok .uint64 :=
    Resolution.follow_eq_ok_iff (a := ⟨"sensor", found⟩).mpr
      ⟨[], _, .here _, List.nodup_nil, by decide, rfl⟩
  have hall : [reading, settledSensor].mapM (Resolution.ofSchema [reading, settledSensor]) =
      .ok [[⟨.uint64, none⟩], [⟨.uint64, some (.uint 7)⟩]] := by
    refine mapM_of_forall₂ (.cons (mapM_of_forall₂ (.cons ?_ .nil))
      (.cons (mapM_of_forall₂ (.cons ?_ .nil)) .nil))
    · exact Resolution.ofField_eq_ok_iff.mpr ⟨hreading, rfl, by decide⟩
    · exact Resolution.ofField_eq_ok_iff.mpr ⟨hsensor, rfl, by decide⟩
  rw [finalize, hall]
  rfl

/-- A catalogue with a schema that was finalized before, and one that refers to it.  A later schema
cannot be resolved. -/
theorem lasts_run_sensors :
    (∀ s, Call.add s ∈ [.add settledSensor, .add reading] ++ [.add stray, .finalize] → s.Alone) ∧
      (empty.run [.add settledSensor, .add reading]).call .finalize =
        (.ok (), ⟨[reading.resolvedTo [⟨.uint64, none⟩], settledSensor]⟩) ∧
      (empty.run [.add settledSensor, .add reading]).Lasts [.add stray, .finalize]
        ((empty.run [.add settledSensor, .add reading]).call .finalize) := by
  have halone : ∀ s, Call.add s ∈ [.add settledSensor, .add reading] ++ [.add stray, .finalize] →
      s.Alone := by
    intro s hs
    simp only [List.cons_append, List.nil_append, List.mem_cons, Call.add.injEq, reduceCtorEq,
      List.not_mem_nil, or_false] at hs
    rcases hs with rfl | rfl | rfl
    · have hsensor : sensor.Alone := .declared (by decide)
      exact .finalized hsensor finalize_sensor
    · exact .declared (by decide)
    · exact .declared (by decide)
  have hrun : empty.run [.add settledSensor, .add reading] = ⟨[reading, settledSensor]⟩ := by decide
  refine ⟨halone, ?_, lasts_run _ _ halone⟩
  rw [hrun, call, finalizeInPlace_eq, finalize_sensors]

end Catalog
end Columnar
