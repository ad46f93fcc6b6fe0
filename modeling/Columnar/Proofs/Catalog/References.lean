import Mathlib.Data.List.Nodup
import Mathlib.Data.List.Perm.Subperm
import Columnar.Catalog
import Columnar.Proofs.Bytes.Unambiguous

/-!
# Where references lead

A reference names a schema and a field of it, and means the last field of that name.
Following references goes from stop to stop, a stop being a field and the name of the
schema that it is in.  That is said here without a search, and the search is held
against it: it goes along these stops while their texts are new, and what it answers
is what the stop says at which it has to end.

Texts are all that the search remembers of the stops that it passed.  Two fields of
one text look the same to it, so it may report a circle where references lead on;
what it answers with a kind is always right.

## Main definitions

* `Schema.LastNamed` — the last field of a name.
* `Stop`, `Stop.Targets` — a field, and the field that a reference means.
* `Stop.Leads` — references lead from a stop over others to a stop.
* `Stop.Ends` — what a search answers at the stop where it ends.
* `Catalog.Answers` — what the answer for a field says about its references.
* `Catalog.CirclesByText` — what the search takes for a circle.

## Main results

* `Resolution.ends_follow` — how far a search goes, and what it answers there.
* `Resolution.follow_of_leads` — a search goes on while the texts are new.
* `Catalog.answers_kindOf` — the answer for a field is right, and there is one.
* `Catalog.circlesByText_kindOf` — a circle is where a text comes again.
* `Catalog.kindOf_of_undotted` — among names without dots, from a field that is found by
  its own names, every chain that ends is followed to its end.
-/

namespace Columnar

/-! ### The last field of a name -/

namespace Schema

/-- The field is the last one in the schema that has the name. -/
def LastNamed (s : Schema) (name : String) (f : Field) : Prop :=
  ∃ i, s.fields[i]? = some f ∧ f.name = name ∧
    ∀ (j : Nat) (g : Field), i < j → s.fields[j]? = some g → g.name ≠ name

theorem field?_eq_some_iff {s : Schema} {name : String} {f : Field} :
    s.field? name = some f ↔ s.LastNamed name f := by
  unfold field? fieldIndex? LastNamed
  rw [Option.bind_eq_some_iff]
  simp only [lastIndex?_eq_some_iff, beq_iff_eq, beq_eq_false_iff_ne]
  constructor
  · rintro ⟨i, ⟨g, hg, hname, hlast⟩, hf⟩
    obtain rfl : g = f := Option.some.inj (hg.symm.trans hf)
    exact ⟨i, hf, hname, fun j g hj => hlast j hj g⟩
  · rintro ⟨i, hf, hname, hlast⟩
    exact ⟨i, ⟨f, hf, hname, fun j hj g => hlast j g hj⟩, hf⟩

theorem field?_eq_none_iff {s : Schema} {name : String} :
    s.field? name = none ↔ ∀ f ∈ s.fields, f.name ≠ name := by
  unfold field? fieldIndex?
  constructor
  · intro h
    cases hi : lastIndex? (fun f : Field => f.name == name) s.fields with
    | none => simpa using lastIndex?_eq_none_iff.mp hi
    | some i =>
      obtain ⟨f, hf, -⟩ := lastIndex?_eq_some_iff.mp hi
      simp [hi, hf] at h
  · intro h
    rw [lastIndex?_eq_none_iff.mpr (by simpa using h)]
    rfl

end Schema

theorem Resolution.name_of_find? {members : List Schema} {name : String} {s : Schema}
    (h : find? members name = some s) : s.name = name := by
  have hname := List.find?_some h
  simpa using hname

/-! ### Stops -/

/-- A field and the name of the schema that it is in. -/
structure Stop where
  schema : String
  field : Field

namespace Stop

/-- The text by which a search remembers the stop. -/
def text (a : Stop) : String := Resolution.pathKey a.schema a.field

/-- The field is what is found under its name and that of its schema. -/
def Found (members : List Schema) (a : Stop) : Prop :=
  ∃ t, Resolution.find? members a.schema = some t ∧ t.LastNamed a.field.name a.field

/-- The first stop is a reference, and the second is what it means: the last field of the name that
it gives, in the schema of the name that it gives. -/
structure Targets (members : List Schema) (a b : Stop) : Prop where
  ref : a.field.kind = .ref
  target : a.field.target? = some (b.schema, b.field.name)
  found : b.Found members

/-- References lead from the first stop to the last; the stops left on the way are listed. -/
inductive Leads (members : List Schema) : Stop → List Stop → Stop → Prop where
  | here (a : Stop) : Leads members a [] a
  | on {a b c : Stop} {stops : List Stop} (first : a.Targets members b)
      (rest : Leads members b stops c) : Leads members a (a :: stops) c

/-- What a search answers at the stop where it ends, when it has passed fields of some texts: the
kind of a field that is no reference; a circle, if the text of the stop was passed; else what the
reference is missing. -/
inductive Ends (members : List Schema) (passed : List String) (a : Stop) :
    Except Failure Kind → Prop where
  | kind (concrete : a.field.kind ≠ .ref) : Ends members passed a (.ok a.field.kind)
  | circle (ref : a.field.kind = .ref) (again : a.text ∈ passed) :
      Ends members passed a (.error (.circularReference (passed ++ [a.text])))
  | untargeted (ref : a.field.kind = .ref) (new : a.text ∉ passed)
      (target : a.field.target? = none) : Ends members passed a (.error (.unknownSchema ""))
  | noSchema (ref : a.field.kind = .ref) (new : a.text ∉ passed) {schema field : String}
      (target : a.field.target? = some (schema, field))
      (missing : Resolution.find? members schema = none) :
      Ends members passed a (.error (.unknownSchema schema))
  | noField (ref : a.field.kind = .ref) (new : a.text ∉ passed) {schema field : String}
      (target : a.field.target? = some (schema, field)) {t : Schema}
      (member : Resolution.find? members schema = some t)
      (missing : ∀ f ∈ t.fields, f.name ≠ field) :
      Ends members passed a (.error (.unknownField schema field))

variable {members : List Schema} {a b c : Stop} {stops more : List Stop}

theorem targets_of_lookups (ref : a.field.kind = .ref) {schema field : String}
    (target : a.field.target? = some (schema, field)) {t : Schema}
    (ht : Resolution.find? members schema = some t) {f : Field} (hf : t.field? field = some f) :
    a.Targets members ⟨t.name, f⟩ := by
  obtain rfl := Resolution.name_of_find? ht
  have hlast := Schema.field?_eq_some_iff.mp hf
  obtain ⟨i, -, rfl, -⟩ := id hlast
  exact ⟨ref, target, t, ht, hlast⟩

theorem Found.exists_lookups (h : a.Found members) :
    ∃ t, Resolution.find? members a.schema = some t ∧ t.field? a.field.name = some a.field ∧
      t.name = a.schema := by
  obtain ⟨t, ht, hlast⟩ := h
  exact ⟨t, ht, Schema.field?_eq_some_iff.mpr hlast, Resolution.name_of_find? ht⟩

/-- Under two names one field is found. -/
theorem Found.unique (ha : a.Found members) (hb : b.Found members) (hschema : a.schema = b.schema)
    (hname : a.field.name = b.field.name) : a = b := by
  obtain ⟨t, ht, hf, -⟩ := ha.exists_lookups
  obtain ⟨u, hu, hg, -⟩ := hb.exists_lookups
  rw [hschema, hu] at ht
  obtain rfl := Option.some.inj ht
  rw [hname, hg] at hf
  obtain ⟨as, af⟩ := a
  obtain ⟨bs, bf⟩ := b
  simp only at hschema hf
  rw [hschema, Option.some.inj hf]

/-- What is found is a field of a member. -/
theorem Found.text_mem (h : a.Found members) : a.text ∈ Resolution.pathKeys members := by
  obtain ⟨t, ht, hf, hname⟩ := h.exists_lookups
  have hmem := Resolution.pathKey_mem ht hf
  rwa [hname] at hmem

/-- A reference means one field. -/
theorem Targets.unique (hb : a.Targets members b) (hc : a.Targets members c) : b = c := by
  obtain ⟨hschema, hname⟩ := Prod.mk.inj (Option.some.inj (hb.target.symm.trans hc.target))
  exact hb.found.unique hc.found hschema hname

/-! ### Chains -/

/-- References lead on from the stop as often as one likes. -/
def Endless (members : List Schema) (a : Stop) : Prop :=
  ∀ n, ∃ stops b, Leads members a stops b ∧ stops.length = n

theorem Leads.append (h : Leads members a stops b) (hmore : Leads members b more c) :
    Leads members a (stops ++ more) c := by
  induction h with
  | here a => exact hmore
  | on first _ ih => exact .on first (ih hmore)

/-- A chain can be taken apart anywhere. -/
theorem Leads.exists_between (h : Leads members a (stops ++ more) c) :
    ∃ b, Leads members a stops b ∧ Leads members b more c := by
  induction stops generalizing a with
  | nil => exact ⟨a, .here a, h⟩
  | cons d stops ih =>
    cases h with
    | on first rest =>
      obtain ⟨b, hbefore, hafter⟩ := ih rest
      exact ⟨b, .on first hbefore, hafter⟩

/-- The first stop that a chain leaves is the one it starts from. -/
theorem Leads.eq_head (h : Leads members a (c :: stops) b) : a = c := by
  cases h
  rfl

/-- Of two chains from a stop one goes on where the other ends. -/
theorem Leads.linear {stops₁ stops₂ : List Stop} (h₁ : Leads members a stops₁ b)
    (h₂ : Leads members a stops₂ c) :
    (∃ more, stops₂ = stops₁ ++ more ∧ Leads members b more c) ∨
      ∃ more, stops₁ = stops₂ ++ more ∧ Leads members c more b := by
  induction h₁ generalizing stops₂ with
  | here a => exact .inl ⟨stops₂, rfl, h₂⟩
  | @on a a' b stops₁ first rest ih =>
    cases h₂ with
    | here a => exact .inr ⟨_, rfl, .on first rest⟩
    | @on _ a'' _ stops₂ first' rest' =>
      obtain rfl := first.unique first'
      rcases ih rest' with ⟨more, rfl, hmore⟩ | ⟨more, rfl, hmore⟩
      · exact .inl ⟨more, rfl, hmore⟩
      · exact .inr ⟨more, rfl, hmore⟩

/-- From a stop that means nothing no chain goes on. -/
theorem Leads.eq_of_no_target (h : Leads members a stops b)
    (hnone : ∀ a', ¬ a.Targets members a') : stops = [] ∧ a = b := by
  cases h with
  | here => exact ⟨rfl, rfl⟩
  | on first _ => exact absurd first (hnone _)

/-- So no chain is longer than one that ends at such a stop. -/
theorem Leads.length_le_of_no_target {stops' : List Stop} (h : Leads members a stops b)
    (hnone : ∀ b', ¬ b.Targets members b') (h' : Leads members a stops' c) :
    stops'.length ≤ stops.length := by
  rcases h.linear h' with ⟨more, rfl, hmore⟩ | ⟨more, rfl, -⟩
  · obtain ⟨rfl, -⟩ := hmore.eq_of_no_target hnone
    simp
  · simp

/-- Where references come back to a stop they lead on for ever. -/
theorem Leads.endless (h : Leads members a stops b) (hloop : Leads members b (b :: more) b) :
    Endless members a := by
  have hrounds : ∀ n, ∃ stops', Leads members a stops' b ∧ n ≤ stops'.length := by
    intro n
    induction n with
    | zero => exact ⟨stops, h, Nat.zero_le _⟩
    | succ n ih =>
      obtain ⟨stops', h', hn⟩ := ih
      refine ⟨stops' ++ b :: more, h'.append hloop, ?_⟩
      simp
      omega
  intro n
  obtain ⟨stops', h', hn⟩ := hrounds n
  obtain ⟨before, after, rfl, hlen⟩ : ∃ before after, stops' = before ++ after ∧ before.length = n :=
    ⟨stops'.take n, stops'.drop n, (List.take_append_drop n stops').symm,
      List.length_take_of_le hn⟩
  obtain ⟨c, hc, -⟩ := h'.exists_between
  exact ⟨before, c, hc, hlen⟩

/-- So they do where the last stop was passed before. -/
theorem Leads.endless_of_mem (h : Leads members a stops b) (hb : b ∈ stops) : Endless members a := by
  obtain ⟨before, after, rfl⟩ := List.append_of_mem hb
  obtain ⟨d, hbefore, hafter⟩ := h.exists_between
  obtain rfl := hafter.eq_head
  exact hbefore.endless hafter

theorem Leads.not_endless (h : Leads members a stops b) (hnone : ∀ b', ¬ b.Targets members b') :
    ¬ Endless members a := by
  intro hendless
  obtain ⟨longer, c, hlonger, hlen⟩ := hendless (stops.length + 1)
  have hle := h.length_le_of_no_target hnone hlonger
  omega

/-- A chain that ends passes no stop twice. -/
theorem Leads.nodup (h : Leads members a stops b) (hnone : ∀ b', ¬ b.Targets members b') :
    stops.Nodup := by
  induction h with
  | here a => exact List.nodup_nil
  | @on a a' b stops first rest ih =>
    refine List.nodup_cons.mpr ⟨fun hmem => ?_, ih hnone⟩
    obtain ⟨before, after, rfl⟩ := List.append_of_mem hmem
    obtain ⟨d, hbefore, hafter⟩ := rest.exists_between
    obtain rfl := hafter.eq_head
    have hloop : Leads members d (d :: before) d := .on first hbefore
    exact (Leads.on first rest).not_endless hnone ((Leads.here d).endless hloop)

theorem no_target_of_concrete (h : a.field.kind ≠ .ref) (b : Stop) : ¬ a.Targets members b :=
  fun ht => h ht.ref

/-- A search that ends without a circle is where no reference leads on. -/
theorem Ends.no_target {passed : List String} {answer : Except Failure Kind}
    (h : Ends members passed a answer) (hanswer : ∀ path, answer ≠ .error (.circularReference path))
    (b : Stop) : ¬ a.Targets members b := by
  intro ht
  obtain ⟨t, hmember, hfield, -⟩ := ht.found.exists_lookups
  have htarget := ht.target
  cases h with
  | kind concrete => exact concrete ht.ref
  | circle _ _ => exact hanswer _ rfl
  | untargeted _ _ target =>
    rw [target] at htarget
    cases htarget
  | noSchema _ _ target missing =>
    rw [target] at htarget
    cases htarget
    rw [missing] at hmember
    cases hmember
  | noField _ _ target member missing =>
    rw [target] at htarget
    cases htarget
    rw [member] at hmember
    cases hmember
    rw [Schema.field?_eq_none_iff.mpr missing] at hfield
    cases hfield

/-- Behind its first stop, a chain is among what is found. -/
theorem Leads.found (h : Leads members a stops b) (ha : a.Found members) :
    ∀ c ∈ stops, c.Found members := by
  induction h with
  | here a => exact fun c hc => absurd hc List.not_mem_nil
  | on first _ ih =>
    intro c hc
    rcases List.mem_cons.mp hc with rfl | hc
    · exact ha
    · exact ih first.found c hc

theorem Leads.found_last (h : Leads members a stops b) (ha : a.Found members) : b.Found members := by
  induction h with
  | here a => exact ha
  | on first _ ih => exact ih first.found

/-- A chain on which no text comes twice leaves no more stops than the members have fields, and one
more where it starts outside. -/
theorem Leads.length_le (h : Leads members a stops b) (hnew : (stops.map text).Nodup) :
    stops.length ≤ (Resolution.pathKeys members).length + 1 := by
  cases h with
  | here => exact Nat.zero_le _
  | @on _ a' _ stops first rest =>
    have hrest : (stops.map text).Nodup := (List.nodup_cons.mp hnew).2
    have hsub : stops.map text ⊆ Resolution.pathKeys members := by
      intro t ht
      obtain ⟨c, hc, rfl⟩ := List.mem_map.mp ht
      exact (rest.found first.found c hc).text_mem
    have hle := (hrest.subperm hsub).length_le
    simpa using hle

end Stop

/-! ### The search goes along a chain -/

namespace Resolution

open Stop

variable {members : List Schema} {a b : Stop} {stops : List Stop} {visited : List String}

/-- **A search goes along the references while the texts are new, and answers what the stop says at
which it ends.** -/
theorem ends_follow (members : List Schema) (visited : List String) (schema : String) (f : Field)
    (hvisited : visited.Nodup) :
    ∃ stops b, Leads members ⟨schema, f⟩ stops b ∧ (visited ++ stops.map text).Nodup ∧
      Ends members (visited ++ stops.map text) b (follow members visited schema f) := by
  fun_induction follow members visited schema f with
  | case1 visited schema f hkind => exact ⟨[], _, .here _, by simpa, by simpa using .kind hkind⟩
  | case2 visited schema f hkind key hv =>
    exact ⟨[], _, .here _, by simpa, by simpa using .circle (not_not.mp hkind) hv⟩
  | case3 visited schema f hkind key hv ht =>
    exact ⟨[], _, .here _, by simpa, by simpa using .untargeted (not_not.mp hkind) hv ht⟩
  | case4 visited schema f hkind key hv target field ht hs =>
    exact ⟨[], _, .here _, by simpa, by simpa using .noSchema (not_not.mp hkind) hv ht hs⟩
  | case5 visited schema f hkind key hv target field ht s hs hf =>
    refine ⟨[], _, .here _, by simpa, ?_⟩
    simpa using .noField (not_not.mp hkind) hv ht hs (Schema.field?_eq_none_iff.mp hf)
  | case6 visited schema f hkind key hv target field ht s hs next hf ih =>
    have hnodup : (visited ++ [key]).Nodup := by
      refine hvisited.append (List.nodup_singleton key) ?_
      simpa using hv
    obtain ⟨stops, b, hleads, htexts, hends⟩ := ih hnodup
    have hfirst : Targets members ⟨schema, f⟩ ⟨s.name, next⟩ :=
      targets_of_lookups (not_not.mp hkind) ht hs hf
    refine ⟨⟨schema, f⟩ :: stops, b, .on hfirst hleads, ?_, ?_⟩
    · simpa [text, key] using htexts
    · simpa [text, key] using hends

/-- A search goes on to what a reference means, if its text is new. -/
theorem follow_of_targets (h : a.Targets members b) (hnew : a.text ∉ visited) :
    follow members visited a.schema a.field =
      follow members (visited ++ [a.text]) b.schema b.field := by
  obtain ⟨t, ht, hf, hname⟩ := h.found.exists_lookups
  have hkey : pathKey a.schema a.field ∉ visited := hnew
  rw [follow, if_neg (not_not.mpr h.ref), dif_neg hkey]
  split
  · next hnone => simp [h.target] at hnone
  · next schema field htarget =>
    obtain ⟨rfl, rfl⟩ := Prod.mk.inj (Option.some.inj (h.target.symm.trans htarget))
    split
    · next hnone => simp [ht] at hnone
    · next u hu =>
      obtain rfl := Option.some.inj (ht.symm.trans hu)
      split
      · next hnone => simp [hf] at hnone
      · next g hg =>
        obtain rfl := Option.some.inj (hf.symm.trans hg)
        rw [hname]
        rfl

/-- **A search goes on while the texts are new.** -/
theorem follow_of_leads (h : Leads members a stops b) (hnew : (visited ++ stops.map text).Nodup) :
    follow members visited a.schema a.field =
      follow members (visited ++ stops.map text) b.schema b.field := by
  induction h generalizing visited with
  | here a => simp
  | @on a a' b stops first rest ih =>
    have hv : a.text ∉ visited := fun hmem => List.disjoint_of_nodup_append hnew hmem (by simp)
    have hnew' : (visited ++ [a.text] ++ stops.map text).Nodup := by simpa using hnew
    rw [follow_of_targets first hv, ih hnew']
    simp

/-- A kind is found where references lead to a field of that kind and no text comes twice. -/
theorem follow_eq_ok_iff {kind : Kind} :
    follow members [] a.schema a.field = .ok kind ↔ ∃ stops b, Leads members a stops b ∧
      (stops.map text).Nodup ∧ b.field.kind ≠ .ref ∧ b.field.kind = kind := by
  constructor
  · intro h
    obtain ⟨stops, b, hleads, hnew, hends⟩ := ends_follow members [] a.schema a.field List.nodup_nil
    rw [h] at hends
    cases hends with
    | kind concrete => exact ⟨stops, b, hleads, by simpa using hnew, concrete, rfl⟩
  · rintro ⟨stops, b, hleads, hnew, hconcrete, rfl⟩
    rw [follow_of_leads hleads (by simpa using hnew), follow, if_pos hconcrete]

end Resolution

/-! ### What the answer for a field says -/

namespace Catalog

open Stop

variable {c : Catalog} {s : Schema} {index : Nat} {f : Field}

/-- What the answer for a field of a schema says about the references from it.  The schema need not
be in the catalogue. -/
structure Answers (c : Catalog) (s : Schema) (index : Nat) (answer : Except Failure Kind) : Prop where
  /-- There may be no field at the position. -/
  missing : s.fields[index]? = none → answer = .error (.unknownField s.name (toString index))
  /-- The search for it ends, after no more references than the catalogue has fields and one more. -/
  ends : ∀ f, s.fields[index]? = some f → ∃ stops b, Leads c.schemas ⟨s.name, f⟩ stops b ∧
    stops.length ≤ (Resolution.pathKeys c.schemas).length + 1 ∧
    Ends c.schemas (stops.map text) b answer
  /-- A kind is the declared kind of a field that the references lead to, and not that of a
  reference. -/
  kind : ∀ k, answer = .ok k → k ≠ .ref ∧ ∃ f stops b, s.fields[index]? = some f ∧
    Leads c.schemas ⟨s.name, f⟩ stops b ∧ b.field.kind = k
  /-- References that lead on for ever are reported as a circle. -/
  endless : ∀ f, s.fields[index]? = some f → Endless c.schemas ⟨s.name, f⟩ →
    ∃ path, answer = .error (.circularReference path)
  /-- A schema is missing only where the references lead to one that has no target, or whose target
  names no schema of the catalogue. -/
  unknownSchema : ∀ name, answer = .error (.unknownSchema name) → ∃ f stops b,
    s.fields[index]? = some f ∧ Leads c.schemas ⟨s.name, f⟩ stops b ∧ b.field.kind = .ref ∧
      (b.field.target? = none ∧ name = "" ∨
        ∃ field, b.field.target? = some (name, field) ∧ c.get? name = none)
  /-- A field is missing only where the first one is, or where the references lead to one whose
  target names no field of a schema of the catalogue. -/
  unknownField : ∀ schema field, answer = .error (.unknownField schema field) →
    (s.fields[index]? = none ∧ schema = s.name ∧ field = toString index) ∨ ∃ f stops b,
      s.fields[index]? = some f ∧ Leads c.schemas ⟨s.name, f⟩ stops b ∧ b.field.kind = .ref ∧
        b.field.target? = some (schema, field) ∧
        ∃ t, c.get? schema = some t ∧ ∀ g ∈ t.fields, g.name ≠ field

theorem kindOf_of_some (hf : s.fields[index]? = some f) :
    c.kindOf s index = Resolution.follow c.schemas [] s.name f := by
  rw [kindOf, Resolution.kindOf, hf]

theorem kindOf_of_none (hnone : s.fields[index]? = none) :
    c.kindOf s index = .error (.unknownField s.name (toString index)) := by
  rw [kindOf, Resolution.kindOf, hnone]

/-- Where the search from a field ends, and what it answers there. -/
theorem ends_kindOf (c : Catalog) (hf : s.fields[index]? = some f) :
    ∃ stops b, Leads c.schemas ⟨s.name, f⟩ stops b ∧ (stops.map text).Nodup ∧
      Ends c.schemas (stops.map text) b (c.kindOf s index) := by
  rw [kindOf_of_some hf]
  simpa using Resolution.ends_follow c.schemas [] s.name f List.nodup_nil

/-- **There is an answer for every field of every schema, and it is right.** -/
theorem answers_kindOf (c : Catalog) (s : Schema) (index : Nat) :
    c.Answers s index (c.kindOf s index) := by
  cases hf : s.fields[index]? with
  | none =>
    have hanswer := kindOf_of_none (c := c) hf
    refine ⟨fun _ => hanswer, ?_, ?_, ?_, ?_, ?_⟩
    · intro f hsome
      rw [hf] at hsome
      cases hsome
    · intro k hk
      rw [hanswer] at hk
      cases hk
    · intro f hsome
      rw [hf] at hsome
      cases hsome
    · intro name hname
      rw [hanswer] at hname
      cases hname
    · intro schema field hfield
      rw [hanswer] at hfield
      cases hfield
      exact .inl ⟨hf, rfl, rfl⟩
  | some f =>
    obtain ⟨stops, b, hleads, hnew, hends⟩ := c.ends_kindOf hf
    generalize c.kindOf s index = answer at hends
    refine ⟨?_, ?_, ?_, ?_, ?_, ?_⟩
    · intro hnone
      rw [hf] at hnone
      cases hnone
    · intro g hg
      obtain rfl : f = g := Option.some.inj (hf.symm.trans hg)
      exact ⟨stops, b, hleads, hleads.length_le hnew, hends⟩
    · intro k hk
      subst hk
      cases hends with
      | kind concrete => exact ⟨concrete, f, stops, b, hf, hleads, rfl⟩
    · intro g hg hendless
      obtain rfl : f = g := Option.some.inj (hf.symm.trans hg)
      by_contra hpath
      have hnone := hends.no_target fun path hp => hpath ⟨path, hp⟩
      exact hleads.not_endless hnone hendless
    · intro name hname
      subst hname
      cases hends with
      | untargeted ref _ target => exact ⟨f, stops, b, hf, hleads, ref, .inl ⟨target, rfl⟩⟩
      | noSchema ref _ target missing =>
        exact ⟨f, stops, b, hf, hleads, ref, .inr ⟨_, target, missing⟩⟩
    · intro schema field hfield
      subst hfield
      cases hends with
      | noField ref _ target member missing =>
        exact .inr ⟨f, stops, b, hf, hleads, ref, target, _, member, missing⟩

/-! ### What is taken for a circle -/

/-- What the search from a field of a schema takes for a circle. -/
structure CirclesByText (c : Catalog) (s : Schema) (index : Nat) : Prop where
  /-- References that lead to a field of a kind are followed to it if no text comes twice. -/
  reached : ∀ f stops b, s.fields[index]? = some f → Leads c.schemas ⟨s.name, f⟩ stops b →
    b.field.kind ≠ .ref → (stops.map text).Nodup → c.kindOf s index = .ok b.field.kind
  /-- If one does, they are taken for a circle where it comes again. -/
  mistaken : ∀ f stops b, s.fields[index]? = some f → Leads c.schemas ⟨s.name, f⟩ stops b →
    b.field.kind ≠ .ref → ¬ (stops.map text).Nodup →
    ∃ path, c.kindOf s index = .error (.circularReference path) ∧ path <+: stops.map text
  /-- The path of a circle gives the texts of the stops as far as the one whose text came before.  It
  is a circle indeed if it was the same stop. -/
  circle : ∀ path, c.kindOf s index = .error (.circularReference path) → ∃ f stops b,
    s.fields[index]? = some f ∧ Leads c.schemas ⟨s.name, f⟩ stops b ∧ b.field.kind = .ref ∧
      (stops.map text).Nodup ∧ path = (stops ++ [b]).map text ∧
      ∃ a ∈ stops, a.text = b.text ∧ (a = b → Endless c.schemas ⟨s.name, f⟩)

theorem kindOf_of_leads {stops : List Stop} {b : Stop} (hf : s.fields[index]? = some f)
    (h : Leads c.schemas ⟨s.name, f⟩ stops b) (hb : b.field.kind ≠ .ref)
    (hnew : (stops.map text).Nodup) : c.kindOf s index = .ok b.field.kind := by
  rw [kindOf_of_some hf]
  exact Resolution.follow_eq_ok_iff.mpr ⟨stops, b, h, hnew, hb, rfl⟩

/-- A circle is a text that comes again. -/
theorem exists_circle {path : List String}
    (h : c.kindOf s index = .error (.circularReference path)) : ∃ f stops b,
      s.fields[index]? = some f ∧ Leads c.schemas ⟨s.name, f⟩ stops b ∧ b.field.kind = .ref ∧
        (stops.map text).Nodup ∧ path = (stops ++ [b]).map text ∧ ∃ a ∈ stops, a.text = b.text := by
  cases hf : s.fields[index]? with
  | none =>
    rw [kindOf_of_none hf] at h
    cases h
  | some f =>
    obtain ⟨stops, b, hleads, hnew, hends⟩ := c.ends_kindOf hf
    rw [h] at hends
    cases hends with
    | circle ref again =>
      obtain ⟨a, ha, htext⟩ := List.mem_map.mp again
      exact ⟨f, stops, b, rfl, hleads, ref, hnew, by simp, a, ha, htext⟩

/-- **The search takes for a circle what comes back to a text.** -/
theorem circlesByText_kindOf (c : Catalog) (s : Schema) (index : Nat) : c.CirclesByText s index := by
  refine ⟨fun f stops b hf hleads hb hnew => kindOf_of_leads hf hleads hb hnew, ?_, ?_⟩
  · intro f stops b hf hleads hb htwice
    obtain ⟨stops', b', hleads', hnew', hends⟩ := c.ends_kindOf hf
    -- the search does not come as far as the field of a kind
    rcases hleads.linear hleads' with ⟨more, rfl, hmore⟩ | ⟨more, rfl, hmore⟩
    · obtain ⟨rfl, -⟩ := hmore.eq_of_no_target (no_target_of_concrete hb)
      rw [List.append_nil] at hnew'
      exact absurd hnew' htwice
    · cases hmore with
      | here =>
        rw [List.append_nil] at htwice
        exact absurd hnew' htwice
      | @on _ d _ more first rest =>
        by_cases hpath : ∃ path, c.kindOf s index = .error (.circularReference path)
        · obtain ⟨path, hpath⟩ := hpath
          rw [hpath] at hends
          cases hends with
          | circle _ _ => exact ⟨_, hpath, more.map text, by simp⟩
        · exact absurd first (hends.no_target (fun path hp => hpath ⟨path, hp⟩) d)
  · intro path hpath
    obtain ⟨f, stops, b, hf, hleads, ref, hnew, rfl, a, ha, htext⟩ := exists_circle hpath
    refine ⟨f, stops, b, hf, hleads, ref, hnew, rfl, a, ha, htext, ?_⟩
    rintro rfl
    exact hleads.endless_of_mem ha

/-- Three schemas of one field each.  The first field leads to the second, which leads to the third,
which is no reference; but the texts of the first and the second are the same. -/
def dotted : Catalog where
  schemas := [
    ⟨"A", [Field.reference "b.c" "Z" "z"]⟩,
    ⟨"A.b", [Field.reference "c" "A" "b.c"]⟩,
    ⟨"Z", [Field.ofKind "z" .bool]⟩]

/-- References that lead to a field of a kind are taken for a circle if a text comes twice. -/
theorem circle_of_dots :
    Leads dotted.schemas ⟨"A.b", Field.reference "c" "A" "b.c"⟩
        [⟨"A.b", Field.reference "c" "A" "b.c"⟩, ⟨"A", Field.reference "b.c" "Z" "z"⟩]
        ⟨"Z", Field.ofKind "z" .bool⟩ ∧
      (Field.ofKind "z" .bool).kind = .bool ∧
      dotted.kindOf ⟨"A.b", [Field.reference "c" "A" "b.c"]⟩ 0 =
        .error (.circularReference ["A.b.c", "A.b.c"]) := by
  have hfirst : Targets dotted.schemas ⟨"A.b", Field.reference "c" "A" "b.c"⟩
      ⟨"A", Field.reference "b.c" "Z" "z"⟩ :=
    ⟨rfl, rfl, _, rfl, Schema.field?_eq_some_iff.mp rfl⟩
  have hsecond : Targets dotted.schemas ⟨"A", Field.reference "b.c" "Z" "z"⟩
      ⟨"Z", Field.ofKind "z" .bool⟩ := ⟨rfl, rfl, _, rfl, Schema.field?_eq_some_iff.mp rfl⟩
  refine ⟨.on hfirst (.on hsecond (.here _)), rfl, ?_⟩
  rw [kindOf_of_some rfl]
  exact (Resolution.follow_of_leads (.on hfirst (.here _)) (by simp)).trans (by
    rw [Resolution.follow, if_neg (by decide), dif_pos (by decide)]
    decide)

/-! ### Names without dots -/

/-- A text gives the names of schema and field, if there is no dot in that of the schema. -/
theorem schema_and_name_of_text {a b : Stop} (ha : '.' ∉ a.schema.toList) (hb : '.' ∉ b.schema.toList)
    (h : a.text = b.text) : a.schema = b.schema ∧ a.field.name = b.field.name := by
  have hchars : a.schema.toList ++ '.' :: a.field.name.toList =
      b.schema.toList ++ '.' :: b.field.name.toList := by
    simpa [text, Resolution.pathKey] using congrArg String.toList h
  obtain ⟨hschema, hname⟩ := append_mark_inj ha hb hchars
  exact ⟨String.toList_injective hschema, String.toList_injective hname⟩

/-- **No circle is seen where there is none** if no schema has a dot in its name, and the field is
the one that is found under its names. -/
theorem kindOf_of_undotted (hdots : ∀ t ∈ c.schemas, '.' ∉ t.name.toList)
    (hf : s.fields[index]? = some f) (hfound : Found c.schemas ⟨s.name, f⟩) :
    (∀ stops b, Leads c.schemas ⟨s.name, f⟩ stops b → b.field.kind ≠ .ref →
        c.kindOf s index = .ok b.field.kind) ∧
      ∀ path, c.kindOf s index = .error (.circularReference path) →
        Endless c.schemas ⟨s.name, f⟩ := by
  have hplain : ∀ a : Stop, a.Found c.schemas → '.' ∉ a.schema.toList := by
    rintro a ⟨t, ht, -⟩
    rw [← Resolution.name_of_find? ht]
    exact hdots t (List.mem_of_find?_eq_some ht)
  have hsame : ∀ a b : Stop, a.Found c.schemas → b.Found c.schemas → a.text = b.text → a = b := by
    intro a b ha hb htext
    obtain ⟨hschema, hname⟩ := schema_and_name_of_text (hplain a ha) (hplain b hb) htext
    exact ha.unique hb hschema hname
  constructor
  · intro stops b hleads hb
    have hstops := hleads.found hfound
    refine kindOf_of_leads hf hleads hb ?_
    exact (hleads.nodup (no_target_of_concrete hb)).map_on fun a ha d hd =>
      hsame a d (hstops a ha) (hstops d hd)
  · intro path hpath
    obtain ⟨g, stops, b, hg, hleads, -, -, -, a, ha, htext⟩ := exists_circle hpath
    obtain rfl : f = g := Option.some.inj (hf.symm.trans hg)
    obtain rfl := hsame a b (hleads.found hfound a ha) (hleads.found_last hfound) htext
    exact hleads.endless_of_mem ha

end Catalog
end Columnar
