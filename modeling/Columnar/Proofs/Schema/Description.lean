import Mathlib.Tactic.MkIffOfInductiveProp
import Columnar.Proofs.Bytes.Unambiguous
import Columnar.Schema.Exchange
import Columnar.Schema.Fingerprint

/-!
# What the description of a schema tells

The fingerprint of a schema is the hash of its description, and is the only thing by
which the two sides of a stream compare their schemas.  Two descriptions are equal
only where the schemas are declared alike: names end at a zero byte, which is in none
of them; lists and texts of defaults come behind their counts; a letter tells the form
of a default, which tells what follows.

## Main definitions

* `Fnv1a.published` — the hash in plain arithmetic.
* `Field.Made` — the ways in which fields come about.
* `Field.Describable`, `Schema.Describable` — names without the zero character, and no
  list too long to be counted.
* `Field.DeclaredLike`, `Schema.DeclaredLike` — declared alike.

## Main results

* `Default.description_append_inj`, `Field.description_append_inj` — a description shows
  where it ends.
* `Field.ascending_of_made` — attributes are in order in every field.
* `Schema.describes_unambiguously` — descriptions are equal if and only if schemas are
  declared alike.
-/

namespace Columnar

/-! ### The hash -/

namespace Fnv1a

/-- FNV-1a of 64 bits as it is published: a byte is xored into the state, which is multiplied by a
prime modulo `2 ^ 64`. -/
def published (bs : List UInt8) : Nat :=
  bs.foldl (fun state b => (state ^^^ b.toNat) * 1099511628211 % 2 ^ 64) 14695981039346656037

theorem toNat_step (state : UInt64) (b : UInt8) :
    (step state b).toNat = (state.toNat ^^^ b.toNat) * 1099511628211 % 2 ^ 64 := by
  rw [step, UInt64.toNat_mul, UInt64.toNat_xor, UInt8.toNat_toUInt64]
  rfl

theorem toNat_hash (bs : List UInt8) : (hash bs).toNat = published bs :=
  (List.foldl_hom UInt64.toNat fun state b => (toNat_step state b).symm).symm

/-! ### Texts, counts and flags -/

/-- A text that does not hold the character which ends it. -/
def Plain (s : String) : Prop := '\x00' ∉ s.toList

instance (s : String) : Decidable (Plain s) := inferInstanceAs (Decidable ('\x00' ∉ s.toList))

theorem terminated_append_inj {s t : String} (hs : Plain s) (ht : Plain t) {r r' : List UInt8}
    (h : terminated s ++ r = terminated t ++ r') : s = t ∧ r = r' := by
  unfold terminated at h
  rw [List.append_assoc, List.append_assoc] at h
  obtain ⟨hbytes, hrest⟩ :=
    append_mark_inj (Utf8.zero_notMem_encode hs) (Utf8.zero_notMem_encode ht) h
  exact ⟨Utf8.encode_injective hbytes, hrest⟩

end Fnv1a

theorem countBytes_append_inj {m n : Nat} (hm : m < 2 ^ 64) (hn : n < 2 ^ 64) {r r' : List UInt8}
    (h : countBytes m ++ r = countBytes n ++ r') : m = n ∧ r = r' := by
  obtain ⟨hword, hrest⟩ := Word.toBytes_append_inj h
  have hnat := congrArg UInt64.toNat hword
  rw [UInt64.toNat_ofNat', UInt64.toNat_ofNat', Nat.mod_eq_of_lt hm, Nat.mod_eq_of_lt hn] at hnat
  exact ⟨hnat, hrest⟩

theorem countedBytes_append_inj {bs cs : List UInt8} (hb : bs.length < 2 ^ 64)
    (hc : cs.length < 2 ^ 64) {r r' : List UInt8}
    (h : countedBytes bs ++ r = countedBytes cs ++ r') : bs = cs ∧ r = r' := by
  unfold countedBytes at h
  rw [List.append_assoc, List.append_assoc] at h
  obtain ⟨hlen, hrest⟩ := countBytes_append_inj hb hc h
  exact List.append_inj hrest hlen

theorem flagByte_injective {a b : Bool} (h : flagByte a = flagByte b) : a = b := by
  cases a <;> cases b <;> first | rfl | exact absurd h (by decide)

/-! ### Defaults -/

namespace Default

/-- The form of a default: the storage of a value, or none for a literal. -/
def form : Default → Option Storage
  | typed v => some v.storage
  | literal _ => none

/-- The letter of a form. -/
def letter : Option Storage → UInt8
  | some .uint => asciiByte 'u'
  | some .int => asciiByte 'i'
  | some .float => asciiByte 'f'
  | some .bool => asciiByte 'b'
  | some .text => asciiByte 's'
  | some .bytes => asciiByte 'x'
  | none => asciiByte 'l'

theorem letter_injective {a b : Option Storage} (h : letter a = letter b) : a = b := by
  rcases a with _ | (_ | _ | _ | _ | _ | _) <;> rcases b with _ | (_ | _ | _ | _ | _ | _) <;>
    first | rfl | exact absurd h (by decide)

theorem head?_description (d : Default) : d.description.head? = some (letter d.form) := by
  cases d with
  | typed v => cases v <;> rfl
  | literal text => rfl

/-- The first byte of a description tells the form. -/
theorem form_of_description {d e : Default} {r r' : List UInt8}
    (h : d.description ++ r = e.description ++ r') : d.form = e.form := by
  have hhead : ∀ (d : Default) (r : List UInt8), (d.description ++ r).head? = some (letter d.form) := by
    intro d r
    rw [List.head?_append, head?_description, Option.some_or]
  have hletter := hhead d r
  rw [h, hhead e r'] at hletter
  exact (letter_injective (Option.some.inj hletter)).symm

/-- The bytes that stand behind their count, if any do. -/
def counted : Default → List UInt8
  | typed (.text s) => Utf8.encode s
  | typed (.bytes bs) => bs
  | literal text => Utf8.encode text
  | _ => []

/-- They are not too many to be counted. -/
def Countable (d : Default) : Prop := d.counted.length < 2 ^ 64

instance (d : Default) : Decidable d.Countable :=
  inferInstanceAs (Decidable (d.counted.length < 2 ^ 64))

/-- **The description of a default shows where it ends.** -/
theorem description_append_inj {d e : Default} (hd : d.Countable) (he : e.Countable)
    {r r' : List UInt8} (h : d.description ++ r = e.description ++ r') : d = e ∧ r = r' := by
  have hform := form_of_description h
  -- the forms are the same, and so is what comes behind the letter
  match d, e, hform with
  | literal s, literal t, _ =>
    obtain ⟨hs, rfl⟩ := countedBytes_append_inj hd he (List.cons.inj h).2
    exact ⟨by rw [Utf8.encode_injective hs], rfl⟩
  | typed (.uint m), typed (.uint n), _ =>
    obtain ⟨rfl, rfl⟩ := Word.toBytes_append_inj (List.cons.inj h).2
    exact ⟨rfl, rfl⟩
  | typed (.int ⟨m⟩), typed (.int ⟨n⟩), _ =>
    obtain ⟨rfl, rfl⟩ := Word.toBytes_append_inj (List.cons.inj h).2
    exact ⟨rfl, rfl⟩
  | typed (.float ⟨x⟩), typed (.float ⟨y⟩), _ =>
    obtain ⟨rfl, rfl⟩ := Word.toBytes_append_inj (List.cons.inj h).2
    exact ⟨rfl, rfl⟩
  | typed (.bool a), typed (.bool b), _ =>
    obtain ⟨hflag, rfl⟩ := List.cons.inj (List.cons.inj h).2
    exact ⟨by rw [flagByte_injective hflag], rfl⟩
  | typed (.text s), typed (.text t), _ =>
    obtain ⟨hs, rfl⟩ := countedBytes_append_inj hd he (List.cons.inj h).2
    exact ⟨by rw [Utf8.encode_injective hs], rfl⟩
  | typed (.bytes bs), typed (.bytes cs), _ =>
    obtain ⟨rfl, rfl⟩ := countedBytes_append_inj hd he (List.cons.inj h).2
    exact ⟨rfl, rfl⟩

end Default

/-! ### Attributes in order -/

namespace Field

/-- All the ways in which fields come about: they are new, or read from an exchanged text, or another
field with something changed. -/
inductive Made : Field → Prop where
  | ofKind (name : String) (kind : Kind) : Made (ofKind name kind)
  | reference (name schema field : String) : Made (reference name schema field)
  | read {j : Json} {f : Field} (h : ofJson? j = some f) : Made f
  | withAttribute {f : Field} (h : Made f) (a : String) : Made (f.withAttribute a)
  | withAutoIncrement {f : Field} (h : Made f) : Made f.withAutoIncrement
  | withDefault {f : Field} (h : Made f) (d : Default) : Made (f.withDefault d)
  | withRawType {f : Field} (h : Made f) (rawType : String) : Made (f.withRawType rawType)
  | resolvedTo {f : Field} (h : Made f) (r : Resolution) : Made (f.resolvedTo r)

theorem pairwise_foldl_insertAttribute (as : List String) {l : List String}
    (h : l.Pairwise (· < ·)) :
    (as.foldl (fun l a => insertAttribute a l) l).Pairwise (· < ·) := by
  induction as generalizing l with
  | nil => exact h
  | cons a as ih => exact ih (pairwise_insertAttribute h a)

/-- A field that was read has put its attributes in order, whatever order they were in. -/
theorem ascending_of_ofJson? {j : Json} {f : Field} (h : ofJson? j = some f) :
    f.attributes.Pairwise (· < ·) := by
  unfold ofJson? at h
  obtain ⟨parts, -, h⟩ := Option.bind_eq_some_iff.mp h
  split at h
  · simp only [bind, Option.bind_eq_some_iff] at h
    obtain ⟨_, -, _, -, _, -, _, -, _, -, _, -, _, -, as, -, _, -, h⟩ := h
    cases h
    exact pairwise_foldl_insertAttribute as List.Pairwise.nil
  · cases h

/-- **However a field came about, its attributes are in strictly ascending order.** -/
theorem ascending_of_made {f : Field} (h : f.Made) : f.attributes.Pairwise (· < ·) := by
  induction h with
  | ofKind name kind => exact List.Pairwise.nil
  | reference name schema field => exact List.Pairwise.nil
  | read h => exact ascending_of_ofJson? h
  | withAttribute _ a ih => exact pairwise_insertAttribute ih a
  | withAutoIncrement _ ih => exact ih
  | withDefault _ d ih => exact ih
  | withRawType _ rawType ih => exact ih
  | resolvedTo _ r ih => exact ih

/-! ### Fields -/

/-- No name holds the zero character, no list is too long to be counted, and the attributes are in
order, as they are in every field (`ascending_of_made`). -/
@[mk_iff]
structure Describable (f : Field) : Prop where
  name : Fnv1a.Plain f.name
  rawType : Fnv1a.Plain f.rawType
  targetSchema : Fnv1a.Plain (f.targetSchema.getD "")
  targetField : Fnv1a.Plain (f.targetField.getD "")
  attributes : ∀ a ∈ f.attributes, Fnv1a.Plain a
  ascending : f.attributes.Pairwise (· < ·)
  counted : f.attributes.length < 2 ^ 64
  default : ∀ d ∈ f.declaredDefault, d.Countable

instance (f : Field) : Decidable f.Describable := decidable_of_iff' _ (describable_iff f)

/-- The fields are declared alike.  Where a part of a target is absent it counts as empty; attributes
are a set; what resolving has found does not matter. -/
structure DeclaredLike (f g : Field) : Prop where
  name : f.name = g.name
  rawType : f.rawType = g.rawType
  kind : f.kind = g.kind
  targetSchema : f.targetSchema.getD "" = g.targetSchema.getD ""
  targetField : f.targetField.getD "" = g.targetField.getD ""
  autoIncrement : f.autoIncrement = g.autoIncrement
  attributes : ∀ a, a ∈ f.attributes ↔ a ∈ g.attributes
  default : f.declaredDefault = g.declaredDefault

/-- Strictly ascending lists of the same strings are the same list. -/
theorem eq_of_ascending {as bs : List String} (ha : as.Pairwise (· < ·)) (hb : bs.Pairwise (· < ·))
    (h : ∀ a, a ∈ as ↔ a ∈ bs) : as = bs := by
  have hnodup : ∀ {l : List String}, l.Pairwise (· < ·) → l.Nodup := by
    intro l hl
    refine hl.imp fun hlt heq => ?_
    subst heq
    exact String.lt_irrefl _ hlt
  have hperm := (List.perm_ext_iff_of_nodup (hnodup ha) (hnodup hb)).mpr h
  refine List.Perm.eq_of_pairwise (fun a b _ _ hab hba => ?_) ha hb hperm
  exact absurd hba (String.lt_asymm hab)

/-- The declared default, behind a byte that tells whether there is one. -/
def describeDefault : Option Default → List UInt8
  | none => [0]
  | some d => 1 :: d.description

theorem describeDefault_append_inj {d e : Option Default} (hd : ∀ x ∈ d, x.Countable)
    (he : ∀ x ∈ e, x.Countable) {r r' : List UInt8}
    (h : describeDefault d ++ r = describeDefault e ++ r') : d = e ∧ r = r' := by
  match d, e with
  | none, none => exact ⟨rfl, (List.cons.inj h).2⟩
  | none, some _ => exact absurd (List.cons.inj h).1 (by decide)
  | some _, none => exact absurd (List.cons.inj h).1 (by decide)
  | some d, some e =>
    obtain ⟨rfl, hrest⟩ :=
      Default.description_append_inj (hd d rfl) (he e rfl) (List.cons.inj h).2
    exact ⟨rfl, hrest⟩

/-- The parts of a description, one behind the other. -/
theorem description_append (f : Field) (r : List UInt8) :
    f.description ++ r =
      Fnv1a.terminated f.name ++ (Fnv1a.terminated f.rawType ++ (f.kind.byte ::
        (Fnv1a.terminated (f.targetSchema.getD "") ++ (Fnv1a.terminated (f.targetField.getD "") ++
          (flagByte f.autoIncrement :: (countBytes f.attributes.length ++
            (f.attributes.flatMap Fnv1a.terminated ++
              (describeDefault f.declaredDefault ++ r)))))))) := by
  unfold description
  simp only [List.append_assoc, List.cons_append, List.nil_append]
  cases f.declaredDefault <;> rfl

/-- **The description of a field shows where it ends.** -/
theorem description_append_inj {f g : Field} (hf : f.Describable) (hg : g.Describable)
    {r r' : List UInt8} (h : f.description ++ r = g.description ++ r') : f.DeclaredLike g ∧ r = r' := by
  rw [description_append, description_append] at h
  -- part by part: each shows where it ends, and what is behind it is compared next
  obtain ⟨hname, h⟩ := Fnv1a.terminated_append_inj hf.name hg.name h
  obtain ⟨hraw, h⟩ := Fnv1a.terminated_append_inj hf.rawType hg.rawType h
  obtain ⟨hkind, h⟩ := List.cons.inj h
  obtain ⟨hschema, h⟩ := Fnv1a.terminated_append_inj hf.targetSchema hg.targetSchema h
  obtain ⟨hfield, h⟩ := Fnv1a.terminated_append_inj hf.targetField hg.targetField h
  obtain ⟨hauto, h⟩ := List.cons.inj h
  obtain ⟨hcount, h⟩ := countBytes_append_inj hf.counted hg.counted h
  obtain ⟨hattributes, h⟩ := forall₂_of_flatMap_append hcount
    (fun a ha b hb _ _ => Fnv1a.terminated_append_inj (hf.attributes a ha) (hg.attributes b hb)) h
  obtain ⟨hdefault, h⟩ := describeDefault_append_inj hf.default hg.default h
  rw [List.forall₂_eq_eq_eq] at hattributes
  exact ⟨⟨hname, hraw, Kind.byte_injective hkind, hschema, hfield, flagByte_injective hauto,
    fun a => by rw [hattributes], hdefault⟩, h⟩

theorem DeclaredLike.description_eq {f g : Field} (h : f.DeclaredLike g) (hf : f.Describable)
    (hg : g.Describable) : f.description = g.description := by
  have hattributes := eq_of_ascending hf.ascending hg.ascending h.attributes
  unfold description
  rw [h.name, h.rawType, h.kind, h.targetSchema, h.targetField, h.autoIncrement, hattributes,
    h.default]

end Field

/-! ### Schemas -/

namespace Schema

/-- The name does not hold the zero character, the fields are not too many to be counted, and all of
them can be described. -/
@[mk_iff]
structure Describable (s : Schema) : Prop where
  name : Fnv1a.Plain s.name
  counted : s.fields.length < 2 ^ 64
  fields : ∀ f ∈ s.fields, f.Describable

instance (s : Schema) : Decidable s.Describable := decidable_of_iff' _ (describable_iff s)

/-- The schemas have one name, and fields in the same order which are declared alike. -/
structure DeclaredLike (s t : Schema) : Prop where
  name : s.name = t.name
  fields : List.Forall₂ Field.DeclaredLike s.fields t.fields

variable {s t : Schema}

theorem declaredLike_of_description (hs : s.Describable) (ht : t.Describable)
    (h : s.description = t.description) : s.DeclaredLike t := by
  unfold description at h
  rw [List.append_assoc, List.append_assoc] at h
  obtain ⟨hname, h⟩ := Fnv1a.terminated_append_inj hs.name ht.name h
  obtain ⟨hcount, h⟩ := countBytes_append_inj hs.counted ht.counted h
  -- nothing is behind the last field
  have hends : s.fields.flatMap Field.description ++ [] = t.fields.flatMap Field.description ++ [] := by
    rw [h]
  obtain ⟨hfields, -⟩ := forall₂_of_flatMap_append hcount
    (fun f hf g hg _ _ => Field.description_append_inj (hs.fields f hf) (ht.fields g hg)) hends
  exact ⟨hname, hfields⟩

theorem DeclaredLike.description_eq (h : s.DeclaredLike t) (hs : s.Describable)
    (ht : t.Describable) : s.description = t.description := by
  have hfields : s.fields.flatMap Field.description = t.fields.flatMap Field.description := by
    have hall := h.fields
    have hsf := hs.fields
    have htf := ht.fields
    generalize s.fields = fs, t.fields = gs at hall hsf htf
    induction hall with
    | nil => rfl
    | cons hone _ ih =>
      obtain ⟨hf, hfs⟩ := List.forall_mem_cons.mp hsf
      obtain ⟨hg, hgs⟩ := List.forall_mem_cons.mp htf
      rw [List.flatMap_cons, List.flatMap_cons, hone.description_eq hf hg, ih hfs hgs]
  unfold description
  rw [h.name, h.fields.length_eq, hfields]

/-- **The fingerprint of a schema is a hash of what tells exactly how the schema is declared.** -/
theorem describes_unambiguously (hs : s.Describable) (ht : t.Describable) :
    s.fingerprint.toNat = Fnv1a.published s.description ∧
      t.fingerprint.toNat = Fnv1a.published t.description ∧
      (s.description = t.description ↔ s.DeclaredLike t) :=
  ⟨Fnv1a.toNat_hash _, Fnv1a.toNat_hash _,
    declaredLike_of_description hs ht, fun h => h.description_eq hs ht⟩

/-- A schema whose field has two attributes, a default that holds the zero character, and one part
of a target if any. -/
def log (target : Option String) : Schema where
  name := "log"
  fields := [{ (((Field.ofKind "note" .string).withAttribute "shown").withAttribute "kept").withDefault
    (.typed (.text "\x00")) with targetSchema := target }]

/-- An absent part of a target and an empty one are described alike, another is not. -/
theorem describes_unambiguously_log :
    ((log none).Describable ∧ (log (some "")).Describable ∧ (log (some "a")).Describable) ∧
      (log none).fingerprint.toNat = Fnv1a.published (log none).description ∧
      log none ≠ log (some "") ∧ (log none).DeclaredLike (log (some "")) ∧
      ¬ (log none).DeclaredLike (log (some "a")) := by
  have hnone : (log none).Describable := by decide
  have hempty : (log (some "")).Describable := by decide
  have hother : (log (some "a")).Describable := by decide
  have hsame := describes_unambiguously hnone hempty
  have hdiffer := describes_unambiguously hnone hother
  refine ⟨⟨hnone, hempty, hother⟩, hsame.1, by decide, hsame.2.2.mp (by decide), fun h => ?_⟩
  exact absurd (hdiffer.2.2.mpr h) (by decide)

end Schema
end Columnar
