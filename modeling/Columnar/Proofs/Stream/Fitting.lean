import Columnar.Proofs.Schema.Description
import Columnar.Proofs.Schema.Published
import Columnar.Proofs.Stream.Calls

/-!
# Rows that readers write to

Setting a slot checks the value against the field.  Reading a row does not: a reader
writes the values of its own schema, and accepts a row by the fingerprint of the row's
schema.  The fingerprint tells how fields are declared, and not what a reference was
resolved to.  So a slot keeps to its field as far as the readers store that field in
the way of the row's schema; they do on that schema itself, and wherever the field has
one kind in both schemas and is no reference.

## Main definitions

* `Reader.InUse` — a reader of a schema, in any state that calls bring it to.
* `RowCall`, `Row.run` — setting and unsetting slots, and reading.
* `Schema.Agrees` — two schemas store a field alike.

## Main results

* `Reader.InUse.sound` — a reader is in good order in any state.
* `Reader.slots_readRow` — what a reader makes of a row that it is given.
* `Row.keeps_to_field` — slots keep to fields that readers store alike.
* `Row.admits_run_of_no_ref` — so do all slots where there are no references.
* `Row.not_admits_run` — an equal fingerprint is not enough for that.
-/

namespace Columnar
namespace Reader

variable {s : Schema} {limit : Nat} {fault : Option IoFault} {r r' : Reader} {row : Row}

/-! ### Readers in any state -/

/-- A reader of a schema, after any calls. -/
inductive InUse (s : Schema) : Reader → Prop where
  | made {source : Source} {settings : Settings} {r : Reader} (h : make source s settings = .ok r) :
      InUse s r
  | called {r : Reader} (h : InUse s r) (c : ReaderCall) : InUse s (r.call c).2

theorem InUse.sound (h : r.InUse s) : ∃ limit fault, r.Sound s limit fault := by
  induction h with
  | made h => exact ⟨_, _, (sound_make h).1⟩
  | called _ c ih =>
    obtain ⟨limit, fault, hsound⟩ := ih
    exact ⟨limit, fault, hsound.call c⟩

theorem InUse.schema (h : r.InUse s) : r.schema = s := by
  obtain ⟨limit, fault, hsound⟩ := h.sound
  exact hsound.schema

/-- Readers are only opened on schemas that are resolved. -/
theorem InUse.isResolved (h : r.InUse s) : s.isResolved = true := by
  induction h with
  | made h => exact (of_make h).1
  | called _ _ ih => exact ih

/-- A row that is read into keeps its schema. -/
@[simp] theorem schema_readRow (r : Reader) (row : Row) : (r.readRow row).2.2.schema = row.schema := by
  have hfeed : ∀ f : Feed, (f.readRow row).2.2.schema = row.schema := by
    intro f
    unfold Feed.readRow
    split <;> rfl
  unfold readRow
  split
  · rfl
  · split
    · rfl
    · rfl
    · next r' _ =>
      have hfeed' := hfeed r'.feed
      split <;> next hread => rwa [hread] at hfeed'

/-- **A row that is read into is left as it was, or gets slots of the reader's schema.** -/
theorem slots_readRow (hs : s.Finalized) (h : r.InUse s) (row : Row) :
    (r.readRow row).2.2 = row ∨ row.Suits s ∧ s.Admits (r.readRow row).2.2.slots := by
  obtain ⟨limit, fault, hsound⟩ := h.sound
  by_cases hrow : row.Suits r.schema
  · rcases advance_cases hsound with ⟨e, r', hadvance, -⟩ | ⟨r', hadvance, -⟩ |
      ⟨r', hadvance, hsound', hlt⟩
    · rw [readRow_of_advance_error hrow hadvance]
      exact .inl rfl
    · rw [readRow_of_advance_end hrow hadvance]
      exact .inl rfl
    · obtain ⟨p, hp⟩ := hsound'.page (Nat.zero_lt_of_lt hlt)
      rw [hsound.schema] at hrow
      obtain ⟨row', hread, -, hslots⟩ := readRow_of_advance_row (hsound.schema.symm ▸ hrow)
        hadvance hsound'.ready hp hlt hrow.width
      rw [hread, hslots]
      exact .inr ⟨hrow, View.admits_row hp.shows hs hsound'.ready.layout (hp.rows ▸ hlt)⟩
  · -- the row is refused
    cases haccepts : r.accepts row with
    | ok u => exact absurd (accepts_eq_ok_iff.mp haccepts) hrow
    | error e =>
      rw [readRow, haccepts]
      exact .inl rfl

/-- A row that a reader hands out is one of its schema. -/
theorem admits_nextRow (hs : s.Finalized) (h : r.InUse s) (hnext : r.nextRow.1 = .ok (some row)) :
    row.schema = s ∧ s.Admits row.slots := by
  obtain ⟨limit, fault, hsound⟩ := h.sound
  rcases advance_cases hsound with ⟨e, r', hadvance, -⟩ | ⟨r', hadvance, -⟩ |
    ⟨r', hadvance, hsound', hlt⟩
  · rw [nextRow, readView, hadvance] at hnext
    cases hnext
  · rw [nextRow, readView, hadvance] at hnext
    cases hnext
  · obtain ⟨p, hp⟩ := hsound'.page (Nat.zero_lt_of_lt hlt)
    have hsuits : ReaderCall.next.Suits r.schema := fun row hrow => by cases hrow
    obtain ⟨⟨new, hnew, hschema, hslots⟩, -⟩ :=
      call_of_row hsuits hadvance hsound.schema hsound'.ready hp hlt
    rw [hnext] at hnew
    cases hnew
    rw [hslots]
    exact ⟨hschema.trans hsound.schema,
      View.admits_row hp.shows hs hsound'.ready.layout (hp.rows ▸ hlt)⟩

end Reader

/-! ### Calls on a row -/

/-- A call that changes a row. -/
inductive RowCall where
  | set (i : Nat) (v : Value)
  | setByName (name : String) (v : Value)
  | unset (i : Nat)
  | reset
  /-- A reader reads its next row into the row. -/
  | read (r : Reader)

/-- A reader that reads into the row was opened on some schema. -/
def RowCall.Proper [Calendar] : RowCall → Prop
  | read r => ∃ t : Schema, t.Formed ∧ r.InUse t
  | set _ _ | setByName _ _ | unset _ | reset => True

namespace Row

/-- A row as it comes about: all of its slots are unset, or a reader handed it out. -/
inductive New (s : Schema) : Row → Prop where
  | blank : New s (blank s)
  | handed {r : Reader} {row : Row} (h : r.InUse s) (hnext : r.nextRow.1 = .ok (some row)) : New s row

/-- The row after a call.  A value that is refused changes nothing. -/
def step (row : Row) : RowCall → Row
  | .set i v => (row.set i v).toOption.getD row
  | .setByName name v => (row.setByName name v).toOption.getD row
  | .unset i => row.unset i
  | .reset => row.reset
  | .read r => (r.readRow row).2.2

def run (row : Row) (calls : List RowCall) : Row := calls.foldl step row

/-- A slot that is set holds a value of the storage of its field. -/
def FitsAt (row : Row) (i : Nat) : Prop :=
  ∀ f v, row.schema.fields[i]? = some f → row.slots[i]? = some (some v) → f.storage? = some v.storage

end Row

namespace Schema

/-- A field is stored alike in two schemas: they are one schema, or it has one kind in both and is no
reference, or it was resolved to kinds that are stored alike. -/
inductive Agrees (s t : Schema) (i : Nat) : Prop where
  | same (h : t = s)
  | declared {f g : Field} (hf : s.fields[i]? = some f) (hg : t.fields[i]? = some g)
      (hkind : f.kind = g.kind) (hne : f.kind ≠ .ref)
  | resolved (h : s.fields[i]?.bind Field.storage? = t.fields[i]?.bind Field.storage?)

variable {s t : Schema} {i : Nat}

/-- The field of the one schema is stored as that of the other. -/
theorem Agrees.storage [Calendar] (h : s.Agrees t i) (hs : s.Published) (ht : t.Formed)
    (htres : t.isResolved = true) :
    s.fields[i]?.bind Field.storage? = t.fields[i]?.bind Field.storage? := by
  cases h with
  | same h => rw [h]
  | @declared f g hf hg hkind hne =>
    have hstorage := hs.formed.storage_of_ne_ref hs.isResolved (List.mem_of_getElem? hf) hne
    have hstorage' := ht.storage_of_ne_ref htres (List.mem_of_getElem? hg) (hkind ▸ hne)
    rw [hf, hg, Option.bind_some, Option.bind_some, hstorage, hstorage', hkind]
  | resolved h => exact h

/-- Schemas that are declared alike agree on every field that is no reference. -/
theorem DeclaredLike.agrees (h : s.DeclaredLike t) {f : Field} (hf : s.fields[i]? = some f)
    (hne : f.kind ≠ .ref) : s.Agrees t i := by
  obtain ⟨hi, rfl⟩ := List.getElem?_eq_some_iff.mp hf
  have hj : i < t.fields.length := h.fields.length_eq ▸ hi
  exact .declared hf (List.getElem?_eq_getElem hj) (h.fields.get hi hj).kind hne

end Schema

namespace Row

variable {s : Schema} {row : Row} {i : Nat}

/-! ### One call -/

theorem fitsAt_put (h : row.FitsAt i) {j : Nat} {cell : Option Value}
    (hcell : ∀ f v, row.schema.fields[j]? = some f → cell = some v → f.storage? = some v.storage) :
    (row.put j cell).FitsAt i := by
  intro f v hf hv
  have hv' : (row.slots.set j cell)[i]? = some (some v) := hv
  rw [List.getElem?_set] at hv'
  split at hv'
  · next hij =>
    subst hij
    split at hv'
    · exact hcell f v hf (Option.some.inj hv')
    · cases hv'
  · exact h f v hf hv'

theorem fitsAt_set (h : row.FitsAt i) (j : Nat) (v : Value) :
    ((row.set j v).toOption.getD row).FitsAt i := by
  cases hset : row.set j v with
  | error e => exact h
  | ok row' =>
    obtain ⟨rfl, f, hf, hstorage⟩ := storage_of_set hset
    refine fitsAt_put h fun g w hg hw => ?_
    cases hw
    rw [← Option.some.inj (hf.symm.trans hg)]
    exact hstorage

/-- Setting a slot by the name of its field is setting it, unless there is no field of the name. -/
theorem step_setByName (row : Row) (name : String) (v : Value) :
    row.step (.setByName name v) = row ∨ ∃ j, row.step (.setByName name v) = row.step (.set j v) := by
  simp only [step, setByName]
  cases row.schema.findField name with
  | error e => exact .inl rfl
  | ok j => exact .inr ⟨j, rfl⟩

/-- A row of the schema that a reader reads into keeps to the fields that are stored alike. -/
theorem fitsAt_readRow [Calendar] (h : row.FitsAt i) (hs : row.schema.Published) {t : Schema} (ht : t.Formed)
    {r : Reader} (hr : r.InUse t) (hagree : row.Suits t → row.schema.Agrees t i) :
    (r.readRow row).2.2.FitsAt i := by
  rcases Reader.slots_readRow (ht.finalized hr.isResolved) hr row with hsame | ⟨hsuits, hadmits⟩
  · rwa [hsame]
  · intro f v hf hv
    rw [Reader.schema_readRow] at hf
    -- the reader's schema has a field in this place, which admits the value
    have hi : i < t.fields.length := by
      have hlt := (List.getElem?_eq_some_iff.mp hv).1
      rwa [hadmits.length] at hlt
    have hg := List.getElem?_eq_getElem hi
    have hsame := (hagree hsuits).storage hs ht hr.isResolved
    rw [hf, hg, Option.bind_some, Option.bind_some] at hsame
    exact hsame.trans (hadmits.storage i _ v hg hv)

/-- Every call leaves a slot that keeps to its field so, if readers store the field alike. -/
theorem fitsAt_step [Calendar] (h : row.FitsAt i) (hs : row.schema.Published) {c : RowCall} (hc : c.Proper)
    (hagree : ∀ r, c = .read r → row.Suits r.schema → row.schema.Agrees r.schema i) :
    (row.step c).FitsAt i := by
  cases c with
  | set j v => exact fitsAt_set h j v
  | setByName name v =>
    rcases row.step_setByName name v with hstep | ⟨j, hstep⟩
    · rwa [hstep]
    · rw [hstep]
      exact fitsAt_set h j v
  | unset j => exact fitsAt_put h fun f v _ hv => by cases hv
  | reset => exact (admits_blank row.schema).storage i
  | read r =>
    obtain ⟨t, ht, hr⟩ := hc
    exact fitsAt_readRow h hs ht hr (hr.schema ▸ hagree r rfl)

/-- A row is never bound to another schema. -/
@[simp] theorem schema_step (row : Row) (c : RowCall) : (row.step c).schema = row.schema := by
  have hset : ∀ j v, (row.step (.set j v)).schema = row.schema := by
    intro j v
    rw [step]
    cases hset : row.set j v with
    | error e => rfl
    | ok row' =>
      obtain ⟨rfl, -⟩ := storage_of_set hset
      rfl
  cases c with
  | set j v => exact hset j v
  | setByName name v =>
    rcases row.step_setByName name v with hstep | ⟨j, hstep⟩
    · rw [hstep]
    · rw [hstep]
      exact hset j v
  | unset j => rfl
  | reset => rfl
  | read r => exact r.schema_readRow row

@[simp] theorem schema_run (row : Row) (calls : List RowCall) : (row.run calls).schema = row.schema := by
  induction calls generalizing row with
  | nil => rfl
  | cons c calls ih => exact (ih (row.step c)).trans (row.schema_step c)

/-- A row as it comes about is one of its schema. -/
theorem New.admits (h : row.New s) (hs : s.Finalized) : row.schema = s ∧ s.Admits row.slots := by
  cases h with
  | blank => exact ⟨rfl, admits_blank s⟩
  | handed h hnext => exact Reader.admits_nextRow hs h hnext

/-! ### Any calls -/

/-- Whether readers accept a row depends on its schema alone. -/
theorem Suits.of_schema {row' : Row} {t : Schema} (h : row'.Suits t) (hschema : row'.schema = row.schema) :
    row.Suits t := by
  have hwidth : row.width = row'.width := by
    rw [Row.width, Row.width, row.slots_length, row'.slots_length, hschema]
  exact ⟨hwidth.trans h.width, hschema ▸ h.fingerprint⟩

theorem fitsAt_run [Calendar] (h : row.FitsAt i) (hs : row.schema.Published) {calls : List RowCall}
    (hcalls : ∀ c ∈ calls, c.Proper)
    (hagree : ∀ r, .read r ∈ calls → row.Suits r.schema → row.schema.Agrees r.schema i) :
    (row.run calls).FitsAt i := by
  induction calls generalizing row with
  | nil => exact h
  | cons c calls ih =>
    obtain ⟨hc, hrest⟩ := List.forall_mem_cons.mp hcalls
    have hschema := row.schema_step c
    have hfirst : ∀ r, c = .read r → row.Suits r.schema → row.schema.Agrees r.schema i := by
      rintro r rfl hsuits
      exact hagree r List.mem_cons_self hsuits
    apply ih (fitsAt_step h hs hc hfirst) (hschema.symm ▸ hs) hrest
    intro r hr hsuits
    rw [hschema]
    exact hagree r (List.mem_cons_of_mem _ hr) (hsuits.of_schema hschema)

/-- A row of a schema without references stays well typed, as long as the readers that accept it are on
schemas of its own declaration, as they are where fingerprints do not collide. -/
theorem admits_run_of_no_ref [Calendar] (hs : s.Published) (hrow : row.New s)
    (hrefs : ∀ f ∈ s.fields, f.kind ≠ .ref) {calls : List RowCall} (hcalls : ∀ c ∈ calls, c.Proper)
    (hlike : ∀ r, .read r ∈ calls → row.Suits r.schema → s.DeclaredLike r.schema) :
    s.Admits (row.run calls).slots := by
  obtain ⟨rfl, hadmits⟩ := hrow.admits hs.finalized
  have hschema := row.schema_run calls
  refine ⟨hschema ▸ (row.run calls).slots_length, ?_⟩
  intro i f v hf hv
  have hagree : ∀ r, .read r ∈ calls → row.Suits r.schema → row.schema.Agrees r.schema i := by
    intro r hr hsuits
    exact (hlike r hr hsuits).agrees hf (hrefs f (List.mem_of_getElem? hf))
  exact fitsAt_run (hadmits.storage i) hs hcalls hagree f v (hschema.symm ▸ hf) hv

/-- **A slot keeps to its field**, whatever calls the row gets, as far as the readers that accept the
row store the field alike: on its own schema, on one where the field has the same kind and is no
reference, or on one that resolved it to a kind of the same storage. -/
theorem keeps_to_field [Calendar] (hs : s.Published) (hrow : row.New s) {calls : List RowCall}
    (hcalls : ∀ c ∈ calls, c.Proper)
    (hagree : ∀ r, .read r ∈ calls → row.Suits r.schema → s.Agrees r.schema i) :
    (row.run calls).schema = s ∧ ∀ f v, s.fields[i]? = some f →
      (row.run calls).slots[i]? = some (some v) → f.storage? = some v.storage := by
  obtain ⟨rfl, hadmits⟩ := hrow.admits hs.finalized
  have hschema := row.schema_run calls
  refine ⟨hschema, ?_⟩
  intro f v hf hv
  exact fitsAt_run (hadmits.storage i) hs hcalls hagree f v (hschema.symm ▸ hf) hv

end Row

/-! ### A reference that was resolved twice -/

namespace Catalog

/-- A schema whose only field refers to another schema. -/
def gauge : Schema := ⟨"gauge", [Field.reference "x" "unit" "y"]⟩

/-- The schema that is referred to, with a field of a kind. -/
def unit (kind : Kind) : Schema := ⟨"unit", [Field.ofKind "y" kind]⟩

/-- The referring schema as it is resolved in a catalogue with the other one. -/
def gaugeOf (kind : Kind) : Schema := gauge.resolvedTo [⟨kind, none⟩]

theorem finalize_units [Calendar] {kind : Kind} (hkind : kind ≠ .ref) :
    (⟨[gauge, unit kind]⟩ : Catalog).finalize =
      .ok ⟨[gaugeOf kind, (unit kind).resolvedTo [⟨kind, none⟩]]⟩ := by
  let x : Field := Field.reference "x" "unit" "y"
  let y : Field := Field.ofKind "y" kind
  have htargets : Stop.Targets [gauge, unit kind] ⟨"gauge", x⟩ ⟨"unit", y⟩ :=
    ⟨rfl, rfl, _, rfl, Schema.field?_eq_some_iff.mp rfl⟩
  have hx : Resolution.follow [gauge, unit kind] [] "gauge" x = .ok kind :=
    Resolution.follow_eq_ok_iff (a := ⟨"gauge", x⟩).mpr
      ⟨_, _, .on htargets (.here _), List.nodup_singleton _, hkind, rfl⟩
  have hy : Resolution.follow [gauge, unit kind] [] "unit" y = .ok kind :=
    Resolution.follow_eq_ok_iff (a := ⟨"unit", y⟩).mpr
      ⟨[], _, .here _, List.nodup_nil, hkind, rfl⟩
  have hall : [gauge, unit kind].mapM (Resolution.ofSchema [gauge, unit kind]) =
      .ok [[⟨kind, none⟩], [⟨kind, none⟩]] := by
    refine mapM_of_forall₂ (.cons (mapM_of_forall₂ (.cons ?_ .nil))
      (.cons (mapM_of_forall₂ (.cons ?_ .nil)) .nil))
    · exact Resolution.ofField_eq_ok_iff.mpr ⟨hx, rfl, iff_of_true rfl rfl⟩
    · exact Resolution.ofField_eq_ok_iff.mpr ⟨hy, rfl, iff_of_true rfl rfl⟩
  rw [finalize, hall]
  rfl

theorem published_gaugeOf [Calendar] {kind : Kind} (hkind : kind ≠ .ref) : (gaugeOf kind).Published := by
  refine .member ?_ (finalize_units hkind) List.mem_cons_self
  intro s hs
  rcases List.mem_cons.mp hs with rfl | hs
  · exact Schema.formed_of_declared (by decide)
  · obtain rfl := List.mem_singleton.mp hs
    exact Schema.formed_of_declared fun f hf => List.mem_singleton.mp hf ▸ rfl

/-- What a reference is resolved to is not in the fingerprint. -/
theorem fingerprint_gaugeOf (kind : Kind) : (gaugeOf kind).fingerprint = gauge.fingerprint := rfl

end Catalog

namespace Reader

/-- A page of one row, which has an unsigned number, and the mark of the end. -/
def oneNumber : List UInt8 := [8, 1, 1, 0, 0, 3, 1, 3, 3, 0]

/-- A reader that was opened before it, on a schema that resolves a reference to unsigned numbers. -/
def gauging : Reader where
  source := .ofBytes oneNumber
  header := .ofFingerprint Catalog.gauge.fingerprint
  feed := ⟨Catalog.gaugeOf .uint64, [(.uint64, .uint)], Settings.small.maxPageBytes, [],
    [.vacant .uint], 0, 0, false⟩
  finished := false
  poisoned := false
  scratch := none
  tally := ⟨0, 0, Header.byteLength⟩

theorem make_gauging :
    make (.ofBytes ((Header.ofFingerprint Catalog.gauge.fingerprint).toBytes ++ oneNumber))
      (Catalog.gaugeOf .uint64) .small = .ok gauging := by
  rw [make_eq rfl rfl, header_read]
  simp only [bind, Except.bind, Catalog.fingerprint_gaugeOf, check_ofFingerprint]
  rfl

theorem inUse_gauging : gauging.InUse (Catalog.gaugeOf .uint64) := .made make_gauging

end Reader

namespace Row

open Catalog
open scoped Builtin

/-- A slot is set and unset, and then a reader on numbers reads into the row. -/
def rereading : List RowCall := [.setByName "x" (.uint 9), .unset 0, .read .gauging]

theorem proper_rereading : ∀ c ∈ rereading, c.Proper := by
  intro c hc
  simp only [rereading, List.mem_cons, List.not_mem_nil, or_false] at hc
  rcases hc with rfl | rfl | rfl
  · trivial
  · trivial
  · exact ⟨_, (published_gaugeOf (by decide)).formed, Reader.inUse_gauging⟩

theorem keeps_to_field_rereading :
    ((blank (gaugeOf .uint64)).run rereading).slots = [some (.uint 3)] ∧
      ∀ f v, (gaugeOf .uint64).fields[0]? = some f →
        ((blank (gaugeOf .uint64)).run rereading).slots[0]? = some (some v) →
        f.storage? = some v.storage := by
  have hs : (gaugeOf .uint64).Published := published_gaugeOf (by decide)
  have hagree : ∀ r, .read r ∈ rereading → (blank (gaugeOf .uint64)).Suits r.schema →
      (gaugeOf .uint64).Agrees r.schema 0 := by
    intro r hr _
    simp only [rereading, List.mem_cons, reduceCtorEq, RowCall.read.injEq, List.not_mem_nil, or_false,
      false_or] at hr
    subst hr
    exact .same rfl
  exact ⟨by decide +kernel, (keeps_to_field hs .blank proper_rereading hagree).2⟩

/-- **An equal fingerprint is not enough** for a row to keep to its schema: a reader on a schema that
resolves a reference to unsigned numbers writes one into a row of a schema of the same declaration that
resolves it to truth values. -/
theorem not_admits_run : ¬ ∀ (s : Schema) (row : Row) (calls : List RowCall), s.Published →
    row.New s → (∀ c ∈ calls, c.Proper) → s.Admits (row.run calls).slots := by
  intro hall
  have hbool : (gaugeOf .bool).Published := published_gaugeOf (by decide)
  have hadmits := hall (gaugeOf .bool) (blank (gaugeOf .bool)) rereading hbool .blank proper_rereading
  -- the value that the slot is set to is refused, and the one that is read is not
  have hslots : ((blank (gaugeOf .bool)).run rereading).slots = [some (.uint 3)] := by decide +kernel
  rw [hslots] at hadmits
  have hstorage := hadmits.storage 0 _ (.uint 3) rfl rfl
  cases hstorage

end Row
end Columnar
