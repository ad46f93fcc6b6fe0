import Columnar.Proofs.Schema.Sensitivity
import Columnar.Proofs.Text.ByteOrder

/-!
# Attributes are sets

A field keeps its attributes in strictly ascending order, and such a list is known by its
members.  So it does not matter in which order attributes are added, nor how often, nor
what else is called in between.  Two fields that are built alike but for this are the
same field, up to the flag.

The flag is described as well.  Fingerprints are equal where the flags of all fields are,
and where those of a single field differ so do the fingerprints.

## Main definitions

* `Field.Marking`, `Field.marked` — adding attributes and setting the flag, in any order.
* `Field.SameAttributes` — calls that add the same strings.
* `Field.MarkedAlike`, `Schema.MarkedAlike` — built alike but for calls that add the same
  strings.

## Main results

* `Field.mem_attributes_marked` — the attributes after some calls.
* `Field.MarkedAlike.eq_upToFlag` — nothing but the flag can differ.
* `Schema.attributes_count_as_sets` — attributes in the order of their bytes, and equal
  fingerprints.
* `Schema.not_fingerprint_eq_of_markedAlike` — the flags have to be equal.
-/

namespace Columnar

namespace Field

/-! ### Marking a field -/

/-- A call that adds an attribute, or sets the flag. -/
inductive Marking where
  | add (a : String)
  | autoIncrement
deriving DecidableEq, Repr

/-- The field after a call. -/
def mark (f : Field) : Marking → Field
  | .add a => f.withAttribute a
  | .autoIncrement => f.withAutoIncrement

/-- The field after some calls, one after the other. -/
def marked (f : Field) (calls : List Marking) : Field := calls.foldl mark f

/-- The calls add the same strings, in any order and any number of times. -/
def SameAttributes (calls calls' : List Marking) : Prop :=
  ∀ a, Marking.add a ∈ calls ↔ Marking.add a ∈ calls'

variable {f g : Field}

theorem Made.mark (h : f.Made) (call : Marking) : (f.mark call).Made := by
  cases call with
  | add a => exact .withAttribute h a
  | autoIncrement => exact .withAutoIncrement h

theorem Made.marked (h : f.Made) (calls : List Marking) : (f.marked calls).Made := by
  induction calls generalizing f with
  | nil => exact h
  | cons call calls ih => exact ih (h.mark call)

theorem mem_attributes_mark {call : Marking} {a : String} :
    a ∈ (f.mark call).attributes ↔ a ∈ f.attributes ∨ .add a = call := by
  cases call with
  | add b =>
    show a ∈ insertAttribute b f.attributes ↔ _
    rw [mem_insertAttribute, or_comm, Marking.add.injEq]
  | autoIncrement =>
    show a ∈ f.attributes ↔ _
    simp

/-- The attributes after some calls are those that were there and those that were added. -/
theorem mem_attributes_marked {calls : List Marking} {a : String} :
    a ∈ (f.marked calls).attributes ↔ a ∈ f.attributes ∨ .add a ∈ calls := by
  induction calls generalizing f with
  | nil => simp [Field.marked]
  | cons call calls ih =>
    show a ∈ ((f.mark call).marked calls).attributes ↔ _
    rw [ih, mem_attributes_mark, List.mem_cons, or_assoc]

/-- The flag is set after some calls if it was set before or one of them sets it. -/
theorem autoIncrement_marked {calls : List Marking} :
    (f.marked calls).autoIncrement = true ↔ f.autoIncrement = true ∨ .autoIncrement ∈ calls := by
  induction calls generalizing f with
  | nil => simp [Field.marked]
  | cons call calls ih =>
    show ((f.mark call).marked calls).autoIncrement = true ↔ _
    rw [ih, List.mem_cons, ← or_assoc]
    refine or_congr_left ?_
    cases call with
    | add a => simp [Field.mark, withAttribute]
    | autoIncrement => simp [Field.mark, withAutoIncrement]

/-- The field with other marks. -/
def withMarks (f : Field) (attributes : List String) (flag : Bool) : Field :=
  { f with attributes := attributes, autoIncrement := flag }

/-- Calls that mark a field change nothing else. -/
theorem exists_withMarks (f : Field) (calls : List Marking) :
    ∃ attributes flag, f.marked calls = f.withMarks attributes flag := by
  induction calls generalizing f with
  | nil => exact ⟨f.attributes, f.autoIncrement, rfl⟩
  | cons call calls ih =>
    obtain ⟨attributes, flag, h⟩ := ih (f.mark call)
    refine ⟨attributes, flag, h.trans ?_⟩
    cases call with
    | add a => rfl
    | autoIncrement => rfl

/-! ### Fields that are built alike -/

/-- Two fields that are built alike, but for calls that add the same strings: these may come in another
order or number, with or without calls that set the flag in between. -/
inductive MarkedAlike : Field → Field → Prop where
  | same {f : Field} (h : f.Made) : MarkedAlike f f
  | marked {f g : Field} (h : MarkedAlike f g) {calls calls' : List Marking}
    (hsame : SameAttributes calls calls') : MarkedAlike (f.marked calls) (g.marked calls')
  | withDefault {f g : Field} (h : MarkedAlike f g) (d : Default) :
    MarkedAlike (f.withDefault d) (g.withDefault d)
  | withRawType {f g : Field} (h : MarkedAlike f g) (rawType : String) :
    MarkedAlike (f.withRawType rawType) (g.withRawType rawType)
  | resolvedTo {f g : Field} (h : MarkedAlike f g) (r : Resolution) :
    MarkedAlike (f.resolvedTo r) (g.resolvedTo r)

theorem MarkedAlike.made (h : f.MarkedAlike g) : f.Made ∧ g.Made := by
  induction h with
  | same h => exact ⟨h, h⟩
  | marked _ _ ih => exact ⟨ih.1.marked _, ih.2.marked _⟩
  | withDefault _ d ih => exact ⟨.withDefault ih.1 d, .withDefault ih.2 d⟩
  | withRawType _ rawType ih => exact ⟨.withRawType ih.1 rawType, .withRawType ih.2 rawType⟩
  | resolvedTo _ r ih => exact ⟨.resolvedTo ih.1 r, .resolvedTo ih.2 r⟩

/-- Calls that add the same strings leave the same attributes. -/
theorem attributes_marked_eq (hf : f.Made) (hg : g.Made) (h : f.attributes = g.attributes)
    {calls calls' : List Marking} (hsame : SameAttributes calls calls') :
    (f.marked calls).attributes = (g.marked calls').attributes := by
  refine eq_of_ascending (ascending_of_made (hf.marked calls)) (ascending_of_made (hg.marked calls')) ?_
  intro a
  rw [mem_attributes_marked, mem_attributes_marked, h, hsame a]

/-- The field with a flag in place of its own. -/
def withFlag (f : Field) (flag : Bool) : Field := { f with autoIncrement := flag }

/-- **Nothing but the flag can differ** in fields that are built alike. -/
theorem MarkedAlike.eq_upToFlag (h : f.MarkedAlike g) : f.withFlag g.autoIncrement = g := by
  induction h with
  | same h => rfl
  | @marked f g h calls calls' hsame ih =>
    obtain ⟨hf, hg⟩ := h.made
    have hbefore := congrArg Field.attributes ih
    have hattributes := attributes_marked_eq hf hg hbefore hsame
    obtain ⟨as, flag, hmarked⟩ := f.exists_withMarks calls
    obtain ⟨as', flag', hmarked'⟩ := g.exists_withMarks calls'
    rw [hmarked, hmarked'] at hattributes ⊢
    obtain rfl : as = as' := hattributes
    -- the same marks in the place of those of fields that differ in these alone
    have hmarks := congrArg (fun f : Field => f.withMarks as flag') ih
    exact hmarks
  | withDefault _ d ih =>
    have hdefault := congrArg (fun f : Field => f.withDefault d) ih
    exact hdefault
  | withRawType _ rawType ih =>
    have hrawType := congrArg (fun f : Field => f.withRawType rawType) ih
    exact hrawType
  | resolvedTo _ r ih =>
    have hresolved := congrArg (fun f : Field => f.resolvedTo r) ih
    exact hresolved

theorem MarkedAlike.eq_of_flag (h : f.MarkedAlike g) (hflag : f.autoIncrement = g.autoIncrement) :
    f = g := by
  have heq := h.eq_upToFlag
  rwa [← hflag] at heq

/-- If the flags differ, one of the fields is the other one with the flag turned. -/
theorem MarkedAlike.turned (h : f.MarkedAlike g) (hflag : f.autoIncrement ≠ g.autoIncrement) :
    f.Turned g := by
  have hnot : g.autoIncrement = !f.autoIncrement := by
    revert hflag
    cases f.autoIncrement <;> cases g.autoIncrement <;> decide
  have heq := h.eq_upToFlag
  rw [hnot] at heq
  exact heq ▸ Turned.flag f

/-- However a field came about, its attributes are in the order of their bytes, and none comes twice. -/
theorem bytes_ascending_of_made (h : f.Made) :
    (f.attributes.map Utf8.encode).Pairwise (· < ·) ∧ f.attributes.Nodup := by
  have hascending := ascending_of_made h
  refine ⟨List.pairwise_map.mpr (hascending.imp Utf8.encode_lt_encode), hascending.imp ?_⟩
  intro a b hlt heq
  exact String.lt_irrefl b (heq ▸ hlt)

end Field

/-! ### Schemas that are built alike -/

namespace Schema

/-- Two schemas of one name whose fields are built alike, but for calls that add the same strings. -/
structure MarkedAlike (s t : Schema) : Prop where
  name : s.name = t.name
  fields : List.Forall₂ Field.MarkedAlike s.fields t.fields

/-- The fields of two schemas have the same flags. -/
def SameFlags (s t : Schema) : Prop :=
  s.fields.map Field.autoIncrement = t.fields.map Field.autoIncrement

theorem MarkedAlike.eq_of_flags {s t : Schema} (h : s.MarkedAlike t) (hflags : s.SameFlags t) :
    s = t := by
  obtain ⟨name, fields⟩ := s
  obtain ⟨name', fields'⟩ := t
  obtain ⟨rfl, hfields⟩ := h
  suffices fields = fields' by rw [this]
  unfold SameFlags at hflags
  simp only at hfields hflags
  induction hfields with
  | nil => rfl
  | cons hone _ ih =>
    rw [List.map_cons, List.map_cons, List.cons.injEq] at hflags
    rw [hone.eq_of_flag hflags.1, ih hflags.2]

/-- **Attributes count as sets.**  Calls that add the same strings to a field leave the same attributes,
in the strictly ascending order of their bytes, whatever their order and number and wherever the flag is
set.  Schemas that differ in such calls alone have equal fingerprints where they have the same flags, and
different ones where the flags of a single field differ. -/
theorem attributes_count_as_sets :
    (∀ f : Field, f.Made → ∀ calls calls', Field.SameAttributes calls calls' →
      (f.marked calls).attributes = (f.marked calls').attributes ∧
        ((f.marked calls).attributes.map Utf8.encode).Pairwise (· < ·) ∧
        (f.marked calls).attributes.Nodup ∧
        (∀ a, a ∈ (f.marked calls).attributes ↔ a ∈ f.attributes ∨ .add a ∈ calls) ∧
        ((f.marked calls).autoIncrement = true ↔ f.autoIncrement = true ∨ .autoIncrement ∈ calls)) ∧
    (∀ s t : Schema, s.MarkedAlike t → s.SameFlags t → s.fingerprint = t.fingerprint) ∧
    ∀ (s : Schema) (i : Nat) (f g : Field), s.fields[i]? = some f → f.MarkedAlike g →
      f.autoIncrement ≠ g.autoIncrement → (s.withField i g).fingerprint ≠ s.fingerprint := by
  refine ⟨?_, ?_, ?_⟩
  · intro f hf calls calls' hsame
    obtain ⟨hbytes, hnodup⟩ := Field.bytes_ascending_of_made (hf.marked calls)
    exact ⟨Field.attributes_marked_eq hf hf rfl hsame, hbytes, hnodup,
      fun a => Field.mem_attributes_marked, Field.autoIncrement_marked⟩
  · intro s t h hflags
    rw [h.eq_of_flags hflags]
  · intro s i f g hf h hflag
    exact fingerprint_set_ne hf (h.turned hflag).oneByteApart

/-- Calls with repetitions, with a string that starts another and one that is not ASCII. -/
def labelling : List Field.Marking :=
  [.add "é", .add "a", .autoIncrement, .add "ab", .add "a"]

/-- Calls that add the same strings in another order. -/
def relabelling : List Field.Marking :=
  [.autoIncrement, .add "ab", .autoIncrement, .add "a", .add "é"]

/-- A schema with one field that is marked by some calls. -/
def job (calls : List Field.Marking) : Schema := ⟨"job", [(Field.ofKind "id" .int64).marked calls]⟩

theorem sameAttributes_relabelling : Field.SameAttributes labelling relabelling := by
  intro a
  simp only [labelling, relabelling, List.mem_cons, List.not_mem_nil, or_false, reduceCtorEq, false_or,
    Field.Marking.add.injEq]
  grind

theorem markedAlike_job {calls calls' : List Field.Marking} (h : Field.SameAttributes calls calls') :
    (job calls).MarkedAlike (job calls') :=
  ⟨rfl, .cons (.marked (.same (.ofKind "id" .int64)) h) .nil⟩

theorem attributes_count_as_sets_relabelling :
    labelling ≠ relabelling ∧
      ((Field.ofKind "id" .int64).marked labelling).attributes = ["a", "ab", "é"] ∧
      ((Field.ofKind "id" .int64).marked labelling).attributes =
        ((Field.ofKind "id" .int64).marked relabelling).attributes ∧
      (job labelling).fingerprint = (job relabelling).fingerprint ∧
      ((job []).withField 0 (Field.ofKind "id" .int64).withAutoIncrement).fingerprint ≠
        (job []).fingerprint := by
  obtain ⟨hattributes, hequal, hother⟩ := attributes_count_as_sets
  have hmade : (Field.ofKind "id" .int64).Made := .ofKind "id" .int64
  have hsame := sameAttributes_relabelling
  refine ⟨by decide, by decide, (hattributes _ hmade _ _ hsame).1, ?_, ?_⟩
  · exact hequal _ _ (markedAlike_job hsame) rfl
  · have hflag : (Field.ofKind "id" .int64).MarkedAlike (Field.ofKind "id" .int64).withAutoIncrement := by
      have hcalls : Field.SameAttributes [] [.autoIncrement] := fun a => by simp
      exact .marked (.same hmade) hcalls
    exact hother (job []) 0 _ _ rfl hflag (by decide)

/-- **The flags have to be equal.**  The same string is added in both schemas, but only in one of them the
flag is set as well. -/
theorem not_fingerprint_eq_of_markedAlike :
    (job [.add "key"]).MarkedAlike (job [.add "key", .autoIncrement]) ∧
      (job [.add "key"]).fingerprint ≠ (job [.add "key", .autoIncrement]).fingerprint := by
  have hsame : Field.SameAttributes [.add "key"] [.add "key", .autoIncrement] :=
    fun a => by simp
  refine ⟨markedAlike_job hsame, ?_⟩
  have hturned : ((Field.ofKind "id" .int64).marked [.add "key"]).Turned
      ((Field.ofKind "id" .int64).marked [.add "key", .autoIncrement]) := .flag _
  exact (fingerprint_set_ne (s := job [.add "key"]) (i := 0) rfl hturned.oneByteApart).symm

end Schema
end Columnar
