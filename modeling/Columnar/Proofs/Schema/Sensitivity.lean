import Columnar.Proofs.Schema.Description

/-!
# Fingerprints react to one byte

A hash of 64 bits cannot tell all descriptions apart, but it tells apart any two of one
length that differ in one byte.  A step of the hash xors a byte into the state and
multiplies by the prime, which is odd and so has an inverse modulo `2 ^ 64`.  So a step
loses nothing of the state, and nothing of the byte.  The states differ behind the byte
that differs, and no byte after it brings them together again.

Some changes of a field change one byte of its description: its flag, its kind, and the
value of a default that is a truth value each stand in a byte of their own.

## Main definitions

* `Fnv1a.DifferInOne` — bytes of one length that differ in exactly one place.
* `Field.OneByteApart` — the descriptions of two fields differ in one byte.
* `Field.Turned` — a field with one thing changed that is described by one byte.

## Main results

* `Fnv1a.feed_injective` — bytes lose nothing of the state that they are fed to.
* `Fnv1a.feed_ne` — one other byte gives another state, whatever is fed before and after.
* `Schema.fingerprint_set_ne` — so does one other byte in the description of a field.
* `Schema.fingerprint_reacts` — both, for bytes and for the changes of a field.
-/

namespace Columnar

/-! ### One step of the hash -/

namespace Fnv1a

/-- What the prime is undone by, modulo `2 ^ 64`. -/
def primeInverse : UInt64 := 0xce965057aff6957b

theorem prime_mul_primeInverse : prime * primeInverse = 1 := by decide

/-- Multiplying by the prime loses nothing. -/
theorem mul_prime_injective {v w : UInt64} (h : v * prime = w * prime) : v = w := by
  have hback := congrArg (· * primeInverse) h
  simpa only [UInt64.mul_assoc, prime_mul_primeInverse, UInt64.mul_one] using hback

/-- A step loses nothing of the state. -/
theorem step_injective {v w : UInt64} {b : UInt8} (h : step v b = step w b) : v = w :=
  (UInt64.xor_left_inj b.toUInt64).mp (mul_prime_injective h)

/-- A step loses nothing of the byte. -/
theorem eq_of_step_eq {state : UInt64} {a b : UInt8} (h : step state a = step state b) : a = b :=
  UInt8.toUInt64_inj.mp ((UInt64.xor_right_inj state).mp (mul_prime_injective h))

/-! ### Any number of steps -/

/-- Bytes lose nothing of the state that they are fed to. -/
theorem feed_injective (bs : List UInt8) {v w : UInt64} (h : feed v bs = feed w bs) : v = w := by
  induction bs generalizing v w with
  | nil => exact h
  | cons b bs ih => exact step_injective (ih h)

/-- **One other byte gives another state**, whatever is fed before and after it. -/
theorem feed_ne (state : UInt64) (front : List UInt8) {a b : UInt8} (h : a ≠ b) (back : List UInt8) :
    feed state (front ++ a :: back) ≠ feed state (front ++ b :: back) := by
  intro heq
  rw [feed_append, feed_append] at heq
  exact h (eq_of_step_eq (feed_injective back heq))

/-- Bytes of one length that differ in exactly one place. -/
structure DifferInOne (bs cs : List UInt8) : Prop where
  length : bs.length = cs.length
  place : ∃! i : Nat, bs[i]? ≠ cs[i]?

/-- They are the same before the place and behind it. -/
theorem DifferInOne.exists_split {bs cs : List UInt8} (h : DifferInOne bs cs) :
    ∃ front a b back, a ≠ b ∧ bs = front ++ a :: back ∧ cs = front ++ b :: back := by
  obtain ⟨i, hi, hunique⟩ := h.place
  have hlength := h.length
  have hsame : ∀ j, j ≠ i → bs[j]? = cs[j]? := fun j hj => by
    by_contra hne
    exact hj (hunique j hne)
  have hlt : i < bs.length := by
    by_contra hge
    exact hi (by rw [List.getElem?_eq_none (by omega), List.getElem?_eq_none (by omega)])
  have hlt' : i < cs.length := hlength ▸ hlt
  rw [List.getElem?_eq_getElem hlt, List.getElem?_eq_getElem hlt'] at hi
  have hfront : cs.take i = bs.take i := by
    apply List.ext_getElem?
    intro j
    rw [List.getElem?_take, List.getElem?_take]
    split
    · next hj => exact (hsame j (by omega)).symm
    · rfl
  have hback : cs.drop (i + 1) = bs.drop (i + 1) := by
    apply List.ext_getElem?
    intro j
    rw [List.getElem?_drop, List.getElem?_drop]
    exact (hsame _ (by omega)).symm
  refine ⟨bs.take i, bs[i], cs[i], bs.drop (i + 1), fun heq => hi (congrArg some heq), ?_, ?_⟩
  · rw [List.getElem_cons_drop, List.take_append_drop]
  · rw [← hfront, ← hback, List.getElem_cons_drop, List.take_append_drop]

theorem DifferInOne.hash_ne {bs cs : List UInt8} (h : DifferInOne bs cs) : hash bs ≠ hash cs := by
  obtain ⟨front, a, b, back, hne, rfl, rfl⟩ := h.exists_split
  exact feed_ne basis front hne back

end Fnv1a

/-! ### One byte of the description of a field -/

namespace Field

/-- The descriptions of two fields differ in one byte. -/
def OneByteApart (f g : Field) : Prop :=
  ∃ front a b back, a ≠ b ∧ f.description = front ++ a :: back ∧ g.description = front ++ b :: back

/-- A field, and the field with one thing changed: its flag, its kind but not the type as it was
written, or the value of a default that is a truth value. -/
inductive Turned : Field → Field → Prop where
  | flag (f : Field) : Turned f { f with autoIncrement := !f.autoIncrement }
  | kind (f : Field) {k : Kind} (h : f.kind ≠ k) : Turned f { f with kind := k }
  | default (f : Field) {b : Bool} (h : f.declaredDefault = some (.typed (.bool b))) :
    Turned f { f with declaredDefault := some (.typed (.bool !b)) }

variable {f g : Field}

/-- The parts of a description up to the kind. -/
def descriptionToKind (f : Field) : List UInt8 :=
  Fnv1a.terminated f.name ++ Fnv1a.terminated f.rawType

/-- The parts of a description between the kind and the flag. -/
def descriptionOfTarget (f : Field) : List UInt8 :=
  Fnv1a.terminated (f.targetSchema.getD "") ++ Fnv1a.terminated (f.targetField.getD "")

/-- The parts of a description between the flag and the default. -/
def descriptionOfAttributes (f : Field) : List UInt8 :=
  countBytes f.attributes.length ++ f.attributes.flatMap Fnv1a.terminated

/-- The bytes for the kind and the flag, among the other parts. -/
theorem description_eq (f : Field) :
    f.description = f.descriptionToKind ++ f.kind.byte :: (f.descriptionOfTarget ++
      flagByte f.autoIncrement :: (f.descriptionOfAttributes ++ describeDefault f.declaredDefault)) := by
  have hparts := f.description_append []
  simp only [List.append_nil] at hparts
  rw [hparts]
  simp only [descriptionToKind, descriptionOfTarget, descriptionOfAttributes, List.append_assoc]

theorem flagByte_not (b : Bool) : flagByte b ≠ flagByte !b := by
  cases b <;> decide

/-- **Kind, flag and truth value stand in a byte of their own.** -/
theorem Turned.oneByteApart (h : f.Turned g) : f.OneByteApart g := by
  cases h with
  | flag =>
    refine ⟨f.descriptionToKind ++ f.kind.byte :: f.descriptionOfTarget, flagByte f.autoIncrement,
      flagByte !f.autoIncrement, f.descriptionOfAttributes ++ describeDefault f.declaredDefault,
      flagByte_not _, ?_, ?_⟩
    · rw [description_eq, List.append_assoc, List.cons_append]
    · rw [description_eq, List.append_assoc, List.cons_append]
      rfl
  | kind hk =>
    exact ⟨f.descriptionToKind, f.kind.byte, _, _, fun heq => hk (Kind.byte_injective heq),
      description_eq f, description_eq _⟩
  | @default b hd =>
    -- the default is described last, and of a truth value the last byte is the value
    have hvalue : ∀ b, describeDefault (some (.typed (.bool b))) = [1, asciiByte 'b', flagByte b] :=
      fun b => rfl
    refine ⟨f.descriptionToKind ++ f.kind.byte :: (f.descriptionOfTarget ++
      flagByte f.autoIncrement :: (f.descriptionOfAttributes ++ [1, asciiByte 'b'])), flagByte b,
      flagByte !b, [], flagByte_not b, ?_, ?_⟩
    · rw [description_eq, hd, hvalue]
      simp only [List.append_assoc, List.cons_append, List.nil_append]
    · rw [description_eq]
      simp only [hvalue, List.append_assoc, List.cons_append, List.nil_append]
      rfl

end Field

/-! ### One byte of the description of a schema -/

namespace Schema

variable {s : Schema} {i : Nat} {f g : Field}

/-- The schema with another field in one place. -/
def withField (s : Schema) (i : Nat) (g : Field) : Schema := { s with fields := s.fields.set i g }

/-- The description of a field stands in that of the schema, between bytes that do not depend on it. -/
theorem description_withField (hf : s.fields[i]? = some f) :
    ∃ front back, s.description = front ++ (f.description ++ back) ∧
      ∀ g, (s.withField i g).description = front ++ (g.description ++ back) := by
  obtain ⟨hi, rfl⟩ := List.getElem?_eq_some_iff.mp hf
  refine ⟨Fnv1a.terminated s.name ++ (countBytes s.fields.length ++
    (s.fields.take i).flatMap Field.description), (s.fields.drop (i + 1)).flatMap Field.description,
    ?_, fun g => ?_⟩
  · have hfields : s.fields.flatMap Field.description =
        (s.fields.take i ++ s.fields[i] :: s.fields.drop (i + 1)).flatMap Field.description := by
      rw [List.getElem_cons_drop, List.take_append_drop]
    rw [description, hfields]
    simp only [List.flatMap_append, List.flatMap_cons, List.append_assoc]
  · simp only [description, withField, List.length_set]
    rw [List.set_eq_take_append_cons_drop, if_pos hi]
    simp only [List.flatMap_append, List.flatMap_cons, List.append_assoc]

/-- One other byte in the description of a field gives another fingerprint. -/
theorem fingerprint_set_ne (hf : s.fields[i]? = some f) (h : f.OneByteApart g) :
    (s.withField i g).fingerprint ≠ s.fingerprint := by
  obtain ⟨front, back, hs, hset⟩ := description_withField hf
  obtain ⟨before, a, b, after, hne, hfd, hgd⟩ := h
  rw [fingerprint, fingerprint, hs, hset g, hfd, hgd]
  have hfeed := Fnv1a.feed_ne Fnv1a.basis (front ++ before) hne.symm (after ++ back)
  simpa only [Fnv1a.hash, List.append_assoc, List.cons_append] using hfeed

/-- **The hash reacts to every change of one byte**, and so the fingerprint of a schema to every change
of the flag of one field, of its kind, or of the value of its default where that is a truth value. -/
theorem fingerprint_reacts :
    (∀ bs cs, Fnv1a.DifferInOne bs cs → Fnv1a.hash bs ≠ Fnv1a.hash cs) ∧
      ∀ (s : Schema) (i : Nat) (f g : Field), s.fields[i]? = some f → f.Turned g →
        (s.withField i g).fingerprint ≠ s.fingerprint :=
  ⟨fun _ _ h => h.hash_ne, fun _ _ _ _ hf h => fingerprint_set_ne hf h.oneByteApart⟩

/-- A schema of a switch that is on, and a counter. -/
def panel : Schema where
  name := "panel"
  fields := [(Field.ofKind "on" .bool).withDefault (.typed (.bool true)), Field.ofKind "count" .uint64]

theorem fingerprint_reacts_panel :
    Fnv1a.DifferInOne [1, 2, 3] [1, 0, 3] ∧ Fnv1a.hash [1, 2, 3] ≠ Fnv1a.hash [1, 0, 3] ∧
      (panel.withField 0 ((Field.ofKind "on" .bool).withDefault (.typed (.bool false)))).fingerprint ≠
        panel.fingerprint ∧
      (panel.withField 1 (Field.ofKind "count" .uint64).withAutoIncrement).fingerprint ≠
        panel.fingerprint ∧
      (panel.withField 1 ((Field.ofKind "count" .int64).withRawType "uint64")).fingerprint ≠
        panel.fingerprint := by
  obtain ⟨hbytes, hfields⟩ := fingerprint_reacts
  have hdiffer : Fnv1a.DifferInOne [1, 2, 3] [1, 0, 3] := by
    refine ⟨rfl, 1, by decide, fun i hi => ?_⟩
    match i with
    | 0 => exact absurd rfl hi
    | 1 => rfl
    | 2 => exact absurd rfl hi
    | i + 3 => exact absurd rfl hi
  refine ⟨hdiffer, hbytes _ _ hdiffer, ?_, ?_, ?_⟩
  · exact hfields panel 0 _ _ rfl (.default ((Field.ofKind "on" .bool).withDefault (.typed (.bool true))) rfl)
  · exact hfields panel 1 _ _ rfl (.flag _)
  · exact hfields panel 1 _ _ rfl (.kind _ (by decide))

end Schema
end Columnar
