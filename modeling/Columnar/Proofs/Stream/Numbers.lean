import Columnar.Proofs.Stream.Delivery

/-!
# Numbers that are asked for

A page has its bytes at hand when it reads a number, and a stream is asked for them one
by one.  The first notices at the eleventh byte that a number does not end in time, the
second after the tenth; the first may find that its bytes are all, the second has to ask
to find that out.  They come to the same: the same number with the same bytes behind it,
or a failure for what is wrong with the bytes.  Only where there are no bytes at all does a
stream end without a failure.

## Main definitions

* `Source.numbers` — what comes of asking for numbers again and again.
* `Source.AsDecoded` — asking is as good as reading the bytes.

## Main results

* `Source.number_of_decode`, `Source.damaged_of_decode`, `Source.number_nil` — what is
  asked for is what is read, is refused when that is, and ends with the bytes.
* `Source.numbers_encode` — numbers that were written one after the other come back.
* `Source.asDecoded_and_numbers_eq` — **asking is as good as reading.**
-/

namespace Columnar
namespace Source

variable {bs rest : List UInt8} {v : Nat}

theorem number_nil : (ofBytes []).number = (.ok none, ofBytes []) := rfl

theorem number_of_decode (h : Leb128.decode bs = .ok (v, rest)) :
    (ofBytes bs).number = (.ok (some v), ofBytes rest) := by
  have hscan : Leb128.scan (ofBytes bs).bytes = .number v rest := Leb128.decode_eq_ok_iff.mp h
  rw [number_eq_scan, hscan]
  rfl

/-- Bytes that are refused are refused byte by byte too, if there are any. -/
theorem damaged_of_decode {e : Failure} (h : Leb128.decode bs = .error e) (hbs : bs ≠ []) :
    ∃ d, (ofBytes bs).number.1 = .error (.damaged d) := by
  rw [number_eq_scan]
  cases hscan : Leb128.scan (ofBytes bs).bytes with
  | number v rest => exact absurd (h.symm.trans (Leb128.decode_eq_ok_iff.mpr hscan)) nofun
  | tooLarge rest => exact ⟨_, rfl⟩
  | tooLong rest => exact ⟨_, rfl⟩
  | unfinished =>
    have hne : (ofBytes bs).bytes ≠ [] := hbs
    simp only [if_neg hne]
    exact ⟨_, rfl⟩

/-- Asking a source of some bytes for a number comes to what reading them does. -/
structure AsDecoded (bs : List UInt8) : Prop where
  ended : (ofBytes bs).number.1 = .ok none ↔ bs = []
  found : ∀ v rest, (ofBytes bs).number = (.ok (some v), ofBytes rest) ↔ Leb128.decode bs = .ok (v, rest)
  damaged : bs ≠ [] →
    ((∃ d, (ofBytes bs).number.1 = .error (.damaged d)) ↔ ∃ e, Leb128.decode bs = .error e)

theorem asDecoded (bs : List UInt8) : AsDecoded bs := by
  cases hdecode : Leb128.decode bs with
  | ok r =>
    obtain ⟨v, rest⟩ := r
    have hnumber := number_of_decode hdecode
    have hbs : bs ≠ [] := by
      rintro rfl
      cases hdecode
    refine ⟨?_, ?_, ?_⟩
    · rw [hnumber]
      exact iff_of_false nofun hbs
    · intro v' rest'
      rw [hnumber, hdecode]
      simp [ofBytes]
    · intro _
      rw [hnumber, hdecode]
      exact iff_of_false nofun nofun
  | error e =>
    refine ⟨?_, ?_, ?_⟩
    · constructor
      · intro hnone
        by_contra hbs
        obtain ⟨d, hd⟩ := damaged_of_decode hdecode hbs
        rw [hd] at hnone
        cases hnone
      · rintro rfl
        rfl
    · intro v rest
      rw [hdecode]
      refine iff_of_false (fun hsome => ?_) nofun
      rcases eq_or_ne bs [] with rfl | hbs
      · cases hsome
      · obtain ⟨d, hd⟩ := damaged_of_decode hdecode hbs
        rw [hsome] at hd
        cases hd
    · intro hbs
      rw [hdecode]
      exact iff_of_true (damaged_of_decode hdecode hbs) ⟨e, rfl⟩

/-! ### Again and again -/

/-- What comes of asking a source for a number as many times. -/
def numbers : Nat → Source → List (Except Failure (Option Nat))
  | 0, _ => []
  | n + 1, s => s.number.1 :: numbers n s.number.2

theorem numbers_nil (n : Nat) : numbers n (ofBytes []) = List.replicate n (.ok none) := by
  induction n with
  | zero => rfl
  | succ n ih =>
    rw [numbers, number_nil, ih]
    rfl

/-- **Numbers that were written one after the other come back**, and nothing comes behind them. -/
theorem numbers_encode (ns : List UInt64) (more : Nat) :
    numbers (ns.length + more) (ofBytes (ns.flatMap fun n => Leb128.encode n.toNat)) =
      (ns.map fun n => .ok (some n.toNat)) ++ List.replicate more (.ok none) := by
  induction ns with
  | nil =>
    rw [List.length_nil, Nat.zero_add]
    exact numbers_nil more
  | cons n ns ih =>
    rw [List.length_cons, Nat.succ_add, List.flatMap_cons, numbers, number_encode n.toNat_lt, ih]
    rfl

/-- **Asking is as good as reading.** -/
theorem asDecoded_and_numbers_eq (bs : List UInt8) (ns : List UInt64) (more : Nat) :
    AsDecoded bs ∧
      numbers (ns.length + more) (ofBytes (ns.flatMap fun n => Leb128.encode n.toNat)) =
        (ns.map fun n => .ok (some n.toNat)) ++ List.replicate more (.ok none) :=
  ⟨asDecoded bs, numbers_encode ns more⟩

end Source
end Columnar
