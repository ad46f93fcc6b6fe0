import Columnar.Proofs.Bytes.Follow

/-!
# Spellings of numbers

Groups of zeros may stand at the high end of a number, so a reader accepts more
spellings than the one that is written.  That one is the shortest: any other takes
more bytes, as its last group says nothing.

## Main definitions

* `Leb128.Spelling` — a spelling of a number.
* `Leb128.Spelling.excess` — the bytes that it has too many.

## Main results

* `Leb128.exists_spelling`, `Leb128.Spelling.decode_append` — what is read is a spelling,
  whatever comes after it.
* `Leb128.Spelling.excess_eq_zero_iff` — **only what is written has none too many.**
-/

namespace Columnar
namespace Leb128

/-- A spelling of a number, which need not be the shortest one. -/
structure Spelling (n : Nat) where
  bytes : List UInt8
  reads : decode bytes = .ok (n, [])

variable {n : Nat} {bs rest : List UInt8}

/-- What was read is a spelling of it. -/
theorem exists_spelling (h : decode bs = .ok (n, rest)) : ∃ sp : Spelling n, bs = sp.bytes ++ rest := by
  obtain ⟨front, rfl, hfront⟩ := Take.exists_front_of_scanWithin (decode_eq_ok_iff.mp h)
  have hread := decode_eq_ok_iff.mpr (hfront [])
  rw [List.append_nil] at hread
  exact ⟨⟨front, hread⟩, rfl⟩

theorem Spelling.decode_append (sp : Spelling n) (rest : List UInt8) :
    decode (sp.bytes ++ rest) = .ok (n, rest) := by
  obtain ⟨front, hbytes, hfront⟩ := Take.exists_front_of_scanWithin (decode_eq_ok_iff.mp sp.reads)
  rw [List.append_nil] at hbytes
  rw [hbytes]
  exact decode_eq_ok_iff.mpr (hfront rest)

/-! ### The shortest one -/

/-- A group of seven bits behind a high bit is put back as it was. -/
theorem ofNat_group {b : UInt8} (hb : ¬ b < 128) : UInt8.ofNat (b.toNat - 128 + 128) = b := by
  rw [UInt8.lt_iff_toNat_lt] at hb
  have hge : 128 ≤ b.toNat := Nat.not_lt.mp hb
  rw [Nat.sub_add_cancel hge, UInt8.ofNat_toNat]

/-- Of all bytes that are read as one number, those that are written are the fewest. -/
theorem eq_or_lt_of_scanWithin {room : Nat} (h : scanWithin room bs = .number n []) :
    bs = encode n ∨ (encode n).length < bs.length := by
  induction room generalizing bs n with
  | zero => cases h
  | succ room ih =>
    cases bs with
    | nil => cases h
    | cons b bs =>
      rcases scanWithin_cons_eq_number_iff.mp h with ⟨hlast, -, rfl, rfl⟩ | ⟨hmore, m, hm, hn⟩
      · rw [encode_of_lt (UInt8.lt_iff_toNat_lt.mp hlast), UInt8.ofNat_toNat]
        exact Or.inl rfl
      · have hlow : b.toNat - 128 < 128 := by
          have := b.toNat_lt
          omega
        -- a high group that says nothing can be left out, and any other comes after the low one
        rcases Nat.eq_zero_or_pos m with rfl | hpos
        · have hlt : n < 128 := by omega
          have hsome : 0 < bs.length := Nat.zero_lt_of_lt (length_lt_of_scanWithin hm)
          rw [encode_of_lt hlt]
          exact Or.inr (Nat.succ_lt_succ hsome)
        · have hmod : n % 128 = b.toNat - 128 := by omega
          have hdiv : n / 128 = m := by omega
          rw [encode_of_le (by omega), hmod, hdiv, ofNat_group hmore]
          rcases ih hm with rfl | hlt
          · exact Or.inl rfl
          · exact Or.inr (Nat.succ_lt_succ hlt)

namespace Spelling

/-- How many bytes a spelling has more than the shortest one. -/
def excess (sp : Spelling n) : Nat := sp.bytes.length - size n

theorem eq_or_lt (sp : Spelling n) : sp.bytes = encode n ∨ size n < sp.bytes.length := by
  rw [← length_encode]
  exact eq_or_lt_of_scanWithin (decode_eq_ok_iff.mp sp.reads)

theorem length_bytes (sp : Spelling n) : sp.bytes.length = size n + sp.excess := by
  have hle : size n ≤ sp.bytes.length := by
    rcases sp.eq_or_lt with heq | hlt
    · exact Nat.le_of_eq (length_encode n ▸ congrArg List.length heq.symm)
    · exact Nat.le_of_lt hlt
  exact (Nat.add_sub_cancel' hle).symm

/-- **The spelling that is written is the only shortest one.** -/
theorem excess_eq_zero_iff {sp : Spelling n} : sp.excess = 0 ↔ sp.bytes = encode n := by
  have hlength := sp.length_bytes
  constructor
  · intro hzero
    rcases sp.eq_or_lt with heq | hlt
    · exact heq
    · omega
  · intro heq
    rw [heq, length_encode] at hlength
    omega

end Spelling
end Leb128
end Columnar
