import Columnar.Failure
import Columnar.Number.Power

/-!
# Base-128 numbers

A number is written in groups of seven bits, the low group first.  Every byte
but the last has its high bit set.  A 64-bit number takes at most ten bytes, and
the tenth can only be zero or one.

Reading distinguishes four outcomes (`Leb128.Scan`), because a page and a stream
report them differently: a page knows where its bytes end, a stream does not
look beyond the tenth byte.

## Main definitions

* `Leb128.encode`, `Leb128.size` — the shortest spelling of a number, its length.
* `Leb128.scan` — the number at the start of some bytes.
* `Leb128.decode` — the same, as a page reads it.

## Main results

* `Leb128.scan_encode`, `Leb128.decode_encode` — a 64-bit number is read back.
* `Leb128.scan_take` — a number that is cut off is unfinished.
* `Leb128.length_encode` — the length of its spelling.
-/

namespace Columnar
namespace Leb128

/-- The most bytes of a 64-bit number. -/
def maxBytes : Nat := 10

/-- The shortest spelling of a number. -/
def encode (n : Nat) : List UInt8 :=
  if n < 128 then [UInt8.ofNat n] else UInt8.ofNat (n % 128 + 128) :: encode (n / 128)
termination_by n

/-- How many groups of seven bits a number has. -/
def size (n : Nat) : Nat := (Nat.log2 n + 7) / 7

/-- What stands at the start of some bytes. -/
inductive Scan where
  /-- A number, and the bytes after it. -/
  | number (n : Nat) (rest : List UInt8)
  /-- The bytes end before a last byte has come. -/
  | unfinished
  /-- The tenth byte is the last one and above one. -/
  | tooLarge (rest : List UInt8)
  /-- None of ten bytes is a last one. -/
  | tooLong (rest : List UInt8)
deriving DecidableEq, Repr

namespace Scan

/-- The outcome with a group of seven bits put below it. -/
def withLow (low : Nat) : Scan → Scan
  | number n rest => number (low + 128 * n) rest
  | other => other

end Scan

/-- Scan at most `room` bytes. -/
def scanWithin : Nat → List UInt8 → Scan
  | 0, bs => .tooLong bs
  | _ + 1, [] => .unfinished
  | room + 1, b :: bs =>
    if b < 128 then
      if room = 0 ∧ 1 < b then .tooLarge bs else .number b.toNat bs
    else
      (scanWithin room bs).withLow (b.toNat - 128)

theorem Scan.withLow_eq_number_iff {s : Scan} {low n : Nat} {rest : List UInt8} :
    s.withLow low = .number n rest ↔ ∃ m, s = .number m rest ∧ low + 128 * m = n := by
  cases s with
  | number m rest' =>
    simp only [withLow, number.injEq]
    constructor
    · rintro ⟨hn, hrest⟩
      exact ⟨m, ⟨rfl, hrest⟩, hn⟩
    · rintro ⟨m, ⟨rfl, hrest⟩, hn⟩
      exact ⟨hn, hrest⟩
  | unfinished => simp [withLow]
  | tooLarge rest' => simp [withLow]
  | tooLong rest' => simp [withLow]

/-- A number ends with its first byte, or goes on behind it. -/
theorem scanWithin_cons_eq_number_iff {room n : Nat} {b : UInt8} {bs rest : List UInt8} :
    scanWithin (room + 1) (b :: bs) = .number n rest ↔
      (b < 128 ∧ ¬ (room = 0 ∧ 1 < b) ∧ b.toNat = n ∧ bs = rest) ∨
        (¬ b < 128 ∧ ∃ m, scanWithin room bs = .number m rest ∧ b.toNat - 128 + 128 * m = n) := by
  by_cases hlast : b < 128
  · by_cases hlarge : room = 0 ∧ 1 < b
    · simp [scanWithin, hlast, hlarge]
    · simp [scanWithin, hlast, hlarge]
  · rw [scanWithin, if_neg hlast, Scan.withLow_eq_number_iff]
    simp [hlast]

/-- A number takes at least one byte. -/
theorem length_lt_of_scanWithin {room : Nat} {bs rest : List UInt8} {n : Nat}
    (h : scanWithin room bs = .number n rest) : rest.length < bs.length := by
  induction room generalizing bs n with
  | zero => cases h
  | succ room ih =>
    cases bs with
    | nil => cases h
    | cons b bs =>
      rcases scanWithin_cons_eq_number_iff.mp h with ⟨-, -, -, rfl⟩ | ⟨-, m, hm, -⟩
      · exact Nat.lt_succ_self _
      · exact Nat.lt_succ_of_lt (ih hm)

/-- The number at the start of some bytes. -/
def scan (bs : List UInt8) : Scan := scanWithin maxBytes bs

/-- The number at the start of a page's bytes, and the bytes after it.  Ten bytes without a last one
are reported as truncated if the page ends there. -/
def decode (bs : List UInt8) : Except Failure (Nat × List UInt8) :=
  match scan bs with
  | .number n rest => .ok (n, rest)
  | .unfinished => .error (.damaged .varintTruncated)
  | .tooLarge _ => .error (.damaged .varintTooLarge)
  | .tooLong [] => .error (.damaged .varintTruncated)
  | .tooLong (_ :: _) => .error (.damaged .varintTooLarge)

theorem decode_eq_ok_iff {n : Nat} {bs rest : List UInt8} :
    decode bs = .ok (n, rest) ↔ scan bs = .number n rest := by
  unfold decode
  constructor
  · intro h
    split at h
    · next hs =>
      cases h
      exact hs
    all_goals cases h
  · intro h
    rw [h]

/-! ### Reading what was written -/

theorem encode_of_lt {n : Nat} (h : n < 128) : encode n = [UInt8.ofNat n] := by
  rw [encode, if_pos h]

theorem encode_of_le {n : Nat} (h : 128 ≤ n) :
    encode n = UInt8.ofNat (n % 128 + 128) :: encode (n / 128) := by
  rw [encode, if_neg (Nat.not_lt.mpr h)]

/-- A number is read back from enough room: all groups but the last are full, and the last is zero or
one in the last byte there is room for. -/
theorem scanWithin_encode {room n : Nat} (h : n < 2 * 128 ^ room) (rest : List UInt8) :
    scanWithin (room + 1) (encode n ++ rest) = .number n rest := by
  induction room generalizing n with
  | zero =>
    -- one byte is left, so the number is zero or one
    have hn : n < 2 := h
    have hb : (UInt8.ofNat n).toNat = n := by
      rw [UInt8.toNat_ofNat']; omega
    rw [encode_of_lt (by omega)]
    show scanWithin 1 (UInt8.ofNat n :: rest) = _
    have h1 : UInt8.ofNat n < 128 := by
      rw [UInt8.lt_iff_toNat_lt, hb]; exact Nat.lt_of_lt_of_le hn (by decide)
    have h2 : ¬ (1 : UInt8) < UInt8.ofNat n := by
      rw [UInt8.lt_iff_toNat_lt, hb]; exact Nat.not_lt.mpr (Nat.le_of_lt_succ hn)
    rw [scanWithin, if_pos h1, if_neg (fun h => h2 h.2), hb]
  | succ room ih =>
    by_cases hn : n < 128
    · have hb : (UInt8.ofNat n).toNat = n := by
        rw [UInt8.toNat_ofNat']; omega
      have h1 : UInt8.ofNat n < 128 := by
        rw [UInt8.lt_iff_toNat_lt, hb]; exact hn
      rw [encode_of_lt hn]
      show scanWithin (room + 2) (UInt8.ofNat n :: rest) = _
      rw [scanWithin, if_pos h1, if_neg (fun h => Nat.succ_ne_zero room h.1), hb]
    · -- the low group comes first, with its high bit set
      have hb : (UInt8.ofNat (n % 128 + 128)).toNat = n % 128 + 128 := by
        rw [UInt8.toNat_ofNat']; omega
      have h1 : ¬ UInt8.ofNat (n % 128 + 128) < 128 := by
        rw [UInt8.lt_iff_toNat_lt, hb]
        show ¬ n % 128 + 128 < 128
        omega
      have hq : n / 128 < 2 * 128 ^ room := by
        rw [Nat.pow_succ] at h; omega
      rw [encode_of_le (Nat.not_lt.mp hn), List.cons_append, scanWithin, if_neg h1, ih hq, hb]
      show Scan.number _ _ = _
      congr 1
      omega

/-- A 64-bit number is read back, whatever comes after it. -/
theorem scan_encode {n : Nat} (h : n < 2 ^ 64) (rest : List UInt8) :
    scan (encode n ++ rest) = .number n rest := @scanWithin_encode 9 n h rest

theorem decode_encode {n : Nat} (h : n < 2 ^ 64) (rest : List UInt8) :
    decode (encode n ++ rest) = .ok (n, rest) := by
  rw [decode, scan_encode h]

/-- A number that is cut off is unfinished, as all bytes but the last have their high bit set. -/
theorem scanWithin_take {room n k : Nat} (h : n < 2 * 128 ^ room) (hk : k < (encode n).length) :
    scanWithin (room + 1) ((encode n).take k) = .unfinished := by
  induction k generalizing room n with
  | zero => rfl
  | succ k ih =>
    have hn : 128 ≤ n := Nat.not_lt.mp fun hlt => by
      rw [encode_of_lt hlt, List.length_singleton] at hk
      omega
    obtain ⟨room, rfl⟩ : ∃ m, room = m + 1 := by
      refine Nat.exists_eq_succ_of_ne_zero fun hzero => ?_
      subst hzero
      omega
    have hq : n / 128 < 2 * 128 ^ room := by
      rw [Nat.pow_succ] at h; omega
    rw [encode_of_le hn, List.length_cons] at hk
    have hb : (UInt8.ofNat (n % 128 + 128)).toNat = n % 128 + 128 := by
      rw [UInt8.toNat_ofNat']; omega
    have h1 : ¬ UInt8.ofNat (n % 128 + 128) < 128 := by
      rw [UInt8.lt_iff_toNat_lt, hb]
      show ¬ n % 128 + 128 < 128
      omega
    rw [encode_of_le hn, List.take_succ_cons, scanWithin, if_neg h1, ih hq (Nat.lt_of_succ_lt_succ hk)]
    rfl

theorem scan_take {n k : Nat} (h : n < 2 ^ 64) (hk : k < (encode n).length) :
    scan ((encode n).take k) = .unfinished := @scanWithin_take 9 n k h hk

/-- Leaving out the low group takes seven binary digits away. -/
theorem log2_of_le {n : Nat} (h : 128 ≤ n) : Nat.log2 n = Nat.log2 (n / 128) + 7 := by
  have h128 : n / 128 ≠ 0 := by omega
  refine (Nat.log2_eq_iff (by omega)).mpr ⟨?_, ?_⟩
  · have := Nat.log2_self_le h128
    rw [Nat.pow_add]; omega
  · have := Nat.lt_log2_self (n := n / 128)
    rw [show Nat.log2 (n / 128) + 7 + 1 = (Nat.log2 (n / 128) + 1) + 7 from rfl, Nat.pow_add]
    omega

theorem one_le_length_encode (n : Nat) : 1 ≤ (encode n).length := by
  by_cases h : n < 128
  · rw [encode_of_lt h]; exact Nat.le_refl 1
  · rw [encode_of_le (Nat.not_lt.mp h), List.length_cons]; omega

theorem length_encode (n : Nat) : (encode n).length = size n := by
  fun_induction encode n with
  | case1 n h =>
    have : Nat.log2 n < 7 := by
      by_cases h0 : n = 0
      · subst h0; decide
      · exact (Nat.log2_lt h0).mpr h
    show 1 = size n
    unfold size
    omega
  | case2 n h ih =>
    rw [List.length_cons, ih]
    unfold size
    rw [log2_of_le (Nat.not_lt.mp h)]
    omega

end Leb128
end Columnar
