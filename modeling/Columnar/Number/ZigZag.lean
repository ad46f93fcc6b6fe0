import Columnar.Number.Power

/-!
# Signed numbers as unsigned ones

Signed numbers are numbered `0, -1, 1, -2, 2, …`, so that numbers near zero stay
short.

## Main results

* `ZigZag.decode_encode` — the number is found again.
-/

namespace Columnar
namespace ZigZag

/-- The place of a signed number in `0, -1, 1, -2, 2, …`. -/
def encode (v : Int64) : Nat :=
  if 0 ≤ v.toInt then 2 * v.toInt.toNat else 2 * (-v.toInt).toNat - 1

/-- The signed number at a place. -/
def decode (n : Nat) : Int64 :=
  if n % 2 = 0 then Int64.ofInt (n / 2 : Nat) else Int64.ofInt (-((n + 1) / 2 : Nat))

@[simp] theorem decode_encode (v : Int64) : decode (encode v) = v := by
  unfold encode
  split
  · next h =>
    have : (2 * v.toInt.toNat) / 2 = v.toInt.toNat := by omega
    rw [decode, if_pos (by omega), this, Int.toNat_of_nonneg h, Int64.ofInt_toInt]
  · next h =>
    have h1 : (2 * (-v.toInt).toNat - 1) % 2 ≠ 0 := by omega
    have h2 : (2 * (-v.toInt).toNat - 1 + 1) / 2 = (-v.toInt).toNat := by omega
    rw [decode, if_neg h1, h2, Int.toNat_of_nonneg (by omega), Int.neg_neg, Int64.ofInt_toInt]

theorem encode_lt (v : Int64) : encode v < 2 ^ 64 := by
  have h1 := v.toInt_lt
  have h2 := v.le_toInt
  unfold encode
  split <;> omega

end ZigZag
end Columnar
