import Columnar.Number.Power

/-!
# Little-endian words

Fixed-width words are stored low byte first.  `littleEndian w n` writes the low
`w` bytes of `n`; `ofLittleEndian` adds the bytes up again.  The format uses
eight-byte words only (`Word.toBytes`, `Word.ofBytes`).

## Main results

* `ofLittleEndian_littleEndian` — a number below `256 ^ w` is read back.
* `Word.ofBytes_toBytes` — so is every 64-bit word.
-/

namespace Columnar

/-- The low `w` bytes of `n`, least significant first. -/
def littleEndian : Nat → Nat → List UInt8
  | 0, _ => []
  | w + 1, n => UInt8.ofNat n :: littleEndian w (n / 256)

/-- The number whose base-256 digits are the given bytes, least significant first. -/
def ofLittleEndian : List UInt8 → Nat
  | [] => 0
  | b :: bs => b.toNat + 256 * ofLittleEndian bs

@[simp] theorem length_littleEndian (w n : Nat) : (littleEndian w n).length = w := by
  induction w generalizing n with
  | zero => rfl
  | succ w ih => simp [littleEndian, ih]

theorem ofLittleEndian_littleEndian (w n : Nat) (h : n < 256 ^ w) :
    ofLittleEndian (littleEndian w n) = n := by
  induction w generalizing n with
  | zero => simp at h; simp [littleEndian, ofLittleEndian, h]
  | succ w ih =>
    have hlt : n / 256 < 256 ^ w := by
      rw [Nat.div_lt_iff_lt_mul (by decide)]; rwa [Nat.pow_succ] at h
    simp only [littleEndian, ofLittleEndian, ih _ hlt, UInt8.toNat_ofNat']
    omega

namespace Word

/-- A 64-bit word as its eight bytes. -/
def toBytes (w : UInt64) : List UInt8 := littleEndian 8 w.toNat

/-- The 64-bit word spelled by eight bytes. -/
def ofBytes (bs : List UInt8) : UInt64 := UInt64.ofNat (ofLittleEndian bs)

@[simp] theorem length_toBytes (w : UInt64) : (toBytes w).length = 8 := length_littleEndian 8 _

@[simp] theorem ofBytes_toBytes (w : UInt64) : ofBytes (toBytes w) = w := by
  unfold ofBytes toBytes
  rw [ofLittleEndian_littleEndian _ _ w.toNat_lt, UInt64.ofNat_toNat]

end Word

end Columnar
