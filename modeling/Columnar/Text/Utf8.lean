/-!
# UTF-8

Strings travel as their UTF-8 bytes.  Reading them back is partial: bytes that
are no well-formed UTF-8 spell no string.

## Main results

* `Utf8.decode?_eq_some_iff` — reading accepts exactly what writing produces.
* `Utf8.zero_notMem_encode` — the zero byte stands for the zero character only.
-/

namespace Columnar
namespace Utf8

/-- The UTF-8 bytes of a string. -/
def encode (s : String) : List UInt8 := s.toByteArray.data.toList

/-- The string spelled by well-formed UTF-8. -/
def decode? (bs : List UInt8) : Option String := String.fromUTF8? ⟨bs.toArray⟩

@[simp] theorem decode?_encode (s : String) : decode? (encode s) = some s := by
  have h : (⟨(encode s).toArray⟩ : ByteArray) = s.toByteArray := by simp [encode]
  unfold decode? String.fromUTF8?
  rw [h, dif_pos s.isValidUTF8]
  rfl

theorem encode_of_decode? {bs : List UInt8} {s : String} (h : decode? bs = some s) :
    encode s = bs := by
  unfold decode? String.fromUTF8? at h
  split at h
  · simp only [Option.some.injEq] at h
    subst h
    simp [encode, String.fromUTF8]
  · simp at h

theorem decode?_eq_some_iff {bs : List UInt8} {s : String} :
    decode? bs = some s ↔ bs = encode s :=
  ⟨fun h => (encode_of_decode? h).symm, fun h => h ▸ decode?_encode s⟩

theorem encode_injective {s t : String} (h : encode s = encode t) : s = t := by
  have hs := decode?_encode s
  rw [h, decode?_encode t] at hs
  exact (Option.some.inj hs).symm

theorem encode_eq_flatMap (s : String) : encode s = s.toList.flatMap String.utf8EncodeChar := by
  rw [encode, ← String.utf8Encode_toList, List.utf8Encode, List.toList_data_toByteArray]

/-- A byte with a leading bit is not zero. -/
theorem ofNat_ne_zero {n : Nat} (h : 0 < n) (hlt : n < 256) : (0 : UInt8) ≠ UInt8.ofNat n := by
  intro h0
  have hnat := congrArg UInt8.toNat h0
  rw [UInt8.toNat_ofNat', Nat.mod_eq_of_lt hlt] at hnat
  exact absurd hnat (Nat.ne_of_lt h)

theorem zero_mem_encodeChar {c : Char} (h : 0 ∈ String.utf8EncodeChar c) : c = '\x00' := by
  unfold String.utf8EncodeChar at h
  simp only at h
  split at h
  · next hv =>
    have hnat := congrArg UInt8.toNat (List.mem_singleton.mp h)
    rw [UInt8.toNat_ofNat', Nat.mod_eq_of_lt (by omega)] at hnat
    exact Char.ext (UInt32.toNat_inj.mp hnat.symm)
  · -- all other bytes have a leading bit
    exfalso
    split at h
    · simp only [List.mem_cons, List.not_mem_nil, or_false] at h
      rcases h with h | h
      · exact ofNat_ne_zero (by omega) (by omega) h
      · exact ofNat_ne_zero (by omega) (by omega) h
    · split at h
      · simp only [List.mem_cons, List.not_mem_nil, or_false] at h
        rcases h with h | h | h
        · exact ofNat_ne_zero (by omega) (by omega) h
        · exact ofNat_ne_zero (by omega) (by omega) h
        · exact ofNat_ne_zero (by omega) (by omega) h
      · simp only [List.mem_cons, List.not_mem_nil, or_false] at h
        rcases h with h | h | h | h
        · exact ofNat_ne_zero (by omega) (by omega) h
        · exact ofNat_ne_zero (by omega) (by omega) h
        · exact ofNat_ne_zero (by omega) (by omega) h
        · exact ofNat_ne_zero (by omega) (by omega) h

/-- The zero byte stands for the zero character only. -/
theorem zero_notMem_encode {s : String} (h : '\x00' ∉ s.toList) : 0 ∉ encode s := by
  rw [encode_eq_flatMap, List.mem_flatMap]
  rintro ⟨c, hc, h0⟩
  exact h (zero_mem_encodeChar h0 ▸ hc)

end Utf8
end Columnar
