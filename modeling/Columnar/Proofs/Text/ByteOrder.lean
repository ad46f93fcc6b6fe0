import Columnar.Text.Utf8

/-!
# Strings in the order of their bytes

Strings are compared character by character, and their UTF-8 bytes byte by byte.  It
comes to the same: the first byte of a character tells how many bytes there are, more
bytes stand for greater characters, and among as many bytes the higher digits come
first.  So of two different characters the lesser one has the lesser bytes, whatever
follows.

## Main results

* `Utf8.encodeChar_append_lt` — of two characters, with anything behind them.
* `Utf8.encode_lt_encode` — of two strings.
-/

namespace Columnar
namespace Utf8

/-! ### The bytes of a character -/

/-- The bytes of a character, by their number. -/
theorem encodeChar_cases (c : Char) :
    (c.val.toNat ≤ 0x7f ∧ String.utf8EncodeChar c = [UInt8.ofNat c.val.toNat]) ∨
    (0x7f < c.val.toNat ∧ c.val.toNat ≤ 0x7ff ∧ String.utf8EncodeChar c =
      [UInt8.ofNat (c.val.toNat / 64 % 32 + 192), UInt8.ofNat (c.val.toNat % 64 + 128)]) ∨
    (0x7ff < c.val.toNat ∧ c.val.toNat ≤ 0xffff ∧ String.utf8EncodeChar c =
      [UInt8.ofNat (c.val.toNat / 4096 % 16 + 224), UInt8.ofNat (c.val.toNat / 64 % 64 + 128),
        UInt8.ofNat (c.val.toNat % 64 + 128)]) ∨
    (0xffff < c.val.toNat ∧ c.val.toNat < 0x110000 ∧ String.utf8EncodeChar c =
      [UInt8.ofNat (c.val.toNat / 262144 % 8 + 240), UInt8.ofNat (c.val.toNat / 4096 % 64 + 128),
        UInt8.ofNat (c.val.toNat / 64 % 64 + 128), UInt8.ofNat (c.val.toNat % 64 + 128)]) := by
  have hmax : c.val.toNat < 0x110000 := by
    rcases c.valid with h | h <;> omega
  unfold String.utf8EncodeChar
  by_cases h1 : c.val.toNat ≤ 0x7f
  · exact Or.inl ⟨h1, if_pos h1⟩
  by_cases h2 : c.val.toNat ≤ 0x7ff
  · exact Or.inr (Or.inl ⟨by omega, h2, by simp only [if_neg h1, if_pos h2]⟩)
  by_cases h3 : c.val.toNat ≤ 0xffff
  · exact Or.inr (Or.inr (Or.inl ⟨by omega, h3, by simp only [if_neg h1, if_neg h2, if_pos h3]⟩))
  · exact Or.inr (Or.inr (Or.inr ⟨by omega, hmax, by simp only [if_neg h1, if_neg h2, if_neg h3]⟩))

/-- A lesser byte comes first, whatever follows. -/
theorem cons_lt_cons_of_lt {a b : Nat} (hb : b < 256) (h : a < b) (r r' : List UInt8) :
    UInt8.ofNat a :: r < UInt8.ofNat b :: r' := by
  refine List.cons_lt_cons_iff.mpr (Or.inl ?_)
  rw [UInt8.lt_iff_toNat_lt, UInt8.toNat_ofNat', UInt8.toNat_ofNat']
  omega

/-- Behind equal bytes the next ones are compared. -/
theorem cons_lt_cons_of_le {a b : Nat} (hb : b < 256) (h : a ≤ b) {r r' : List UInt8}
    (hnext : a = b → r < r') : UInt8.ofNat a :: r < UInt8.ofNat b :: r' := by
  rcases Nat.lt_or_eq_of_le h with hlt | heq
  · exact cons_lt_cons_of_lt hb hlt r r'
  · exact List.cons_lt_cons_iff.mpr (Or.inr ⟨congrArg UInt8.ofNat heq, hnext heq⟩)

/-- **Of two characters the lesser one has the lesser bytes**, whatever follows. -/
theorem encodeChar_append_lt {c d : Char} (h : c < d) (r r' : List UInt8) :
    String.utf8EncodeChar c ++ r < String.utf8EncodeChar d ++ r' := by
  have hlt : c.val.toNat < d.val.toNat := h
  -- with fewer bytes the first one is less; with as many, the digits differ from the highest on
  rcases encodeChar_cases c with ⟨hc, ec⟩ | ⟨hc, hc', ec⟩ | ⟨hc, hc', ec⟩ | ⟨hc, hc', ec⟩
  · rcases encodeChar_cases d with ⟨hd, ed⟩ | ⟨hd, hd', ed⟩ | ⟨hd, hd', ed⟩ | ⟨hd, hd', ed⟩
    all_goals
      rw [ec, ed]
      exact cons_lt_cons_of_lt (by omega) (by omega) _ _
  · rcases encodeChar_cases d with ⟨hd, ed⟩ | ⟨hd, hd', ed⟩ | ⟨hd, hd', ed⟩ | ⟨hd, hd', ed⟩
    · omega
    · rw [ec, ed]
      exact cons_lt_cons_of_le (by omega) (by omega) fun _ =>
        cons_lt_cons_of_lt (by omega) (by omega) _ _
    all_goals
      rw [ec, ed]
      exact cons_lt_cons_of_lt (by omega) (by omega) _ _
  · rcases encodeChar_cases d with ⟨hd, ed⟩ | ⟨hd, hd', ed⟩ | ⟨hd, hd', ed⟩ | ⟨hd, hd', ed⟩
    · omega
    · omega
    · rw [ec, ed]
      exact cons_lt_cons_of_le (by omega) (by omega) fun _ =>
        cons_lt_cons_of_le (by omega) (by omega) fun _ =>
          cons_lt_cons_of_lt (by omega) (by omega) _ _
    · rw [ec, ed]
      exact cons_lt_cons_of_lt (by omega) (by omega) _ _
  · rcases encodeChar_cases d with ⟨hd, ed⟩ | ⟨hd, hd', ed⟩ | ⟨hd, hd', ed⟩ | ⟨hd, hd', ed⟩
    · omega
    · omega
    · omega
    · rw [ec, ed]
      exact cons_lt_cons_of_le (by omega) (by omega) fun _ =>
        cons_lt_cons_of_le (by omega) (by omega) fun _ =>
          cons_lt_cons_of_le (by omega) (by omega) fun _ =>
            cons_lt_cons_of_lt (by omega) (by omega) _ _

/-! ### The bytes of a string -/

theorem flatMap_encodeChar_lt {cs ds : List Char} (h : cs < ds) :
    cs.flatMap String.utf8EncodeChar < ds.flatMap String.utf8EncodeChar := by
  induction cs generalizing ds with
  | nil =>
    cases ds with
    | nil => exact absurd h (List.lt_irrefl _)
    | cons d ds =>
      have hpos : 0 < (String.utf8EncodeChar d ++ ds.flatMap String.utf8EncodeChar).length := by
        rw [List.length_append, String.length_utf8EncodeChar]
        exact Nat.add_pos_left d.utf8Size_pos _
      obtain ⟨b, bs, hcons⟩ := List.exists_cons_of_length_pos hpos
      rw [List.flatMap_cons, hcons]
      exact List.nil_lt_cons b bs
  | cons c cs ih =>
    cases ds with
    | nil => exact absurd h (List.not_lt_nil _)
    | cons d ds =>
      rw [List.flatMap_cons, List.flatMap_cons]
      rcases List.cons_lt_cons_iff.mp h with hlt | ⟨rfl, hlt⟩
      · exact encodeChar_append_lt hlt _ _
      · exact List.append_left_lt (ih hlt)

/-- **Strings are in the order of their bytes.** -/
theorem encode_lt_encode {s t : String} (h : s < t) : encode s < encode t := by
  rw [encode_eq_flatMap, encode_eq_flatMap]
  exact flatMap_encodeChar_lt (String.lt_iff.mp h)

end Utf8
end Columnar
