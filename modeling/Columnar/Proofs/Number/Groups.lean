import Mathlib.Algebra.BigOperators.Fin
import Columnar.Proofs.Bytes.Spellings

/-!
# Groups of seven bits

A number is what its groups add up to, the group of the byte at place `i` taken
`2 ^ (7 * i)` times.  A reader goes by the high bits and looks at the tenth byte
alone to see that a number is not too large.  That is all it takes: the bytes that it
accepts are just those that show where they end, are ten at most, and add up to a
number of 64 bits.  Of the bytes that spell one number, those that are written are the
fewest.

## Main definitions

* `Leb128.weigh` — what the groups of some bytes add up to.
* `Leb128.Spells` — bytes that spell a number of 64 bits.
* `Leb128.refusal` — what is said of bytes that no number stands in front of.

## Main results

* `Leb128.scanWithin_eq_number_nil_iff` — what a scan accepts, by the room that it has.
* `Leb128.decode_eq_ok_iff_spells`, `Leb128.decode_of_not_spells` — what is read off
  some bytes, and what is said when nothing is.
* `Leb128.exact_and_shortest` — **reading is exact, and what is written is shortest.**
-/

namespace Columnar
namespace Leb128

variable {room v : Nat} {b : UInt8} {bs text rest : List UInt8}

/-! ### What bytes spell -/

/-- What the groups of some bytes add up to. -/
def weigh (text : List UInt8) : Nat := ∑ i : Fin text.length, text[i].toNat % 128 * 2 ^ (7 * i.val)

/-- High bits that show where the bytes end: every byte but the last has its high bit set. -/
def Ended (text : List UInt8) : Prop :=
  ∃ front last, text = front ++ [last] ∧ (∀ b ∈ front, 128 ≤ b) ∧ last < 128

/-- Bytes that spell a number of 64 bits. -/
structure Spells (text : List UInt8) (v : Nat) : Prop where
  short : text.length ≤ 10
  ended : Ended text
  weight : v = weigh text
  word : v < 2 ^ 64

theorem weigh_cons (b : UInt8) (text : List UInt8) :
    weigh (b :: text) = b.toNat % 128 + 128 * weigh text := by
  have hpow : ∀ i, 2 ^ (7 * (i + 1)) = 128 * 2 ^ (7 * i) := by
    intro i
    rw [Nat.mul_succ, Nat.pow_add]
    exact Nat.mul_comm _ _
  show ∑ i : Fin (text.length + 1), (b :: text)[i.val].toNat % 128 * 2 ^ (7 * i.val) = _
  rw [Fin.sum_univ_succ, weigh, Finset.mul_sum]
  simp only [Fin.val_zero, List.getElem_cons_zero, Nat.mul_zero, Nat.pow_zero, Nat.mul_one, Fin.val_succ,
    List.getElem_cons_succ]
  congr 1
  refine Finset.sum_congr rfl fun i _ => ?_
  rw [hpow, Nat.mul_left_comm]
  rfl

theorem weigh_singleton (b : UInt8) : weigh [b] = b.toNat % 128 := weigh_cons b []

theorem not_ended_nil : ¬ Ended [] := by
  rintro ⟨front, last, h, -⟩
  cases front <;> cases h

theorem ended_singleton_iff : Ended [b] ↔ b < 128 := by
  constructor
  · rintro ⟨front, last, h, -, hlast⟩
    cases front with
    | nil =>
      cases h
      exact hlast
    | cons c front => cases front <;> cases h
  · exact fun h => ⟨[], b, rfl, fun c hc => absurd hc List.not_mem_nil, h⟩

theorem ended_cons_iff (htext : text ≠ []) : Ended (b :: text) ↔ 128 ≤ b ∧ Ended text := by
  constructor
  · rintro ⟨front, last, h, hfront, hlast⟩
    cases front with
    | nil =>
      cases h
      exact absurd rfl htext
    | cons c front =>
      cases h
      obtain ⟨hc, hfront⟩ := List.forall_mem_cons.mp hfront
      exact ⟨hc, front, last, rfl, hfront, hlast⟩
  · rintro ⟨hb, front, last, rfl, hfront, hlast⟩
    exact ⟨b :: front, last, rfl, List.forall_mem_cons.mpr ⟨hb, hfront⟩, hlast⟩

/-! ### What is accepted -/

theorem scanWithin_nil_ne_number : scanWithin room [] ≠ .number v rest := by
  cases room <;> exact Scan.noConfusion

/-- A byte alone may be as large as a group where others could follow it, and else zero or one. -/
theorem lt_of_last_iff (hb : b < 128) : b.toNat < 2 * 128 ^ room ↔ ¬ (room = 0 ∧ 1 < b) := by
  have hb : b.toNat < 128 := UInt8.lt_iff_toNat_lt.mp hb
  cases room with
  | zero =>
    have hone : 1 < b ↔ 1 < b.toNat := UInt8.lt_iff_toNat_lt
    simp only [true_and, hone]
    omega
  | succ room =>
    have hpos : 0 < 128 ^ room := Nat.pow_pos (by decide)
    rw [Nat.pow_succ]
    simp only [Nat.succ_ne_zero, false_and, not_false_eq_true, iff_true]
    omega

/-- **What a scan accepts**: bytes that show where they end, for which there is room, and which add up to
no more than can be kept. -/
theorem scanWithin_eq_number_nil_iff : scanWithin (room + 1) text = .number v [] ↔
    text.length ≤ room + 1 ∧ Ended text ∧ v = weigh text ∧ v < 2 * 128 ^ room := by
  induction text generalizing room v with
  | nil =>
    exact iff_of_false scanWithin_nil_ne_number fun h => not_ended_nil h.2.1
  | cons b text ih =>
    rw [scanWithin_cons_eq_number_iff]
    rcases eq_or_ne text [] with rfl | htext
    · -- a byte alone is the last one
      rw [ended_singleton_iff, weigh_singleton]
      constructor
      · rintro (⟨hlast, hsmall, rfl, -⟩ | ⟨-, m, hm, -⟩)
        · have hmod : b.toNat % 128 = b.toNat := Nat.mod_eq_of_lt (UInt8.lt_iff_toNat_lt.mp hlast)
          exact ⟨Nat.succ_le_succ (Nat.zero_le room), hlast, hmod.symm, (lt_of_last_iff hlast).mpr hsmall⟩
        · exact absurd hm scanWithin_nil_ne_number
      · rintro ⟨-, hlast, rfl, hlt⟩
        have hmod : b.toNat % 128 = b.toNat := Nat.mod_eq_of_lt (UInt8.lt_iff_toNat_lt.mp hlast)
        rw [hmod] at hlt ⊢
        exact Or.inl ⟨hlast, (lt_of_last_iff hlast).mp hlt, rfl, rfl⟩
    · -- any other goes on, and what follows it has a group less to keep to
      have hcases : b < 128 ∨ 128 ≤ b.toNat ∧ b.toNat - 128 = b.toNat % 128 := by
        have hbyte := b.toNat_lt
        by_cases hb : b.toNat < 128
        · exact Or.inl (UInt8.lt_iff_toNat_lt.mpr hb)
        · exact Or.inr (by omega)
      rw [ended_cons_iff htext, weigh_cons, List.length_cons]
      constructor
      · rintro (⟨-, -, -, hrest⟩ | ⟨hmore, m, hm, rfl⟩)
        · exact absurd hrest htext
        · obtain ⟨hbyte, hgroup⟩ := hcases.resolve_left hmore
          cases room with
          | zero => cases hm
          | succ room =>
            obtain ⟨hlength, hended, rfl, hlt⟩ := ih.mp hm
            have hlow := Nat.mod_lt b.toNat (show 128 > 0 by decide)
            refine ⟨Nat.succ_le_succ hlength, ⟨UInt8.not_lt.mp hmore, hended⟩, by rw [hgroup], ?_⟩
            rw [hgroup, Nat.pow_succ]
            omega
      · rintro ⟨hlength, ⟨hmore, hended⟩, rfl, hlt⟩
        have hnot := UInt8.not_lt.mpr hmore
        obtain ⟨hbyte, hgroup⟩ := hcases.resolve_left hnot
        cases room with
        | zero => exact absurd (List.length_eq_zero_iff.mp (by omega)) htext
        | succ room =>
          rw [Nat.pow_succ] at hlt
          have hrest := ih.mpr ⟨Nat.le_of_succ_le_succ hlength, hended, rfl, by omega⟩
          exact Or.inr ⟨hnot, weigh text, hrest, by rw [hgroup]⟩

theorem decode_eq_ok_nil_iff : decode text = .ok (v, []) ↔ Spells text v := by
  rw [decode_eq_ok_iff]
  refine scanWithin_eq_number_nil_iff.trans ?_
  constructor
  · rintro ⟨hlength, hended, hweight, hword⟩
    exact ⟨hlength, hended, hweight, hword⟩
  · rintro ⟨hlength, hended, hweight, hword⟩
    exact ⟨hlength, hended, hweight, hword⟩

/-- A number is read off some bytes just if they begin with bytes that spell it. -/
theorem decode_eq_ok_iff_spells :
    decode bs = .ok (v, rest) ↔ ∃ text, bs = text ++ rest ∧ Spells text v := by
  constructor
  · intro h
    obtain ⟨sp, rfl⟩ := exists_spelling h
    exact ⟨sp.bytes, rfl, decode_eq_ok_nil_iff.mp sp.reads⟩
  · rintro ⟨text, rfl, hspells⟩
    exact Spelling.decode_append ⟨text, decode_eq_ok_nil_iff.mpr hspells⟩ rest

/-- A group of zeros at the high end changes nothing. -/
example : decode [0x88, 0x00, 0x05] = .ok (8, [0x05]) := rfl

/-! ### What is refused -/

/-- What is said of bytes that no number stands in front of: they end before it does, or it is too
large. -/
def refusal (bs : List UInt8) : Damage :=
  if bs.length ≤ 10 ∧ bs.all fun b => 128 ≤ b then .varintTruncated else .varintTooLarge

/-- What each outcome of a scan says of the high bits. -/
def Scan.Tells (room : Nat) (bs : List UInt8) : Scan → Prop
  | number _ _ => True
  | unfinished => bs.length < room ∧ bs.all fun b => 128 ≤ b
  | tooLarge _ => ¬ bs.all fun b => 128 ≤ b
  | tooLong rest => bs.length = room + rest.length ∧ (rest = [] → bs.all fun b => 128 ≤ b)

theorem tells_scanWithin (room : Nat) (bs : List UInt8) : (scanWithin room bs).Tells room bs := by
  induction room generalizing bs with
  | zero => exact ⟨(Nat.zero_add _).symm, fun h => by rw [h]; rfl⟩
  | succ room ih =>
    cases bs with
    | nil => exact ⟨Nat.succ_pos room, rfl⟩
    | cons b bs =>
      unfold scanWithin
      split
      · next hlast =>
        split
        · simp [Scan.Tells, hlast]
        · trivial
      · next hmore =>
        have hhigh : 128 ≤ b := UInt8.not_lt.mp hmore
        have hrest := ih bs
        cases hs : scanWithin room bs with
        | number n rest => trivial
        | unfinished =>
          rw [hs] at hrest
          simpa [Scan.Tells, Scan.withLow, hhigh] using hrest
        | tooLarge rest =>
          rw [hs] at hrest
          simpa [Scan.Tells, Scan.withLow, hhigh] using hrest
        | tooLong rest =>
          rw [hs] at hrest
          simp only [Scan.Tells, Scan.withLow, List.length_cons, List.all_cons, hhigh, decide_true,
            Bool.true_and] at hrest ⊢
          exact ⟨by omega, hrest.2⟩

/-- **Bytes that no number stands in front of are refused.** -/
theorem decode_of_not_spells (h : ∀ text rest v, bs = text ++ rest → ¬ Spells text v) :
    decode bs = .error (.damaged (refusal bs)) := by
  have htells := tells_scanWithin maxBytes bs
  unfold decode scan refusal
  cases hs : scanWithin maxBytes bs with
  | number v rest =>
    obtain ⟨text, htext, hspells⟩ := decode_eq_ok_iff_spells.mp (decode_eq_ok_iff.mpr hs)
    exact absurd hspells (h text rest v htext)
  | unfinished =>
    rw [hs] at htells
    rw [if_pos ⟨Nat.le_of_lt htells.1, htells.2⟩]
  | tooLarge rest =>
    rw [hs] at htells
    rw [if_neg fun hall => htells hall.2]
  | tooLong rest =>
    rw [hs] at htells
    obtain ⟨hlength, hall⟩ := htells
    cases rest with
    | nil => rw [if_pos ⟨Nat.le_of_eq hlength, hall rfl⟩]
    | cons c rest =>
      have hlong : ¬ bs.length ≤ 10 := by
        rw [hlength, List.length_cons, maxBytes]
        omega
      rw [if_neg fun hle => hlong hle.1]

/-! ### Both directions -/

/-- Reading a number off some bytes is exact. -/
structure ReadsExactly (bs : List UInt8) : Prop where
  accepts : ∀ v rest, decode bs = .ok (v, rest) ↔ ∃ text, bs = text ++ rest ∧ Spells text v
  refuses : (∀ text rest v, bs = text ++ rest → ¬ Spells text v) →
    decode bs = .error (.damaged (refusal bs))

/-- A 64-bit number is read back, and what is written for it is shorter than anything else that spells
it. -/
structure WrittenShortest (v : UInt64) : Prop where
  read : ∀ rest, decode (encode v.toNat ++ rest) = .ok (v.toNat, rest)
  length : (encode v.toNat).length = size v.toNat
  shortest : ∀ text, decode text = .ok (v.toNat, []) → text ≠ encode v.toNat →
    (encode v.toNat).length < text.length

/-- **Reading is exact, and what is written is shortest.** -/
theorem exact_and_shortest (bs : List UInt8) (v : UInt64) : ReadsExactly bs ∧ WrittenShortest v := by
  refine ⟨⟨fun v rest => decode_eq_ok_iff_spells, decode_of_not_spells⟩, ?_, length_encode _, ?_⟩
  · exact decode_encode v.toNat_lt
  · intro text htext hne
    have hle := (Spelling.mk text htext).eq_or_lt.resolve_left hne
    rwa [length_encode]

end Leb128
end Columnar
