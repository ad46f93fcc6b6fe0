import Mathlib.Data.Nat.Init
import Columnar.Page.Presence

/-!
# Packed presence bits

Pushing sets bits and never clears one, so what keeps the packed bytes right is
that no bit is set past the last row.  Presence bits with that property, and with
as many bytes as their rows need, are `Canonical`; they are the packing of the
list of their bits.

## Main definitions

* `Presence.Canonical` — presence bits with nothing behind their last row.
* `Presence.Call`, `Presence.survivors` — calls on presence bits, and the bits that they leave.
* `Presence.Shows` — packed bytes that are those of a list of bits.

## Main results

* `Presence.isSet_pack` — packing puts every bit in its place.
* `Presence.toList_push`, `Presence.toList_truncate` — what growing and cutting
  do to the list of bits.
* `Presence.toBytes_eq_pack` — canonical presence bits are the packing of their list.
* `Presence.keeps_step`, `Presence.shows_run` — **after any calls they show the bits that
  have survived.**
-/

namespace Columnar
namespace Presence

/-! ### Bits of a byte -/

theorem testBit_setBit {i j : Nat} (hi : i < 8) (b : UInt8) :
    (setBit i b).toNat.testBit j = (b.toNat.testBit j || decide (i = j)) := by
  have hlt : 2 ^ i < 2 ^ 8 := Nat.pow_lt_pow_right (by decide) hi
  have hmod : (UInt8.ofNat (2 ^ i)).toNat = 2 ^ i := by
    rw [UInt8.toNat_ofNat']
    exact Nat.mod_eq_of_lt hlt
  rw [setBit, UInt8.toNat_or, hmod, Nat.testBit_or, Nat.testBit_two_pow]

theorem testBit_lowBits {n j : Nat} (hn : n < 8) (b : UInt8) :
    (lowBits n b).toNat.testBit j = (b.toNat.testBit j && decide (j < n)) := by
  have hlt : 2 ^ n - 1 < 2 ^ 8 := by
    have := Nat.pow_lt_pow_right (a := 2) (by decide) hn
    omega
  have hmod : (UInt8.ofNat (2 ^ n - 1)).toNat = 2 ^ n - 1 := by
    rw [UInt8.toNat_ofNat']
    exact Nat.mod_eq_of_lt hlt
  rw [lowBits, UInt8.toNat_and, hmod, Nat.testBit_and, Nat.testBit_two_pow_sub_one]

/-! ### Bits of packed bytes -/

theorem isSet_eq (bs : List UInt8) (i : Nat) :
    isSet bs i = (bs.getD (i / 8) 0).toNat.testBit (i % 8) := by
  unfold isSet
  cases h : bs[i / 8]? with
  | none => simp [List.getD, h]
  | some b => simp [List.getD, h]

@[simp] theorem isSet_nil (i : Nat) : isSet [] i = false := rfl

theorem isSet_eq_false_of_le {bs : List UInt8} {i : Nat} (h : bs.length ≤ i / 8) :
    isSet bs i = false := by
  unfold isSet
  rw [List.getElem?_eq_none h]

/-- Packed bytes are determined by their number and their bits. -/
theorem eq_of_isSet {as bs : List UInt8} (hlen : as.length = bs.length)
    (h : ∀ i, isSet as i = isSet bs i) : as = bs := by
  apply List.ext_getElem hlen
  intro k ha hb
  refine UInt8.toNat_inj.mp (Nat.eq_of_testBit_eq fun j => ?_)
  by_cases hj : j < 8
  · have hk := h (8 * k + j)
    have hdiv : (8 * k + j) / 8 = k := by omega
    have hmod : (8 * k + j) % 8 = j := by omega
    unfold isSet at hk
    rwa [hdiv, hmod, List.getElem?_eq_getElem ha, List.getElem?_eq_getElem hb] at hk
  · -- a byte has no bit from the eighth on
    have hpow : 2 ^ 8 ≤ 2 ^ j := Nat.pow_le_pow_right (by decide) (by omega)
    have ha' := as[k].toNat_lt
    have hb' := bs[k].toNat_lt
    rw [Nat.testBit_lt_two_pow (by omega), Nat.testBit_lt_two_pow (by omega)]

/-! ### Packing -/

@[simp] theorem pack_nil : pack [] = [] := by rw [pack]

theorem pack_of_ne_nil {bits : List Bool} (h : bits ≠ []) :
    pack bits = UInt8.ofNat (ofBits (bits.take 8)) :: pack (bits.drop 8) := by
  cases bits with
  | nil => exact absurd rfl h
  | cons b bits => rw [pack]

theorem testBit_ofBits (bits : List Bool) (j : Nat) :
    (ofBits bits).testBit j = bits.getD j false := by
  induction bits generalizing j with
  | nil => simp [ofBits]
  | cons b bits ih =>
    cases j with
    | zero => cases b <;> simp [ofBits, Nat.testBit_zero]
    | succ j =>
      have hdiv : (b.toNat + 2 * ofBits bits) / 2 = ofBits bits := by
        have := b.toNat_lt
        omega
      rw [ofBits, Nat.testBit_succ, hdiv, ih, List.getD_cons_succ]

theorem ofBits_lt (bits : List Bool) : ofBits bits < 2 ^ bits.length := by
  induction bits with
  | nil => decide
  | cons b bits ih =>
    have := b.toNat_lt
    rw [ofBits, List.length_cons, Nat.pow_succ]
    omega

theorem length_pack (bits : List Bool) : (pack bits).length = byteLength bits.length := by
  -- eight bits go into a byte at a time
  fun_induction pack bits with
  | case1 => rfl
  | case2 b bits ih =>
    rw [List.length_cons, ih, List.length_drop, List.length_cons, byteLength, byteLength]
    omega

/-- **Packing puts every bit in its place**; past the last row no bit is set. -/
theorem isSet_pack (bits : List Bool) (i : Nat) : isSet (pack bits) i = bits.getD i false := by
  induction i using Nat.strong_induction_on generalizing bits with
  | _ i ih =>
    by_cases hnil : bits = []
    · subst hnil
      simp
    rw [pack_of_ne_nil hnil]
    by_cases hi : i < 8
    · have hlt : ofBits (bits.take 8) < 2 ^ 8 :=
        Nat.lt_of_lt_of_le (ofBits_lt _)
          (Nat.pow_le_pow_right (by decide) (List.length_take_le 8 bits))
      have hdiv : i / 8 = 0 := by omega
      have hmod : i % 8 = i := by omega
      rw [isSet_eq, hdiv, hmod, List.getD_cons_zero, UInt8.toNat_ofNat', Nat.mod_eq_of_lt hlt,
        testBit_ofBits]
      simp [List.getD, List.getElem?_take_of_lt hi]
    · -- the bits from the ninth on are packed behind the first byte
      have hrec := ih (i - 8) (by omega) (bits.drop 8)
      have hdiv : i / 8 = (i - 8) / 8 + 1 := by omega
      have hmod : i % 8 = (i - 8) % 8 := by omega
      rw [isSet_eq] at hrec
      rw [isSet_eq, hdiv, hmod, List.getD_cons_succ, hrec]
      simp only [List.getD, List.getElem?_drop]
      congr 2
      omega

/-! ### Growing and cutting -/

/-- There are as many bytes as the rows need, and no bit is set past the last row. -/
structure Canonical (p : Presence) : Prop where
  size : p.bytes.size = byteLength p.length
  clear : ∀ i, p.length ≤ i → isSet p.toBytes i = false

@[simp] theorem length_toList (p : Presence) : p.toList.length = p.length := by simp [toList]

theorem getElem?_toList (p : Presence) {i : Nat} (hi : i < p.length) :
    p.toList[i]? = some (isSet p.toBytes i) := by
  simp [toList, hi]

theorem canonical_empty : Canonical empty where
  size := rfl
  clear := fun i _ => isSet_nil i

@[simp] theorem toList_empty : empty.toList = [] := rfl

/-- The bits after a change of one byte. -/
theorem isSet_modify (bytes : Array UInt8) (f : UInt8 → UInt8) {k : Nat} (hk : k < bytes.size)
    (i : Nat) : isSet (bytes.modify k f).toList i =
      if i / 8 = k then (f (bytes.toList.getD k 0)).toNat.testBit (i % 8)
      else isSet bytes.toList i := by
  have hget : bytes.toList[k]? = some bytes[k] := by simp [hk]
  rw [isSet_eq, isSet_eq, Array.toList_modify, List.getD, List.getD, List.getElem?_modify]
  by_cases h : i / 8 = k
  · subst h
    simp [hk]
  · have h' : k ≠ i / 8 := fun hk => h hk.symm
    simp [h, h']

theorem isSet_append_zero (bs : List UInt8) (i : Nat) : isSet (bs ++ [0]) i = isSet bs i := by
  rw [isSet_eq, isSet_eq, List.getD, List.getD, List.getElem?_append]
  split
  · rfl
  · next h =>
    rw [List.getElem?_eq_none (Nat.not_lt.mp h)]
    cases i / 8 - bs.length <;> simp

theorem toBytes_push {p : Presence} (h : Canonical p) (b : Bool) (i : Nat) :
    isSet (p.push b).toBytes i = if i = p.length then b else isSet p.toBytes i := by
  obtain ⟨bytes, n⟩ := p
  obtain ⟨hsize, hclear⟩ := h
  simp only [byteLength] at hsize
  simp only [toBytes] at hclear
  -- the byte of the new row is there, and its bit is clear
  obtain ⟨room, hroom, hsame, hlen⟩ : ∃ room : Array UInt8,
      (if n % 8 = 0 then bytes.push 0 else bytes) = room ∧
        (∀ j, isSet room.toList j = isSet bytes.toList j) ∧ room.size = n / 8 + 1 := by
    refine ⟨_, rfl, ?_, ?_⟩
    · intro j
      split
      · rw [Array.toList_push, isSet_append_zero]
      · rfl
    · split
      · rw [Array.size_push]
        omega
      · omega
  simp only [push, toBytes, hroom]
  cases b with
  | false =>
    rw [if_neg (by decide), hsame]
    split
    · next hi => rw [hclear i (Nat.le_of_eq hi.symm)]
    · rfl
  | true =>
    rw [if_pos rfl, isSet_modify room _ (by omega)]
    have hk : room.size - 1 = n / 8 := by omega
    rw [hk]
    by_cases hi : i / 8 = n / 8
    · rw [if_pos hi, testBit_setBit (Nat.mod_lt _ (by decide)), ← hi, ← isSet_eq, hsame]
      by_cases hin : i = n
      · rw [if_pos hin, decide_eq_true (by rw [hin]), Bool.or_true]
      · rw [if_neg hin, decide_eq_false (by omega), Bool.or_false]
    · rw [if_neg hi, hsame, if_neg (fun hin => hi (by rw [hin]))]

theorem canonical_push {p : Presence} (h : Canonical p) (b : Bool) : Canonical (p.push b) where
  size := by
    have hsize := h.size
    unfold byteLength at hsize ⊢
    unfold push
    split <;> split <;> simp only [Array.size_modify, Array.size_push] <;> omega
  clear := by
    intro i hi
    have hi' : p.length + 1 ≤ i := hi
    rw [toBytes_push h, if_neg (by omega)]
    exact h.clear i (by omega)

theorem toList_push {p : Presence} (h : Canonical p) (b : Bool) :
    (p.push b).toList = p.toList ++ [b] := by
  have hlen : (p.push b).length = p.length + 1 := rfl
  rw [toList, hlen, List.range_succ, List.map_append, List.map_singleton, toBytes_push h,
    if_pos rfl]
  congr 1
  apply List.map_congr_left
  intro i hi
  rw [toBytes_push h, if_neg (Nat.ne_of_lt (List.mem_range.mp hi))]

theorem toBytes_truncate {p : Presence} (h : Canonical p) {n : Nat} (hn : n < p.length) (i : Nat) :
    isSet (p.truncate n).toBytes i = (isSet p.toBytes i && decide (i < n)) := by
  obtain ⟨bytes, len⟩ := p
  obtain ⟨hsize, -⟩ := h
  simp only [byteLength] at hsize hn
  have hkept : (bytes.take (byteLength n)).size = (n + 7) / 8 := by
    simp only [Array.take_eq_extract, Array.size_extract, byteLength]
    omega
  have hsame : ∀ j, j / 8 < (n + 7) / 8 →
      (bytes.take (byteLength n)).toList.getD (j / 8) 0 = bytes.toList.getD (j / 8) 0 := by
    intro j hj
    simp [List.getD, byteLength, List.getElem?_take_of_lt hj]
  have hgone : ∀ j, (n + 7) / 8 ≤ j / 8 → isSet (bytes.take (byteLength n)).toList j = false := by
    intro j hj
    refine isSet_eq_false_of_le ?_
    rwa [Array.length_toList, hkept]
  simp only [truncate, toBytes, if_neg (Nat.not_le.mpr hn)]
  by_cases hfull : n % 8 = 0
  · rw [if_pos hfull]
    by_cases hi : i < n
    · rw [decide_eq_true hi, Bool.and_true, isSet_eq, hsame i (by omega), ← isSet_eq]
    · rw [decide_eq_false hi, Bool.and_false, hgone i (by omega)]
  · -- the last byte is kept in part
    rw [if_neg hfull, isSet_modify _ _ (by omega), hkept]
    by_cases hlast : i / 8 = (n + 7) / 8 - 1
    · rw [if_pos hlast, testBit_lowBits (Nat.mod_lt _ (by decide)), ← hlast,
        hsame i (by omega), ← isSet_eq]
      congr 1
      exact decide_eq_decide.mpr (by omega)
    · rw [if_neg hlast]
      by_cases hi : i < n
      · rw [decide_eq_true hi, Bool.and_true, isSet_eq, hsame i (by omega), ← isSet_eq]
      · rw [decide_eq_false hi, Bool.and_false, hgone i (by omega)]

theorem canonical_truncate {p : Presence} (h : Canonical p) (n : Nat) : Canonical (p.truncate n) := by
  by_cases hn : p.length ≤ n
  · rwa [truncate, if_pos hn]
  have hlt : n < p.length := Nat.not_le.mp hn
  have hlen : (p.truncate n).length = n := by rw [truncate, if_neg hn]
  refine ⟨?_, ?_⟩
  · have hsize := h.size
    rw [hlen]
    simp only [truncate, if_neg hn, byteLength] at hsize ⊢
    split <;> simp only [Array.size_modify, Array.take_eq_extract, Array.size_extract] <;> omega
  · intro i hi
    rw [toBytes_truncate h hlt, decide_eq_false (by omega), Bool.and_false]

theorem toList_truncate {p : Presence} (h : Canonical p) (n : Nat) :
    (p.truncate n).toList = p.toList.take n := by
  by_cases hn : p.length ≤ n
  · rw [truncate, if_pos hn, List.take_of_length_le (by rwa [length_toList])]
  have hlt : n < p.length := Nat.not_le.mp hn
  have hlen : (p.truncate n).length = n := by rw [truncate, if_neg hn]
  rw [toList, toList, hlen, ← List.map_take, List.take_range, Nat.min_eq_left (Nat.le_of_lt hlt)]
  apply List.map_congr_left
  intro i hi
  rw [toBytes_truncate h hlt, decide_eq_true (List.mem_range.mp hi), Bool.and_true]

/-- **Canonical presence bits are the packing of their list.** -/
theorem toBytes_eq_pack {p : Presence} (h : Canonical p) : p.toBytes = pack p.toList := by
  refine eq_of_isSet ?_ ?_
  · rw [length_pack, length_toList, toBytes, Array.length_toList, h.size]
  · intro i
    rw [isSet_pack, List.getD]
    by_cases hi : i < p.length
    · rw [getElem?_toList p hi, Option.getD_some]
    · rw [h.clear i (Nat.not_lt.mp hi), List.getElem?_eq_none (by rw [length_toList]; omega),
        Option.getD_none]

/-! ### Any calls -/

/-- A call on presence bits. -/
inductive Call where
  | push (present : Bool)
  | truncate (n : Nat)
  | clear

/-- What a call leaves of a list of bits. -/
def Call.onList (bits : List Bool) : Call → List Bool
  | push b => bits ++ [b]
  | truncate n => bits.take n
  | clear => []

def step (p : Presence) : Call → Presence
  | .push b => p.push b
  | .truncate n => p.truncate n
  | .clear => empty

/-- The presence bits after some calls. -/
def run (p : Presence) (calls : List Call) : Presence := calls.foldl step p

/-- The bits that have survived some calls on no bits. -/
def survivors (calls : List Call) : List Bool := calls.foldl Call.onList []

/-- Canonical presence bits of a list. -/
structure Keeps (p : Presence) (bits : List Bool) : Prop where
  canonical : Canonical p
  bits : p.toList = bits

variable {p : Presence} {bits : List Bool}

/-- **A call does to the presence bits what it does to the list.** -/
theorem keeps_step (h : Keeps p bits) (c : Call) : Keeps (p.step c) (c.onList bits) := by
  cases c with
  | push b =>
    refine ⟨canonical_push h.canonical b, ?_⟩
    rw [step, toList_push h.canonical, h.bits, Call.onList]
  | truncate n =>
    refine ⟨canonical_truncate h.canonical n, ?_⟩
    rw [step, toList_truncate h.canonical, h.bits, Call.onList]
  | clear => exact ⟨canonical_empty, toList_empty⟩

theorem keeps_foldl (h : Keeps p bits) (calls : List Call) :
    Keeps (p.run calls) (calls.foldl Call.onList bits) := by
  induction calls generalizing p bits with
  | nil => exact h
  | cons c calls ih => exact ih (keeps_step h c)

/-- What is seen of presence bits is a list of bits: the bytes are as many as it takes, each bit is in
its place, and nothing is set behind the last. -/
structure Shows (p : Presence) (bits : List Bool) : Prop where
  length : p.length = bits.length
  size : p.toBytes.length = byteLength p.length
  bit : ∀ r (hr : r < bits.length),
    ∃ b, p.toBytes[r / 8]? = some b ∧ b.toNat.testBit (r % 8) = bits[r]
  padding : ∀ r b, p.length ≤ r → p.toBytes[r / 8]? = some b → b.toNat.testBit (r % 8) = false
  get : ∀ r, p.get r = bits.getD r false
  isSet : ∀ r, Presence.isSet p.toBytes r = p.get r

theorem Keeps.shows (h : Keeps p bits) : Shows p bits := by
  obtain ⟨hcanonical, rfl⟩ := h
  have hsize : p.toBytes.length = byteLength p.length := by
    rw [toBytes, Array.length_toList, hcanonical.size]
  have hget : ∀ r, isSet p.toBytes r = p.get r := by
    intro r
    by_cases hr : r < p.length
    · rw [get, decide_eq_true hr, Bool.true_and]
    · rw [get, decide_eq_false hr, Bool.false_and, hcanonical.clear r (Nat.not_lt.mp hr)]
  refine ⟨length_toList p |>.symm, hsize, ?_, ?_, ?_, hget⟩
  · intro r hr
    have hlt : r < p.length := length_toList p ▸ hr
    have hbyte : r / 8 < p.toBytes.length := by
      rw [hsize, byteLength]
      omega
    have hbit := getElem?_toList p hlt
    rw [List.getElem?_eq_getElem hr, isSet, List.getElem?_eq_getElem hbyte] at hbit
    exact ⟨p.toBytes[r / 8], List.getElem?_eq_getElem hbyte, (Option.some.inj hbit).symm⟩
  · intro r b hr hb
    have hclear := hcanonical.clear r hr
    rwa [isSet, hb] at hclear
  · intro r
    rw [← hget, toBytes_eq_pack hcanonical, isSet_pack]

/-- **After any calls presence bits show the bits that have survived.** -/
theorem shows_run (calls : List Call) : Shows (empty.run calls) (survivors calls) :=
  (keeps_foldl ⟨canonical_empty, toList_empty⟩ calls).shows

end Presence
end Columnar
