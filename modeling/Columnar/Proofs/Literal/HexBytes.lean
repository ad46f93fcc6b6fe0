import Columnar.Literal

/-!
# Bytes in hexadecimal

After `0x` a byte literal should be pairs of hexadecimal digits.  The two characters of a
pair are read as a number is, and a number may have a plus sign in front: so `+f` is a
pair as well, and spells what `0f` spells.  Nothing else is tolerated, in any place.

## Main definitions

* `Text.IsHexDigit` — the digit of a number, in either case.
* `HexBytes.Pair`, `HexBytes.LoosePair` — a byte as it should be spelled, and as it may be.
* `HexBytes.Spells` — characters spell bytes, a pair each.
* `HexBytes.spelling` — the digits of bytes.
* `Literal.ReadsHex` — which bytes a literal stands for.

## Main results

* `Text.hexValue?_eq_some_iff` — digits are the characters that have a value.
* `HexBytes.pairs?_eq_some_iff` — what is read is what is spelled.
* `HexBytes.exists_spells_iff` — digits in even number spell bytes.
* `Literal.readsHex_of_unquote` — **bytes in hexadecimal are what their digits spell**, apart
  from plus signs.
* `Literal.parse?_spelling` — bytes come back from their digits.
* `Literal.not_spells_of_parse?` — what is read is not always in digits.
-/

namespace Columnar

/-! ### Digits -/

namespace Text

inductive LetterCase where
  | lower
  | upper
deriving DecidableEq

/-- The sixteen digits, in order. -/
def LetterCase.digits : LetterCase → List Char
  | lower => "0123456789abcdef".toList
  | upper => "0123456789ABCDEF".toList

/-- The character is the digit of a number. -/
def IsHexDigit (n : Nat) (c : Char) : Prop := ∃ letters : LetterCase, letters.digits[n]? = some c

variable {n : Nat} {c : Char}

theorem LetterCase.length_digits (letters : LetterCase) : letters.digits.length = 16 := by
  cases letters <;> rfl

theorem IsHexDigit.lt (h : IsHexDigit n c) : n < 16 := by
  obtain ⟨letters, hc⟩ := h
  rw [← letters.length_digits]
  exact (List.getElem?_eq_some_iff.mp hc).1

/-- What holds of the sixteen digits, in both cases, holds of all digits. -/
theorem IsHexDigit.of_forall {D : Nat → Char → Prop} (h : IsHexDigit n c)
    (hall : ∀ letters ∈ [LetterCase.lower, .upper], ∀ n < 16, D n (letters.digits.getD n '0')) : D n c := by
  have hlt := h.lt
  obtain ⟨letters, hc⟩ := h
  have hletters : letters ∈ [LetterCase.lower, .upper] := by cases letters <;> decide
  have hD := hall letters hletters n hlt
  rwa [List.getD_eq_getElem?_getD, hc, Option.getD_some] at hD

theorem isHexDigit_getD (letters : LetterCase) (h : n < 16) : IsHexDigit n (letters.digits.getD n '0') := by
  refine ⟨letters, ?_⟩
  rw [← letters.length_digits] at h
  rw [List.getD_eq_getElem?_getD, List.getElem?_eq_getElem h, Option.getD_some]

/-- A character that has a value is not beyond the last small letter among the digits, and what is not
beyond it can be looked up. -/
theorem isHexDigit_of_hexValue? (h : hexValue? c = some n) : IsHexDigit n c := by
  have hbound : c.toNat < 103 := by
    unfold hexValue? at h
    simp only [Char.le_def, UInt32.le_iff_toNat_le] at h
    split at h
    · next hc => exact Nat.lt_of_le_of_lt hc.2 (by decide)
    split at h
    · next hc => exact Nat.lt_of_le_of_lt hc.2 (by decide)
    split at h
    · next hc => exact Nat.lt_of_le_of_lt hc.2 (by decide)
    · cases h
  have hall : ∀ m < 103, ∀ n ∈ hexValue? (Char.ofNat m), ∃ letters ∈ [LetterCase.lower, .upper],
      letters.digits[n]? = some (Char.ofNat m) := by decide
  rw [← Char.ofNat_toNat c] at h ⊢
  obtain ⟨letters, -, hc⟩ := hall c.toNat hbound n h
  exact ⟨letters, hc⟩

/-- **The digits are the characters that have a value.** -/
theorem hexValue?_eq_some_iff : hexValue? c = some n ↔ IsHexDigit n c := by
  refine ⟨isHexDigit_of_hexValue?, fun h => ?_⟩
  exact h.of_forall (D := fun n c => hexValue? c = some n) (by decide)

/-- A plus sign is no digit. -/
theorem not_isHexDigit_plus : ¬ IsHexDigit n '+' := by
  intro h
  have hnone : hexValue? '+' = some n := hexValue?_eq_some_iff.mpr h
  cases hnone

/-- A digit is not blank. -/
theorem IsHexDigit.isBlank_eq_false (h : IsHexDigit n c) : isBlank c = false :=
  h.of_forall (D := fun _ c => isBlank c = false) (by decide)

theorem trim_of_forall_not_isBlank {cs : List Char} (h : ∀ c ∈ cs, isBlank c = false) : trim cs = cs := by
  have hdrop : ∀ cs : List Char, (∀ c ∈ cs, isBlank c = false) → cs.dropWhile isBlank = cs := by
    intro cs h
    cases cs with
    | nil => rfl
    | cons c cs => rw [List.dropWhile_cons_of_neg (by simp [h c List.mem_cons_self])]
  rw [trim, trimStart, hdrop cs h, trimEnd, hdrop cs.reverse fun c hc => h c (List.mem_reverse.mp hc),
    List.reverse_reverse]

end Text

namespace HexBytes

open Text

/-! ### Pairs -/

/-- Two digits, the first one most significant. -/
inductive Pair : Char → Char → UInt8 → Prop
  | digits {a b : Char} {high low : Nat} : IsHexDigit high a → IsHexDigit low b →
      Pair a b (UInt8.ofNat (16 * high + low))

/-- Two digits, or one that has a plus sign in front. -/
inductive LoosePair : Char → Char → UInt8 → Prop
  | pair {a b : Char} {byte : UInt8} : Pair a b byte → LoosePair a b byte
  | plus {b : Char} {low : Nat} : IsHexDigit low b → LoosePair '+' b (UInt8.ofNat low)

/-- Characters spell bytes, a pair each. -/
inductive Spells (P : Char → Char → UInt8 → Prop) : List Char → List UInt8 → Prop
  | nil : Spells P [] []
  | cons {a b : Char} {byte : UInt8} {cs : List Char} {bytes : List UInt8} :
      P a b byte → Spells P cs bytes → Spells P (a :: b :: cs) (byte :: bytes)

variable {a b : Char} {byte : UInt8} {cs : List Char} {bytes : List UInt8}
  {P Q : Char → Char → UInt8 → Prop} {D : Char → Prop}

theorem pair?_eq_some_iff : pair? a b = some byte ↔ LoosePair a b byte := by
  unfold pair?
  constructor
  · intro h
    split at h
    · next ha =>
      obtain ⟨low, hlow, rfl⟩ := Option.map_eq_some_iff.mp h
      rw [ha]
      exact .plus (hexValue?_eq_some_iff.mp hlow)
    · obtain ⟨high, hhigh, h⟩ := Option.bind_eq_some_iff.mp h
      obtain ⟨low, hlow, h⟩ := Option.bind_eq_some_iff.mp h
      rw [← Option.some.inj h]
      exact .pair (.digits (hexValue?_eq_some_iff.mp hhigh) (hexValue?_eq_some_iff.mp hlow))
  · rintro (⟨ha, hb⟩ | hb)
    · have hplus : a ≠ '+' := by
        rintro rfl
        exact not_isHexDigit_plus ha
      rw [if_neg hplus, hexValue?_eq_some_iff.mpr ha, hexValue?_eq_some_iff.mpr hb]
      rfl
    · rw [if_pos rfl, hexValue?_eq_some_iff.mpr hb]
      rfl

/-! ### Texts -/

/-- **What is read is what is spelled.** -/
theorem pairs?_eq_some_iff : pairs? cs = some bytes ↔ Spells LoosePair cs bytes := by
  induction cs using pairs?.induct generalizing bytes with
  | case1 =>
    constructor
    · rintro ⟨⟩
      exact .nil
    · rintro ⟨⟩
      rfl
  | case2 c =>
    constructor
    · rintro ⟨⟩
    · rintro ⟨⟩
  | case3 a b cs ih =>
    rw [pairs?]
    constructor
    · intro h
      obtain ⟨byte, hbyte, h⟩ := Option.bind_eq_some_iff.mp h
      obtain ⟨rest, hrest, h⟩ := Option.bind_eq_some_iff.mp h
      rw [← Option.some.inj h]
      exact .cons (pair?_eq_some_iff.mp hbyte) (ih.mp hrest)
    · rintro (_ | ⟨hpair, hrest⟩)
      rw [pair?_eq_some_iff.mpr hpair, ih.mpr hrest]
      rfl

namespace Spells

/-- Pairs of another kind do, if those in the text are of that kind too. -/
theorem imp (h : Spells P cs bytes) (himp : ∀ a ∈ cs, ∀ b byte, P a b byte → Q a b byte) :
    Spells Q cs bytes := by
  induction h with
  | nil => exact .nil
  | cons hpair _ ih =>
    refine .cons (himp _ List.mem_cons_self _ _ hpair) (ih fun a ha => ?_)
    exact himp a (List.mem_cons_of_mem _ (List.mem_cons_of_mem _ ha))

theorem length_eq (h : Spells P cs bytes) : cs.length = 2 * bytes.length := by
  induction h with
  | nil => rfl
  | cons _ _ ih =>
    simp only [List.length_cons]
    omega

/-- What holds of the characters of a pair holds of all characters. -/
theorem forall_mem (h : Spells P cs bytes) (hD : ∀ a b byte, P a b byte → D a ∧ D b) : ∀ c ∈ cs, D c := by
  induction h with
  | nil => exact List.forall_mem_nil _
  | cons hpair _ ih =>
    obtain ⟨ha, hb⟩ := hD _ _ _ hpair
    exact List.forall_mem_cons.mpr ⟨ha, List.forall_mem_cons.mpr ⟨hb, ih⟩⟩

/-- There are only digits in what is as it should be. -/
theorem isHexDigit (h : Spells Pair cs bytes) : ∀ c ∈ cs, ∃ n, IsHexDigit n c :=
  h.forall_mem fun _ _ _ ⟨ha, hb⟩ => ⟨⟨_, ha⟩, ⟨_, hb⟩⟩

/-- There are only digits and plus signs in what is read. -/
theorem isHexDigit_or_eq_plus (h : Spells LoosePair cs bytes) :
    ∀ c ∈ cs, (∃ n, IsHexDigit n c) ∨ c = '+' := by
  refine h.forall_mem fun a b byte hpair => ?_
  rcases hpair with ⟨ha, hb⟩ | hb
  · exact ⟨Or.inl ⟨_, ha⟩, Or.inl ⟨_, hb⟩⟩
  · exact ⟨Or.inr rfl, Or.inl ⟨_, hb⟩⟩

theorem loose (h : Spells Pair cs bytes) : Spells LoosePair cs bytes := h.imp fun _ _ _ _ => .pair

/-- Without plus signs there are only pairs as they should be. -/
theorem of_loose (h : Spells LoosePair cs bytes) (hplus : '+' ∉ cs) : Spells Pair cs bytes := by
  refine h.imp fun a ha b byte hpair => ?_
  cases hpair with
  | pair hpair => exact hpair
  | plus => exact absurd ha hplus

end Spells

/-- **Digits in even number spell bytes.** -/
theorem exists_spells_iff : (∃ bytes, Spells Pair cs bytes) ↔
    cs.length % 2 = 0 ∧ ∀ c ∈ cs, ∃ n, IsHexDigit n c := by
  constructor
  · rintro ⟨bytes, h⟩
    exact ⟨by rw [h.length_eq, Nat.mul_mod_right], h.isHexDigit⟩
  · rintro ⟨heven, hdigits⟩
    induction cs using pairs?.induct with
    | case1 => exact ⟨[], .nil⟩
    | case2 c => cases heven
    | case3 a b cs ih =>
      obtain ⟨⟨high, ha⟩, hdigits⟩ := List.forall_mem_cons.mp hdigits
      obtain ⟨⟨low, hb⟩, hdigits⟩ := List.forall_mem_cons.mp hdigits
      have heven : cs.length % 2 = 0 := by
        simp only [List.length_cons] at heven
        omega
      obtain ⟨bytes, h⟩ := ih heven hdigits
      exact ⟨_, .cons (.digits ha hb) h⟩

/-- The digits of bytes. -/
def spelling (letters : LetterCase) (bytes : List UInt8) : List Char :=
  bytes.flatMap fun byte =>
    [letters.digits.getD (byte.toNat / 16) '0', letters.digits.getD (byte.toNat % 16) '0']

theorem spells_spelling (letters : LetterCase) (bytes : List UInt8) :
    Spells Pair (spelling letters bytes) bytes := by
  induction bytes with
  | nil => exact .nil
  | cons byte bytes ih =>
    have hhigh : byte.toNat / 16 < 16 := Nat.div_lt_of_lt_mul byte.toNat_lt
    have hlow : byte.toNat % 16 < 16 := Nat.mod_lt _ (by decide)
    have hbyte : UInt8.ofNat (16 * (byte.toNat / 16) + byte.toNat % 16) = byte := by
      rw [Nat.div_add_mod, UInt8.ofNat_toNat]
    have hpair : Pair (letters.digits.getD (byte.toNat / 16) '0')
        (letters.digits.getD (byte.toNat % 16) '0') byte := by
      have h := Pair.digits (isHexDigit_getD letters hhigh) (isHexDigit_getD letters hlow)
      rwa [hbyte] at h
    exact .cons hpair ih

end HexBytes

namespace Literal

open Text HexBytes

/-! ### Literals -/

section

variable [Calendar] {text : String} {h : List Char}

/-- Which bytes a literal stands for that has `0x` in front. -/
structure ReadsHex (text : String) (h : List Char) : Prop where
  /-- A plus sign may be in the place of the first digit of a pair. -/
  value : ∀ v, parse? .bytes text = some v ↔ ∃ bytes, v = .bytes bytes ∧ Spells LoosePair h bytes
  /-- Where there is none, the literal stands for what its digits spell. -/
  exact : '+' ∉ h → ∀ bytes, parse? .bytes text = some (.bytes bytes) ↔ Spells Pair h bytes
  /-- Digits in even number stand for bytes. -/
  digits : h.length % 2 = 0 → (∀ c ∈ h, ∃ n, IsHexDigit n c) →
    ∃ bytes, Spells Pair h bytes ∧ parse? .bytes text = some (.bytes bytes)
  /-- Bytes come back from their digits. -/
  back : ∀ letters bytes, h = spelling letters bytes → parse? .bytes text = some (.bytes bytes)
  /-- Characters in odd number are refused. -/
  odd : h.length % 2 = 1 → parse? .bytes text = none
  /-- So is any character that is neither a digit nor a plus sign. -/
  other : ∀ c ∈ h, (∀ n, ¬ IsHexDigit n c) → c ≠ '+' → parse? .bytes text = none

theorem parse?_bytes_of_unquote (htext : unquote (trim text.toList) = '0' :: 'x' :: h) :
    parse? .bytes text = (pairs? h).map Value.bytes := by
  simp only [parse?, htext, HexBytes.parse?]

/-- **Bytes in hexadecimal are what their digits spell**, apart from plus signs. -/
theorem readsHex_of_unquote (htext : unquote (trim text.toList) = '0' :: 'x' :: h) : ReadsHex text h := by
  have hvalue : ∀ v, parse? .bytes text = some v ↔ ∃ bytes, v = .bytes bytes ∧ Spells LoosePair h bytes := by
    intro v
    rw [parse?_bytes_of_unquote htext, Option.map_eq_some_iff]
    constructor
    · rintro ⟨bytes, hbytes, rfl⟩
      exact ⟨bytes, rfl, pairs?_eq_some_iff.mp hbytes⟩
    · rintro ⟨bytes, rfl, hbytes⟩
      exact ⟨bytes, pairs?_eq_some_iff.mpr hbytes, rfl⟩
  have hspells : ∀ bytes, Spells Pair h bytes → parse? .bytes text = some (.bytes bytes) :=
    fun bytes hbytes => (hvalue _).mpr ⟨bytes, rfl, hbytes.loose⟩
  have hnone : (∀ bytes, ¬ Spells LoosePair h bytes) → parse? .bytes text = none := by
    intro hall
    refine Option.eq_none_iff_forall_ne_some.mpr fun v hv => ?_
    obtain ⟨bytes, -, hbytes⟩ := (hvalue v).mp hv
    exact hall bytes hbytes
  refine ⟨hvalue, fun hplus bytes => ⟨fun hparse => ?_, hspells bytes⟩, fun heven hdigits => ?_,
    fun letters bytes heq => ?_, fun hodd => hnone fun bytes hbytes => ?_,
    fun c hc hdigit hplus => hnone fun bytes hbytes => ?_⟩
  · obtain ⟨_, heq, hbytes⟩ := (hvalue _).mp hparse
    cases heq
    exact hbytes.of_loose hplus
  · obtain ⟨bytes, hbytes⟩ := exists_spells_iff.mpr ⟨heven, hdigits⟩
    exact ⟨bytes, hbytes, hspells bytes hbytes⟩
  · subst heq
    exact hspells bytes (spells_spelling letters bytes)
  · have hlen := hbytes.length_eq
    omega
  · rcases hbytes.isHexDigit_or_eq_plus c hc with ⟨n, hn⟩ | hc
    · exact hdigit n hn
    · exact hplus hc

/-- **Bytes come back from their digits.** -/
theorem parse?_spelling (letters : LetterCase) (bytes : List UInt8) :
    parse? .bytes (String.ofList ('0' :: 'x' :: spelling letters bytes)) = some (.bytes bytes) := by
  have hblank : ∀ c ∈ '0' :: 'x' :: spelling letters bytes, isBlank c = false := by
    refine List.forall_mem_cons.mpr ⟨by decide, List.forall_mem_cons.mpr ⟨by decide, fun c hc => ?_⟩⟩
    obtain ⟨n, hn⟩ := (spells_spelling letters bytes).isHexDigit c hc
    exact hn.isBlank_eq_false
  have htext : unquote (trim (String.ofList ('0' :: 'x' :: spelling letters bytes)).toList) =
      '0' :: 'x' :: spelling letters bytes := by
    rw [String.toList_ofList, trim_of_forall_not_isBlank hblank]
    rfl
  rw [parse?_bytes_of_unquote htext, pairs?_eq_some_iff.mpr (spells_spelling letters bytes).loose]
  rfl

end

open scoped Builtin

/-- Bytes that stand between quotation marks and blanks, in letters of both cases. -/
theorem readsHex_of_unquote_mixed :
    unquote (trim " \"0x00fFA0\"\n".toList) = '0' :: 'x' :: "00fFA0".toList ∧
      ∃ bytes, Spells Pair "00fFA0".toList bytes ∧
        parse? .bytes " \"0x00fFA0\"\n" = some (.bytes bytes) ∧ bytes = [0, 255, 160] := by
  have htext : unquote (trim " \"0x00fFA0\"\n".toList) = '0' :: 'x' :: "00fFA0".toList := by decide
  have hspells : Spells Pair "00fFA0".toList [0, 255, 160] :=
    (pairs?_eq_some_iff.mp (by decide)).of_loose (by decide)
  exact ⟨htext, _, hspells, ((readsHex_of_unquote htext).exact (by decide) _).mpr hspells, rfl⟩

/-- **What is read is not always in digits.** -/
theorem not_spells_of_parse? : ¬ ∀ (text : String) (h : List Char) (bytes : List UInt8),
    unquote (trim text.toList) = '0' :: 'x' :: h →
      (parse? .bytes text = some (.bytes bytes) ↔ Spells Pair h bytes) := by
  intro hall
  have hspells : Spells Pair ['+', 'f'] [15] := (hall "0x+f" ['+', 'f'] [15] (by decide)).mp (by decide)
  obtain ⟨n, hn⟩ := hspells.isHexDigit '+' List.mem_cons_self
  exact not_isHexDigit_plus hn

end Literal
end Columnar
