import Columnar.Number.Leb128

/-!
# Byte sources

A source gives its bytes once, in order.  At the end it either says that it has
ended or reports a fault.

## Main definitions

* `Source.read` — a given number of bytes.
* `Source.number` — a base-128 number, byte by byte; a source that ends before its
  first byte has none to give, which is no failure.

## Main results

* `Source.number_eq_scan` — asking for a number finds the one at the front of the
  bytes that are to come.
-/

namespace Columnar

/-- The bytes that are still to come, and the fault that is reported in place of an end. -/
structure Source where
  bytes : List UInt8
  endFault : Option IoFault
deriving DecidableEq, Repr

/-- What asking for some bytes came to. -/
inductive Delivery where
  | complete (bs : List UInt8)
  | ended
  | faulty (fault : IoFault)
deriving DecidableEq, Repr

namespace Source

/-- A source that ends after the given bytes. -/
def ofBytes (bs : List UInt8) : Source := ⟨bs, none⟩

/-- The source without any more bytes. -/
def drained (s : Source) : Source := { s with bytes := [] }

/-- Ask for `n` bytes.  Bytes that come before an early end are lost. -/
def read (n : Nat) (s : Source) : Delivery × Source :=
  if n ≤ s.bytes.length then
    (.complete (s.bytes.take n), { s with bytes := s.bytes.drop n })
  else
    match s.endFault with
    | none => (.ended, s.drained)
    | some fault => (.faulty fault, s.drained)

/-- Ask for what is left of a number, byte by byte and for at most `room` of them.  The groups that have
come make up `low`, and the next one counts `unit` times. -/
def numberWithin : Nat → Nat → Nat → Source → Except Failure (Option Nat) × Source
  | 0, _, _, s => (.error (.damaged .varintTooLarge), s)
  | room + 1, unit, low, s =>
    match s.bytes with
    | [] =>
      match s.endFault with
      | some fault => (.error (.io fault), s)
      | none =>
        -- a source may end in front of the first byte only
        if room + 1 = Leb128.maxBytes then (.ok none, s) else (.error (.damaged .streamEndsInVarint), s)
    | b :: bs =>
      if b < 128 then
        (if room = 0 ∧ 1 < b then .error (.damaged .varintTooLarge) else .ok (some (low + unit * b.toNat)),
          { s with bytes := bs })
      else numberWithin room (unit * 128) (low + unit * (b.toNat - 128)) { s with bytes := bs }

/-- Ask for a number.  Nothing past its tenth byte is read. -/
def number (s : Source) : Except Failure (Option Nat) × Source := numberWithin Leb128.maxBytes 1 0 s

/-- Bytes that were read are taken off. -/
theorem append_of_complete {n : Nat} {src src' : Source} {bs : List UInt8}
    (h : src.read n = (.complete bs, src')) : bs.length = n ∧ src.bytes = bs ++ src'.bytes := by
  unfold read at h
  split at h
  · next hle =>
    cases h
    exact ⟨List.length_take_of_le hle, (List.take_append_drop n src.bytes).symm⟩
  · split at h <;> cases h

/-! ### Numbers that are asked for and numbers that are there -/

/-- Asking byte by byte comes to what a scan of the bytes finds. -/
theorem numberWithin_eq_scan {room : Nat} (hroom : room ≤ Leb128.maxBytes) (unit low : Nat) (s : Source) :
    s.numberWithin room unit low = match Leb128.scanWithin room s.bytes with
      | .number n rest => (.ok (some (low + unit * n)), { s with bytes := rest })
      | .tooLarge rest => (.error (.damaged .varintTooLarge), { s with bytes := rest })
      | .tooLong rest => (.error (.damaged .varintTooLarge), { s with bytes := rest })
      | .unfinished =>
        match s.endFault with
        | some fault => (.error (.io fault), s.drained)
        | none =>
          if s.bytes = [] ∧ room = Leb128.maxBytes then (.ok none, s)
          else (.error (.damaged .streamEndsInVarint), s.drained) := by
  induction room generalizing unit low s with
  | zero => rfl
  | succ room ih =>
    obtain ⟨bytes, fault⟩ := s
    cases bytes with
    | nil =>
      cases fault with
      | none => simp [numberWithin, Leb128.scanWithin, drained]
      | some fault => rfl
    | cons b bs =>
      by_cases hlast : b < 128
      · by_cases hlarge : room = 0 ∧ 1 < b
        · simp [numberWithin, Leb128.scanWithin, hlast, hlarge]
        · simp [numberWithin, Leb128.scanWithin, hlast, hlarge]
      · have hless : room ≠ Leb128.maxBytes := Nat.ne_of_lt hroom
        rw [numberWithin, Leb128.scanWithin, if_neg hlast]
        simp only [if_neg hlast, ih (Nat.le_of_lt hroom)]
        cases Leb128.scanWithin room bs with
        | number m rest =>
          have hsum : low + unit * (b.toNat - 128) + unit * 128 * m =
              low + unit * (b.toNat - 128 + 128 * m) := by
            rw [Nat.mul_add, Nat.mul_assoc, Nat.add_assoc]
          simp only [Leb128.Scan.withLow, hsum]
        | tooLarge rest => rfl
        | tooLong rest => rfl
        | unfinished =>
          cases fault with
          | none => simp [Leb128.Scan.withLow, drained, hless]
          | some fault => rfl

/-- A number is asked for as it is found at the front of the bytes. -/
theorem number_eq_scan (s : Source) :
    s.number = match Leb128.scan s.bytes with
      | .number n rest => (.ok (some n), { s with bytes := rest })
      | .tooLarge rest => (.error (.damaged .varintTooLarge), { s with bytes := rest })
      | .tooLong rest => (.error (.damaged .varintTooLarge), { s with bytes := rest })
      | .unfinished =>
        match s.endFault with
        | some fault => (.error (.io fault), s.drained)
        | none =>
          if s.bytes = [] then (.ok none, s) else (.error (.damaged .streamEndsInVarint), s.drained) := by
  rw [number, numberWithin_eq_scan (Nat.le_refl _), Leb128.scan]
  simp only [Nat.zero_add, Nat.one_mul, and_true]

/-- A number takes at least one byte. -/
theorem length_lt_of_number {s s' : Source} {n : Nat} (h : s.number = (.ok (some n), s')) :
    s'.bytes.length < s.bytes.length := by
  rw [number_eq_scan] at h
  split at h
  · next hs =>
    cases h
    exact Leb128.length_lt_of_scanWithin hs
  · cases h
  · cases h
  · split at h
    · cases h
    · split at h <;> cases h

end Source
end Columnar
