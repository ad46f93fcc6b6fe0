import Columnar.Bytes.Take
import Columnar.Number.Binary64

/-!
# Columns of numbers

Unsigned numbers in ascending order, and signed numbers in any order, are stored
as the steps from each to the next, the first step being taken from zero.  The
lowest bit of the leading number says whether steps are stored, the rest of it is
the count.  Booleans take a byte each, floating-point values eight.

## Main definitions

* `UintColumn`, `IntColumn`, `BoolColumn`, `FloatColumn` — `encode` and `decode`
  for each of the four storages.

## Main results

* `UintColumn.decode_encode`, `IntColumn.decode_encode`,
  `BoolColumn.decode_encode`, `FloatColumn.decode_encode` — a column is read
  back, whatever comes after it.
-/

namespace Columnar

/-- A count and a flag as one number. -/
def flaggedCount (count : Nat) (flag : Bool) : List UInt8 := Leb128.encode (2 * count + flag.toNat)

namespace UintColumn

/-- No number is less than the one before it. -/
def isAscending : List UInt64 → Bool
  | [] => true
  | [_] => true
  | a :: b :: rest => a ≤ b && isAscending (b :: rest)

/-- The steps from each number to the next. -/
def steps (before : UInt64) : List UInt64 → List UInt64
  | [] => []
  | v :: vs => (v - before) :: steps v vs

def encodeEach (vs : List UInt64) : List UInt8 := vs.flatMap fun v => Leb128.encode v.toNat

def encode (vs : List UInt64) : List UInt8 :=
  let stepwise := !vs.isEmpty && isAscending vs
  flaggedCount vs.length stepwise ++ encodeEach (if stepwise then steps 0 vs else vs)

def takeOne (bs : List UInt8) : Except Failure (UInt64 × List UInt8) := do
  let (n, rest) ← Take.number bs
  return (UInt64.ofNat n, rest)

/-- Numbers from their steps. -/
def takeSums (before : Nat) : Nat → List UInt8 → Except Failure (List UInt64 × List UInt8)
  | 0, bs => .ok ([], bs)
  | count + 1, bs => do
    let (step, rest) ← Take.number bs
    if before + step < 2 ^ 64 then
      let (vs, rest) ← takeSums (before + step) count rest
      return (UInt64.ofNat (before + step) :: vs, rest)
    else throw (.damaged .deltaTooLarge)

def decode (bs : List UInt8) : Except Failure (List UInt64 × List UInt8) := do
  let (head, rest) ← Take.number bs
  Take.fits (head / 2) 1 rest
  if head % 2 = 1 then takeSums 0 (head / 2) rest else Take.times takeOne (head / 2) rest

@[simp] theorem length_steps (before : UInt64) (vs : List UInt64) :
    (steps before vs).length = vs.length := by
  induction vs generalizing before with
  | nil => rfl
  | cons v vs ih => simp [steps, ih]

theorem takeOne_encode (v : UInt64) (rest : List UInt8) :
    takeOne (Leb128.encode v.toNat ++ rest) = .ok (v, rest) := by
  rw [takeOne, Take.number_encode v.toNat_lt]
  show Except.ok (UInt64.ofNat v.toNat, rest) = _
  rw [UInt64.ofNat_toNat]

theorem isAscending_cons {a b : UInt64} {vs : List UInt64} (h : isAscending (a :: b :: vs) = true) :
    a ≤ b ∧ isAscending (b :: vs) = true := by
  simpa [isAscending] using h

/-- The steps of an ascending list are summed up to the list again. -/
theorem takeSums_steps {before : UInt64} {vs : List UInt64}
    (h : isAscending (before :: vs) = true) (rest : List UInt8) :
    takeSums before.toNat vs.length (encodeEach (steps before vs) ++ rest) = .ok (vs, rest) := by
  induction vs generalizing before with
  | nil => rfl
  | cons v vs ih =>
    obtain ⟨hle, hvs⟩ := isAscending_cons h
    have hstep : (v - before).toNat = v.toNat - before.toNat := UInt64.toNat_sub_of_le _ _ hle
    -- the list ascends, so no step wraps around
    have hsum : before.toNat + (v - before).toNat = v.toNat := by
      have hle' := UInt64.le_iff_toNat_le.mp hle
      omega
    rw [steps, encodeEach, List.flatMap_cons, List.append_assoc, List.length_cons, takeSums,
      Take.number_encode (v - before).toNat_lt]
    show (if before.toNat + (v - before).toNat < 2 ^ 64 then _ else _) = _
    rw [if_pos (by rw [hsum]; exact v.toNat_lt), hsum]
    have hrec := ih hvs
    rw [encodeEach] at hrec
    rw [hrec]
    show Except.ok (UInt64.ofNat v.toNat :: vs, rest) = _
    rw [UInt64.ofNat_toNat]

theorem isAscending_zero_cons {vs : List UInt64} (h : isAscending vs = true) :
    isAscending (0 :: vs) = true := by
  cases vs with
  | nil => rfl
  | cons v vs =>
    have h0 : (0 : UInt64) ≤ v := UInt64.le_iff_toNat_le.mpr (Nat.zero_le _)
    simp [isAscending, h, h0]

/-- Unsigned numbers are read back, whatever comes after them. -/
theorem decode_encode {vs : List UInt64} (h : vs.length < 2 ^ 63) (rest : List UInt8) :
    decode (encode vs ++ rest) = .ok (vs, rest) := by
  unfold encode
  -- whether steps are stored is a bit of the leading number, and only its value matters there
  generalize hs : (!vs.isEmpty && isAscending vs) = stepwise
  have hb : stepwise.toNat < 2 := by cases stepwise <;> decide
  have hhead : 2 * vs.length + stepwise.toNat < 2 ^ 64 := by omega
  have hhalf : (2 * vs.length + stepwise.toNat) / 2 = vs.length := by omega
  have hlow : (2 * vs.length + stepwise.toNat) % 2 = stepwise.toNat := by omega
  simp only [flaggedCount, List.append_assoc]
  rw [decode, Take.number_encode hhead]
  show (Take.fits _ 1 _ >>= fun _ => _) = _
  rw [hhalf, hlow]
  cases stepwise with
  | true =>
    have hasc : isAscending vs = true := (Bool.and_eq_true_iff.mp hs).2
    have hfits := Take.fits_flatMap (fun v : UInt64 => Leb128.one_le_length_encode v.toNat) (steps 0 vs) rest
    rw [length_steps] at hfits
    show (Take.fits vs.length 1 ((steps 0 vs).flatMap _ ++ rest) >>= fun _ => _) = _
    rw [hfits]
    exact takeSums_steps (isAscending_zero_cons hasc) rest
  | false =>
    show (Take.fits vs.length 1 (vs.flatMap _ ++ rest) >>= fun _ => _) = _
    rw [Take.fits_flatMap fun v : UInt64 => Leb128.one_le_length_encode v.toNat]
    exact Take.times_flatMap (fun v _ => takeOne_encode v) rest

end UintColumn

namespace IntColumn

/-- The steps from each number to the next, around the ends of the range if need be. -/
def steps (before : Int64) : List Int64 → List Int64
  | [] => []
  | v :: vs => (v - before) :: steps v vs

/-- The numbers with the given steps between them. -/
def sums (before : Int64) : List Int64 → List Int64
  | [] => []
  | d :: ds => (before + d) :: sums (before + d) ds

theorem sums_steps (before : Int64) (vs : List Int64) : sums before (steps before vs) = vs := by
  induction vs generalizing before with
  | nil => rfl
  | cons v vs ih =>
    have h : before + (v - before) = v := by rw [Int64.add_comm, Int64.sub_add_cancel]
    simp only [steps, sums, h, ih]

def encodeEach (vs : List Int64) : List UInt8 := vs.flatMap fun v => Leb128.encode (ZigZag.encode v)

/-- Two or more numbers are stored as steps. -/
def encode (vs : List Int64) : List UInt8 :=
  let stepwise := decide (1 < vs.length)
  flaggedCount vs.length stepwise ++ encodeEach (if stepwise then steps 0 vs else vs)

def decode (bs : List UInt8) : Except Failure (List Int64 × List UInt8) := do
  let (head, rest) ← Take.number bs
  Take.fits (head / 2) 1 rest
  let (vs, rest) ← Take.times Take.signed (head / 2) rest
  return (if head % 2 = 1 then sums 0 vs else vs, rest)

@[simp] theorem length_steps (before : Int64) (vs : List Int64) :
    (steps before vs).length = vs.length := by
  induction vs generalizing before with
  | nil => rfl
  | cons v vs ih => simp [steps, ih]

/-- Signed numbers are read back, whatever comes after them. -/
theorem decode_encode {vs : List Int64} (h : vs.length < 2 ^ 63) (rest : List UInt8) :
    decode (encode vs ++ rest) = .ok (vs, rest) := by
  unfold encode
  generalize decide (1 < vs.length) = stepwise
  have hb : stepwise.toNat < 2 := by cases stepwise <;> decide
  have hhead : 2 * vs.length + stepwise.toNat < 2 ^ 64 := by omega
  have hhalf : (2 * vs.length + stepwise.toNat) / 2 = vs.length := by omega
  have hlow : (2 * vs.length + stepwise.toNat) % 2 = stepwise.toNat := by omega
  have key : ∀ ws : List Int64, ws.length = vs.length →
      decode (Leb128.encode (2 * vs.length + stepwise.toNat) ++ (encodeEach ws ++ rest)) =
        .ok (if stepwise.toNat = 1 then sums 0 ws else ws, rest) := by
    intro ws hws
    rw [decode, Take.number_encode hhead]
    show (Take.fits _ 1 _ >>= fun _ => _) = _
    rw [hhalf, hlow, ← hws]
    show (Take.fits ws.length 1 (ws.flatMap _ ++ rest) >>= fun _ => _) = _
    rw [Take.fits_flatMap fun v : Int64 => Leb128.one_le_length_encode (ZigZag.encode v)]
    show (Take.times Take.signed ws.length (ws.flatMap _ ++ rest) >>= fun _ => _) = _
    rw [Take.times_flatMap (fun v _ => Take.signed_encode v) rest]
    rfl
  simp only [flaggedCount, List.append_assoc]
  cases stepwise with
  | true =>
    show decode (_ ++ (encodeEach (steps 0 vs) ++ rest)) = _
    rw [key _ (length_steps 0 vs)]
    show Except.ok (sums 0 (steps 0 vs), rest) = _
    rw [sums_steps]
  | false => exact key vs rfl

end IntColumn

namespace BoolColumn

def encode (vs : List Bool) : List UInt8 :=
  Leb128.encode vs.length ++ vs.map fun b => if b then 1 else 0

def takeOne (bs : List UInt8) : Except Failure (Bool × List UInt8) := do
  let (b, rest) ← Take.byte bs
  if b = 0 then return (false, rest)
  if b = 1 then return (true, rest)
  throw (.damaged (.boolByte b))

def decode (bs : List UInt8) : Except Failure (List Bool × List UInt8) := do
  let (count, rest) ← Take.count 1 bs
  Take.times takeOne count rest

theorem takeOne_encode (b : Bool) (rest : List UInt8) :
    takeOne ((if b then 1 else 0) :: rest) = .ok (b, rest) := by cases b <;> rfl

theorem decode_encode {vs : List Bool} (h : vs.length < 2 ^ 64) (rest : List UInt8) :
    decode (encode vs ++ rest) = .ok (vs, rest) := by
  have hmap : vs.map (fun b => if b then (1 : UInt8) else 0) =
      vs.flatMap fun b => [if b then 1 else 0] := List.map_eq_flatMap
  have hlen : vs.length * 1 ≤ (vs.map (fun b => if b then (1 : UInt8) else 0) ++ rest).length := by
    rw [List.length_append, List.length_map]
    omega
  rw [encode, List.append_assoc, decode, Take.count_encode h hlen, hmap]
  exact Take.times_flatMap (fun b _ => takeOne_encode b) rest

end BoolColumn

namespace FloatColumn

def encode (vs : List Binary64) : List UInt8 :=
  Leb128.encode vs.length ++ vs.flatMap fun x => Word.toBytes x.bits

def takeOne (bs : List UInt8) : Except Failure (Binary64 × List UInt8) := do
  let (w, rest) ← Take.word bs
  return (⟨w⟩, rest)

def decode (bs : List UInt8) : Except Failure (List Binary64 × List UInt8) := do
  let (count, rest) ← Take.count 8 bs
  Take.times takeOne count rest

theorem takeOne_encode (x : Binary64) (rest : List UInt8) :
    takeOne (Word.toBytes x.bits ++ rest) = .ok (x, rest) := by
  rw [takeOne, Take.word_toBytes]
  rfl

theorem decode_encode {vs : List Binary64} (h : vs.length < 2 ^ 64) (rest : List UInt8) :
    decode (encode vs ++ rest) = .ok (vs, rest) := by
  have hlen : (vs.flatMap fun x => Word.toBytes x.bits).length = vs.length * 8 := by
    induction vs with
    | nil => rfl
    | cons x vs ih =>
      rw [List.flatMap_cons, List.length_append, Word.length_toBytes, ih (Nat.lt_of_succ_lt h), List.length_cons]
      omega
  rw [encode, List.append_assoc, decode, Take.count_encode h (by rw [List.length_append, hlen]; omega)]
  exact Take.times_flatMap (fun x _ => takeOne_encode x) rest

end FloatColumn
end Columnar
