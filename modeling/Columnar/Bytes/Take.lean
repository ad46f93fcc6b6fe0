import Columnar.Bytes.Word
import Columnar.Number.Leb128
import Columnar.Number.ZigZag

/-!
# Taking things off the front of some bytes

The parts of a page are read from the front of its bytes.  Each function gives
what it took together with the bytes that are left, or a failure.

## Main definitions

* `Take.byte`, `Take.bytes`, `Take.word` — fixed sizes.
* `Take.number`, `Take.signed` — base-128 numbers.
* `Take.length`, `Take.fits` — a length or count is refused when the bytes that
  are left cannot hold what it promises.

## Main results

* `Take.number_encode`, `Take.signed_encode`, `Take.word_toBytes`,
  `Take.prefixed_encode` — what was written is taken off again, whatever follows.
* `Take.times_flatMap` — so is a whole list, if each of its members is.
-/

namespace Columnar
namespace Take

/-- The first `n` bytes. -/
def bytes (n : Nat) (bs : List UInt8) : Except Failure (List UInt8 × List UInt8) :=
  if n ≤ bs.length then .ok (bs.take n, bs.drop n) else .error (.damaged .pageEnds)

def byte : List UInt8 → Except Failure (UInt8 × List UInt8)
  | [] => .error (.damaged .pageEnds)
  | b :: bs => .ok (b, bs)

/-- A little-endian 64-bit word. -/
def word (bs : List UInt8) : Except Failure (UInt64 × List UInt8) := do
  let (w, rest) ← bytes 8 bs
  return (Word.ofBytes w, rest)

/-- An unsigned number. -/
def number (bs : List UInt8) : Except Failure (Nat × List UInt8) := Leb128.decode bs

/-- A signed number. -/
def signed (bs : List UInt8) : Except Failure (Int64 × List UInt8) := do
  let (n, rest) ← number bs
  return (ZigZag.decode n, rest)

/-- What is left can hold `count` things of at least `width` bytes.  The product of both is cut off at
the greatest 64-bit number. -/
def fits (count width : Nat) (bs : List UInt8) : Except Failure Unit :=
  if min (count * width) (2 ^ 64 - 1) ≤ bs.length then .ok ()
  else .error (.damaged (.countTooLarge count bs.length))

/-- A length prefix. -/
def length (bs : List UInt8) : Except Failure (Nat × List UInt8) := do
  let (n, rest) ← number bs
  if n ≤ rest.length then return (n, rest)
  throw (.damaged (.lengthTooLarge n rest.length))

/-- Bytes behind their length. -/
def prefixed (bs : List UInt8) : Except Failure (List UInt8 × List UInt8) := do
  let (n, rest) ← length bs
  bytes n rest

/-- A count of things of at least `width` bytes. -/
def count (width : Nat) (bs : List UInt8) : Except Failure (Nat × List UInt8) := do
  let (n, rest) ← number bs
  fits n width rest
  return (n, rest)

/-- The same thing `n` times. -/
def times {α : Type} (one : List UInt8 → Except Failure (α × List UInt8)) :
    Nat → List UInt8 → Except Failure (List α × List UInt8)
  | 0, bs => .ok ([], bs)
  | n + 1, bs => do
    let (a, rest) ← one bs
    let (as, rest) ← times one n rest
    return (a :: as, rest)

/-! ### Taking what was written -/

@[simp] theorem bytes_append (as bs : List UInt8) : bytes as.length (as ++ bs) = .ok (as, bs) := by
  rw [bytes, if_pos (by simp)]
  simp

@[simp] theorem byte_cons (b : UInt8) (bs : List UInt8) : byte (b :: bs) = .ok (b, bs) := rfl

theorem number_encode {n : Nat} (h : n < 2 ^ 64) (rest : List UInt8) :
    number (Leb128.encode n ++ rest) = .ok (n, rest) := Leb128.decode_encode h rest

@[simp] theorem signed_encode (v : Int64) (rest : List UInt8) :
    signed (Leb128.encode (ZigZag.encode v) ++ rest) = .ok (v, rest) := by
  rw [signed, number_encode (ZigZag.encode_lt v)]
  show Except.ok (ZigZag.decode (ZigZag.encode v), rest) = _
  rw [ZigZag.decode_encode]

@[simp] theorem word_toBytes (w : UInt64) (rest : List UInt8) :
    word (Word.toBytes w ++ rest) = .ok (w, rest) := by
  have h : bytes 8 (Word.toBytes w ++ rest) = .ok (Word.toBytes w, rest) := by
    rw [← Word.length_toBytes w]; exact bytes_append _ _
  rw [word, h]
  show Except.ok (Word.ofBytes (Word.toBytes w), rest) = _
  rw [Word.ofBytes_toBytes]

theorem fits_of_le {count width : Nat} {bs : List UInt8} (h : count * width ≤ bs.length) :
    fits count width bs = .ok () := if_pos (Nat.le_trans (Nat.min_le_left _ _) h)

/-- Bytes behind their length are taken, however the length is spelled. -/
theorem prefixed_of_number {text bs rest : List UInt8} (h : number text = .ok (bs.length, bs ++ rest)) :
    prefixed text = .ok (bs, rest) := by
  have hl : length text = .ok (bs.length, bs ++ rest) := by
    rw [length, h]
    show (if bs.length ≤ (bs ++ rest).length then _ else _) = _
    rw [if_pos (by simp)]
    rfl
  rw [prefixed, hl]
  exact bytes_append bs rest

theorem prefixed_encode {bs : List UInt8} (h : bs.length < 2 ^ 64) (rest : List UInt8) :
    prefixed (Leb128.encode bs.length ++ (bs ++ rest)) = .ok (bs, rest) :=
  prefixed_of_number (number_encode h _)

theorem count_encode {n width : Nat} {rest : List UInt8} (h : n < 2 ^ 64)
    (hw : n * width ≤ rest.length) : count width (Leb128.encode n ++ rest) = .ok (n, rest) := by
  rw [count, number_encode h]
  show (fits n width rest >>= fun _ => _) = _
  rw [fits_of_le hw]
  rfl

theorem length_le_length_flatMap {α : Type} {encode : α → List UInt8} (as : List α)
    (h : ∀ a, 1 ≤ (encode a).length) : as.length ≤ (as.flatMap encode).length := by
  induction as with
  | nil => exact Nat.le_refl 0
  | cons a as ih =>
    have ha := h a
    rw [List.flatMap_cons, List.length_append, List.length_cons]
    omega

/-- Things of at least a byte each fit where they stand. -/
theorem fits_flatMap {α : Type} {encode : α → List UInt8} (h : ∀ a, 1 ≤ (encode a).length)
    (as : List α) (rest : List UInt8) :
    fits as.length 1 (as.flatMap encode ++ rest) = .ok () := by
  have hlen := length_le_length_flatMap as h
  apply fits_of_le
  rw [List.length_append]
  omega

/-- Things that are read back one by one are read back all. -/
theorem times_flatMap {α : Type} {one : List UInt8 → Except Failure (α × List UInt8)}
    {encode : α → List UInt8} {as : List α}
    (h : ∀ a ∈ as, ∀ rest, one (encode a ++ rest) = .ok (a, rest)) (rest : List UInt8) :
    times one as.length (as.flatMap encode ++ rest) = .ok (as, rest) := by
  induction as with
  | nil => rfl
  | cons a as ih =>
    have ha := h a List.mem_cons_self (as.flatMap encode ++ rest)
    have has := ih fun b hb => h b (List.mem_cons_of_mem a hb)
    rw [List.flatMap_cons, List.append_assoc, List.length_cons, times, ha]
    show (times one as.length (as.flatMap encode ++ rest) >>= _) = _
    rw [has]
    rfl

end Take
end Columnar
