import Columnar.Bytes.Take

/-!
# Cursors on a buffer

A cursor reads a window of a larger buffer from the front.  It knows the whole
buffer, the position of the next byte in it and the position at which its window
ends, and it asks before each step how far away the end is.  A part of the window
can be cut off as a cursor of its own on the same buffer.

What is read may be refused midway, and the cursor then stands where the last step
that succeeded has left it.

## Main definitions

* `Span`, `Span.slice` — a place in the buffer, and the bytes there.
* `Cursor`, `Cursor.window` — buffer, position and end, and the bytes that are left.
* `Cursor.Read` — something that is read with a cursor.
* `Cursor.number`, `Cursor.byte`, `Cursor.span`, `Cursor.sub` — what moves a cursor.
* `Cursor.gather` — read members into a table.
* `Cursor.Bounded` — the window of a cursor lies in its buffer.

## Main results

* `Cursor.window_onward`, `Cursor.window_cut` — which bytes are left, and which a window
  of its own has.
* `Cursor.byte_of_cons`, `Cursor.span_of_le`, `Cursor.bytes_of_le`, `Cursor.sub_of_le` — what
  is read when enough is left.
-/

namespace Columnar

/-- A place in a buffer. -/
structure Span where
  offset : Nat
  length : Nat
deriving DecidableEq, Repr, Inhabited

namespace Span

/-- The bytes of a buffer at a place. -/
def slice (p : Span) (buffer : List UInt8) : List UInt8 := (buffer.drop p.offset).take p.length

/-- The place does not reach beyond the end of a buffer. -/
def Within (p : Span) (buffer : List UInt8) : Prop := p.offset + p.length ≤ buffer.length

instance (p : Span) (buffer : List UInt8) : Decidable (p.Within buffer) :=
  inferInstanceAs (Decidable (_ ≤ _))

end Span

/-- A reader that moves through a window of a buffer. -/
structure Cursor where
  buffer : List UInt8
  /-- Where the next byte is. -/
  position : Nat
  /-- Where the window ends. -/
  stop : Nat
deriving DecidableEq, Repr

namespace Cursor

/-- A cursor over a whole buffer. -/
def ofBytes (bs : List UInt8) : Cursor := ⟨bs, 0, bs.length⟩

/-- How many bytes are left. -/
def left (c : Cursor) : Nat := c.stop - c.position

def isEmpty (c : Cursor) : Bool := c.position == c.stop

/-- The place of the bytes that are left. -/
def ahead (c : Cursor) : Span := ⟨c.position, c.left⟩

/-- The bytes that are left. -/
def window (c : Cursor) : List UInt8 := c.ahead.slice c.buffer

/-- The cursor some bytes further on. -/
def onward (c : Cursor) (n : Nat) : Cursor := { c with position := c.position + n }

/-- Something that is read with a cursor.  The cursor is moved also where the reading fails midway. -/
abbrev Read (α : Type) : Type := EStateM Failure Cursor α

/-- The next byte.  Before the end of a window that lies in the buffer there is one (`byte_of_cons`). -/
def byte : Read UInt8 := fun c =>
  if c.stop ≤ c.position then .error (.damaged .pageEnds) c
  else .ok (c.buffer.getD c.position 0) (c.onward 1)

/-- An unsigned number. -/
def number : Read Nat := fun c =>
  match Leb128.decode c.window with
  | .error e => .error e c
  | .ok (n, rest) => .ok n (c.onward (c.window.length - rest.length))

/-- A signed number. -/
def signed : Read Int64 := do
  let n ← number
  return ZigZag.decode n

/-- The place of the next `n` bytes. -/
def span (n : Nat) : Read Span := fun c =>
  if c.left < n then .error (.damaged .pageEnds) c else .ok ⟨c.position, n⟩ (c.onward n)

/-- The bytes at a place of the buffer. -/
def bytesAt (place : Span) : Read (List UInt8) := do
  return place.slice (← get).buffer

/-- The next `n` bytes. -/
def bytes (n : Nat) : Read (List UInt8) := do
  let place ← span n
  bytesAt place

/-- A little-endian 64-bit word. -/
def word : Read UInt64 := do
  let bs ← bytes 8
  return Word.ofBytes bs

/-- A window of its own for the next `n` bytes. -/
def sub (n : Nat) : Read Cursor := do
  let place ← span n
  return ⟨(← get).buffer, place.offset, place.offset + place.length⟩

/-- There are `n` bytes left. -/
def holds (n : Nat) : Read Unit := do
  let c ← get
  if c.left < n then throw (.damaged (.lengthTooLarge n c.left))

/-- A length prefix.  A length that is refused has been read all the same. -/
def length : Read Nat := do
  let n ← number
  holds n
  return n

/-- What is left can hold `count` things of at least `width` bytes.  The product of both is cut off at
the greatest 64-bit number. -/
def fits (count width : Nat) : Read Unit := do
  let c ← get
  if c.left < min (count * width) (2 ^ 64 - 1) then throw (.damaged (.countTooLarge count c.left))

/-- A count of things of at least `width` bytes. -/
def count (width : Nat) : Read Nat := do
  let n ← number
  fits n width
  return n

/-- A count with a flag, of things that are a byte long at least. -/
def flagged : Read (Nat × Bool) := do
  let head ← number
  fits (head / 2) 1
  return (head / 2, head % 2 = 1)

/-- The place of the bytes behind a length prefix. -/
def prefixed : Read Span := do
  let n ← length
  span n

/-- Read `n` members, each behind those that are there and knowing them.  After a failure the members
before it are there. -/
def gather {α : Type} (one : Array α → Read α) : Nat → Array α → Cursor → Except Failure Cursor × Array α
  | 0, got, c => (.ok c, got)
  | n + 1, got, c =>
    match one got c with
    | .error e _ => (.error e, got)
    | .ok a c => gather one n (got.push a) c

/-- Read a number of members that is given by some head, and the members. -/
def gatherBehind {α η : Type} (head : Read η) (size : η → Nat) (one : η → Array α → Read α)
    (got : Array α) (c : Cursor) : Except Failure Cursor × Array α :=
  match head c with
  | .error e _ => (.error e, got)
  | .ok h c => gather (one h) (size h) got c

/-! ### The bytes of a window -/

/-- A cursor does not see beyond its buffer. -/
structure Bounded (c : Cursor) : Prop where
  position : c.position ≤ c.stop
  stop : c.stop ≤ c.buffer.length

variable {c : Cursor} {n : Nat}

theorem bounded_ofBytes (bs : List UInt8) : (ofBytes bs).Bounded := ⟨Nat.zero_le _, Nat.le_refl _⟩

@[simp] theorem window_ofBytes (bs : List UInt8) : (ofBytes bs).window = bs := by
  simp [window, ahead, left, ofBytes, Span.slice]

theorem Bounded.length_window (h : c.Bounded) : c.window.length = c.left := by
  have hposition := h.position
  have hstop := h.stop
  simp only [window, ahead, left, Span.slice, List.length_take, List.length_drop]
  omega

theorem Bounded.isEmpty_eq (h : c.Bounded) : c.isEmpty = c.window.isEmpty := by
  have hposition := h.position
  have hlength := h.length_window
  rw [Bool.eq_iff_iff, isEmpty, beq_iff_eq, List.isEmpty_iff_length_eq_zero, hlength, left]
  omega

@[simp] theorem window_onward (c : Cursor) (n : Nat) : (c.onward n).window = c.window.drop n := by
  simp only [window, ahead, left, onward, Span.slice, List.drop_take, List.drop_drop, Nat.sub_add_eq]

theorem Bounded.onward (h : c.Bounded) (hn : n ≤ c.left) : (c.onward n).Bounded where
  position := by
    have hposition := h.position
    have hn : n ≤ c.stop - c.position := hn
    show c.position + n ≤ c.stop
    omega
  stop := h.stop

/-- The bytes at the place of the next `n` ones are the first of the window. -/
theorem slice_front (h : n ≤ c.left) : (⟨c.position, n⟩ : Span).slice c.buffer = c.window.take n := by
  simp only [window, ahead, Span.slice, List.take_take, Nat.min_eq_left h]

/-- A cursor on the next `n` bytes only. -/
def cut (c : Cursor) (n : Nat) : Cursor := { c with stop := c.position + n }

theorem left_cut (c : Cursor) (n : Nat) : (c.cut n).left = n := Nat.add_sub_cancel_left c.position n

theorem window_cut (h : n ≤ c.left) : (c.cut n).window = c.window.take n := by
  rw [← slice_front h, window, ahead, left_cut]
  rfl

theorem Bounded.cut (h : c.Bounded) (hn : n ≤ c.left) : (c.cut n).Bounded where
  position := Nat.le_add_right _ _
  stop := by
    have hposition := h.position
    have hstop := h.stop
    have hn : n ≤ c.stop - c.position := hn
    show c.position + n ≤ c.buffer.length
    omega

/-! ### What the readers come to -/

section Results

variable {α β : Type} {p : Read α} {more : α → Read β} {a : α} {c' : Cursor} {e : Failure}

theorem bind_of_ok (h : p c = .ok a c') : (p >>= more) c = more a c' := by
  show EStateM.bind p more c = _
  rw [EStateM.bind, h]

theorem bind_of_error (h : p c = .error e c') : (p >>= more) c = .error e c' := by
  show EStateM.bind p more c = _
  rw [EStateM.bind, h]

end Results

theorem byte_of_nil (h : c.Bounded) (hw : c.window = []) : byte c = .error (.damaged .pageEnds) c := by
  have hlength := h.length_window
  rw [hw] at hlength
  exact if_pos (Nat.sub_eq_zero_iff_le.mp hlength.symm)

theorem byte_of_cons {b : UInt8} {rest : List UInt8} (h : c.Bounded) (hw : c.window = b :: rest) :
    byte c = .ok b (c.onward 1) := by
  have hlength := h.length_window
  rw [hw] at hlength
  have hmore : ¬ c.stop ≤ c.position := by
    have hleft : rest.length + 1 = c.stop - c.position := hlength
    omega
  -- the first byte of the window is the one at the position
  have hget : c.buffer.getD c.position 0 = b := by
    have hfirst := congrArg (fun bs => bs[0]?) hw
    simp only [window, ahead, Span.slice, ← hlength, List.length_cons, List.getElem?_take_of_lt,
      Nat.zero_lt_succ, List.getElem?_drop, Nat.add_zero, List.getElem?_cons_zero] at hfirst
    rw [List.getD_eq_getElem?_getD, hfirst, Option.getD_some]
  rw [byte, if_neg hmore, hget]

theorem span_of_le (h : n ≤ c.left) : span n c = .ok ⟨c.position, n⟩ (c.onward n) :=
  if_neg (Nat.not_lt.mpr h)

theorem span_of_lt (h : c.left < n) : span n c = .error (.damaged .pageEnds) c := if_pos h

theorem bytes_of_le (h : n ≤ c.left) : bytes n c = .ok (c.window.take n) (c.onward n) := by
  rw [bytes, bind_of_ok (span_of_le h), ← slice_front h]
  rfl

theorem bytes_of_lt (h : c.left < n) : bytes n c = .error (.damaged .pageEnds) c :=
  bind_of_error (span_of_lt h)

theorem sub_of_le (h : n ≤ c.left) : sub n c = .ok (c.cut n) (c.onward n) :=
  bind_of_ok (span_of_le h)

theorem sub_of_lt (h : c.left < n) : sub n c = .error (.damaged .pageEnds) c :=
  bind_of_error (span_of_lt h)

theorem holds_of_le (h : n ≤ c.left) : holds n c = .ok () c := by
  show (if c.left < n then throw _ else pure () : Read Unit) c = _
  rw [if_neg (Nat.not_lt.mpr h)]
  rfl

theorem holds_of_lt (h : c.left < n) : holds n c = .error (.damaged (.lengthTooLarge n c.left)) c := by
  show (if c.left < n then throw _ else pure () : Read Unit) c = _
  rw [if_pos h]
  rfl

theorem fits_of_le {count width : Nat} (h : min (count * width) (2 ^ 64 - 1) ≤ c.left) :
    fits count width c = .ok () c := by
  show (if c.left < _ then throw _ else pure () : Read Unit) c = _
  rw [if_neg (Nat.not_lt.mpr h)]
  rfl

theorem fits_of_lt {count width : Nat} (h : c.left < min (count * width) (2 ^ 64 - 1)) :
    fits count width c = .error (.damaged (.countTooLarge count c.left)) c := by
  show (if c.left < _ then throw _ else pure () : Read Unit) c = _
  rw [if_pos h]
  rfl

end Cursor
end Columnar
