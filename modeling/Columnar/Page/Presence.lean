import Columnar.Number.Power

/-!
# Presence bits

A page says for every cell whether a value was set.  The bits of a field are
packed eight to a byte, the first row in the lowest bit.  Unused bits of the last
byte are zero, so a bit is pushed by setting it, and cutting the bits short has to
clear what it leaves of the last byte.

## Main definitions

* `Presence` — the bits of one field, in row order.
* `Presence.push`, `Presence.truncate` — growing and cutting them.
* `Presence.byteLength`, `Presence.claimedLength` — the size of the bits of some rows, and
  of as many rows as a page claims.
* `Presence.isSet` — one bit of packed bytes.
* `Presence.pack` — a list of bits as packed bytes.
-/

namespace Columnar

/-- The presence bits of a field, one per row, packed. -/
structure Presence where
  bytes : Array UInt8
  /-- The number of rows. -/
  length : Nat
deriving DecidableEq, Repr, Inhabited

namespace Presence

/-- No rows. -/
def empty : Presence := ⟨#[], 0⟩

/-- How many bytes the bits of some rows take. -/
def byteLength (rows : Nat) : Nat := (rows + 7) / 8

/-- How many bytes are taken for the bits of as many rows as a page claims to have.  The claim may be
any number of 64 bits, and the sum wraps around. -/
def claimedLength (rows : Nat) : Nat := (rows + 7) % 2 ^ 64 / 8

theorem claimedLength_eq {rows : Nat} (h : rows + 7 < 2 ^ 64) : claimedLength rows = byteLength rows := by
  rw [claimedLength, Nat.mod_eq_of_lt h, byteLength]

/-- One bit of packed bytes; past their end no bit is set. -/
def isSet (bs : List UInt8) (row : Nat) : Bool :=
  match bs[row / 8]? with
  | some b => b.toNat.testBit (row % 8)
  | none => false

/-- The byte with a bit set. -/
def setBit (i : Nat) (b : UInt8) : UInt8 := b ||| UInt8.ofNat (2 ^ i)

/-- The byte with its low bits only. -/
def lowBits (n : Nat) (b : UInt8) : UInt8 := b &&& UInt8.ofNat (2 ^ n - 1)

/-- One more row.  The first of eight rows starts a new byte. -/
def push (p : Presence) (present : Bool) : Presence :=
  let bytes := if p.length % 8 = 0 then p.bytes.push 0 else p.bytes
  ⟨if present then bytes.modify (bytes.size - 1) (setBit (p.length % 8)) else bytes, p.length + 1⟩

/-- Only the first `n` rows. -/
def truncate (p : Presence) (n : Nat) : Presence :=
  if p.length ≤ n then p else
    let bytes := p.bytes.take (byteLength n)
    ⟨if n % 8 = 0 then bytes else bytes.modify (bytes.size - 1) (lowBits (n % 8)), n⟩

/-- The packed bits of a field. -/
def toBytes (p : Presence) : List UInt8 := p.bytes.toList

/-- A row past the last one is not present. -/
def get (p : Presence) (row : Nat) : Bool := decide (row < p.length) && isSet p.toBytes row

/-- The bits of all rows. -/
def toList (p : Presence) : List Bool := (List.range p.length).map (isSet p.toBytes)

/-! ### Packing a list -/

/-- The number whose binary digits are the bits, the first one lowest. -/
def ofBits : List Bool → Nat
  | [] => 0
  | b :: bs => b.toNat + 2 * ofBits bs

/-- Eight bits to a byte, the first one lowest. -/
def pack : List Bool → List UInt8
  | [] => []
  | b :: bs => UInt8.ofNat (ofBits ((b :: bs).take 8)) :: pack ((b :: bs).drop 8)
termination_by bs => bs.length
decreasing_by simp only [List.length_drop, List.length_cons]; omega

end Presence
end Columnar
