import Columnar.Failure

/-!
# Byte sinks

A sink takes bytes in order.  It takes all of what it is offered, or a part and
reports a fault.

## Main definitions

* `ByteSink` — what a sink can do.
* `Memory` — a sink that takes everything.
* `FaultyMemory` — a sink whose faults can be switched on and off.
-/

namespace Columnar

/-- Sinks of type `σ`: the state after a call, and the fault it reported. -/
class ByteSink (σ : Type) where
  write : σ → List UInt8 → σ × Option IoFault
  flush : σ → σ × Option IoFault

/-- A sink that keeps everything it is offered. -/
structure Memory where
  written : List UInt8
deriving DecidableEq, Repr, Inhabited

namespace Memory

def empty : Memory := ⟨[]⟩

instance : ByteSink Memory where
  write m bs := (⟨m.written ++ bs⟩, none)
  flush m := (m, none)

@[simp] theorem write_eq (m : Memory) (bs : List UInt8) :
    ByteSink.write m bs = (⟨m.written ++ bs⟩, none) := rfl

@[simp] theorem flush_eq (m : Memory) : ByteSink.flush m = (m, none) := rfl

end Memory

/-- A sink in memory with faults. -/
structure FaultyMemory where
  written : List UInt8
  /-- How many calls of flush succeeded. -/
  flushes : Nat
  /-- Every write is refused. -/
  unavailable : Bool
  /-- Every flush is refused. -/
  flushFails : Bool
  /-- How many more bytes are taken, if there is a limit. -/
  room : Option Nat
  /-- A sink without room takes no byte and says nothing. -/
  silent : Bool
deriving DecidableEq, Repr

namespace FaultyMemory

/-- An empty sink without faults. -/
def empty : FaultyMemory := ⟨[], 0, false, false, none, false⟩

def write (m : FaultyMemory) (bs : List UInt8) : FaultyMemory × Option IoFault :=
  if m.unavailable then (m, some .sinkUnavailable) else
    match m.room with
    | none => ({ m with written := m.written ++ bs }, none)
    | some n =>
      let m' := { m with written := m.written ++ bs.take n, room := some (n - bs.length) }
      if bs.length ≤ n then (m', none)
      else (m', some (if m.silent then .nothingWritten else .sinkFull))

def flush (m : FaultyMemory) : FaultyMemory × Option IoFault :=
  if m.flushFails then (m, some .flushFailed) else ({ m with flushes := m.flushes + 1 }, none)

instance : ByteSink FaultyMemory := ⟨write, flush⟩

end FaultyMemory
end Columnar
