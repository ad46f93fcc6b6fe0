import Columnar.Bytes.Word
import Columnar.Text.Utf8

/-!
# The FNV-1a hash

A 64-bit state is fed one byte at a time: the byte is xored into it and the
result multiplied by a prime.

## Main definitions

* `Fnv1a.feed` — the state after some bytes.
* `Fnv1a.hash` — the state after some bytes, from the start.
* `Fnv1a.terminated` — a text as it is fed: its bytes and a zero byte.
-/

namespace Columnar
namespace Fnv1a

/-- The state at the start. -/
def basis : UInt64 := 0xcbf29ce484222325

def prime : UInt64 := 0x100000001b3

/-- The state after one more byte. -/
def step (state : UInt64) (b : UInt8) : UInt64 := (state ^^^ b.toUInt64) * prime

/-- The state after more bytes. -/
def feed (state : UInt64) (bs : List UInt8) : UInt64 := bs.foldl step state

/-- The hash of a list of bytes. -/
def hash (bs : List UInt8) : UInt64 := feed basis bs

/-- A text as it is fed to the hash: the zero byte marks its end. -/
def terminated (s : String) : List UInt8 := Utf8.encode s ++ [0]

@[simp] theorem feed_nil (state : UInt64) : feed state [] = state := rfl

@[simp] theorem feed_append (state : UInt64) (bs cs : List UInt8) :
    feed state (bs ++ cs) = feed (feed state bs) cs := List.foldl_append

end Fnv1a
end Columnar
