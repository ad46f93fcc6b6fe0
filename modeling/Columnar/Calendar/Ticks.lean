import Columnar.Number.Power

/-!
# Ticks

Times and durations are stored as signed 64-bit counts of nanoseconds, times
counted from the start of 1970.
-/

namespace Columnar
namespace Ticks

/-- The count as a 64-bit number, if it fits. -/
def ofInt? (n : Int) : Option Int64 :=
  if -2 ^ 63 ≤ n ∧ n < 2 ^ 63 then some (Int64.ofInt n) else none

/-- Nanoseconds in a second. -/
def second : Nat := 1000000000

def minute : Nat := 60 * second

def hour : Nat := 60 * minute

def day : Nat := 24 * hour

theorem toInt_of_ofInt? {n : Int} {v : Int64} (h : ofInt? n = some v) : v.toInt = n := by
  unfold ofInt? at h
  split at h
  · next hn =>
    cases h
    exact Int64.toInt_ofInt_of_le hn.1 hn.2
  · cases h

end Ticks
end Columnar
