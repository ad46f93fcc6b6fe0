import Columnar.Failure

/-!
# Settings of a stream

How many rows go into a page, how long a page may be that is read, and whether
drafts of pages are kept for reuse.
-/

namespace Columnar

structure Settings where
  /-- The number of rows at which a page is written. -/
  pageRows : Nat
  /-- The longest page that is read. -/
  maxPageBytes : Nat
  /-- Drafts go back to a shared pool. -/
  pooling : Bool
deriving DecidableEq, Repr

namespace Settings

/-- Settings for general use. -/
def standard : Settings := ⟨1024, 64 * 1024 * 1024, true⟩

/-- Settings with small pages, so that little data fills several. -/
def small : Settings := ⟨4, 1024 * 1024, false⟩

/-- The least limit on the length of a page. -/
def minPageBytes : Nat := 64

/-- The limits are ones that a stream can work under. -/
def check (s : Settings) : Except BadLimit Unit :=
  if s.pageRows = 0 then .error .pageRows
  else if s.maxPageBytes < minPageBytes then .error .pageBytes
  else .ok ()

theorem check_eq_ok_iff {s : Settings} :
    s.check = .ok () ↔ 0 < s.pageRows ∧ minPageBytes ≤ s.maxPageBytes := by
  unfold check
  by_cases hr : s.pageRows = 0
  · simp [hr]
  · by_cases hb : s.maxPageBytes < minPageBytes
    · simp only [hr, hb, if_false, if_true, reduceCtorEq, false_iff]
      omega
    · simp only [hr, hb, if_false, true_iff]
      omega

end Settings

/-- Counters of a stream: rows, pages and bytes that went through so far. -/
structure Tally where
  rows : Nat
  pages : Nat
  bytes : Nat
deriving DecidableEq, Repr, Inhabited

namespace Tally

/-- Nothing so far. -/
def zero : Tally := ⟨0, 0, 0⟩

end Tally
end Columnar
