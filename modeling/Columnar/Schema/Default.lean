import Columnar.Literal

/-!
# Declared defaults

The default of a field is declared as a value or as a literal.  What a literal
means is known only once the kind of the field is, so a declaration is resolved
under a kind.

## Main results

* `Default.storage_of_resolve?` — a resolved default has the storage of the kind.
-/

namespace Columnar

/-- How a default was declared. -/
inductive Default where
  | typed (v : Value)
  | literal (text : String)
deriving DecidableEq, Repr

namespace Default

/-- The text by which messages name the default. -/
def describe : Default → String
  | typed v => v.describe
  | literal text => text

variable [Calendar]

/-- The value of the default in a field of a kind.  A typed default has to have the storage of the
kind. -/
def resolve? (kind : Kind) : Default → Option Value
  | typed v => if kind.storage? = some v.storage then some v else none
  | literal text => Literal.parse? kind text

theorem storage_of_resolve? {kind : Kind} {d : Default} {v : Value}
    (h : d.resolve? kind = some v) : kind.storage? = some v.storage := by
  cases d with
  | typed w =>
    simp only [resolve?, Option.ite_none_right_eq_some, Option.some.injEq] at h
    exact h.2 ▸ h.1
  | literal text => exact Literal.storage_of_parse? h

end Default
end Columnar
