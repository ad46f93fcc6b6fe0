import Mathlib.Algebra.GroupWithZero.Nat
import Columnar.Proofs.Column.Places
import Columnar.Proofs.Column.Refinement

/-!
# Columns within a buffer

The bytes of a column tell where they end.  Whatever stands before and behind them in
a buffer, and whatever the table held that they are read into, reading takes exactly
these bytes, and afterwards each row has the value that was appended for it.

The length of the buffer has to be that of bytes in memory, which is less than
`2 ^ 63`: the leading number of a column has room for no greater count.

## Main definitions

* `PlacedCells.Recovers` — a table has read values, and all their bytes.
* `Column.StepsExact` — the steps between numbers lose nothing.

## Main results

* `UintColumn.sum_steps` — the steps of an ascending list add up to its members.
* `Column.delimits_of_storage` — **a column is read back from the middle of a buffer.**
-/

namespace Columnar

namespace UintColumn

/-- **The steps of an ascending list add up to each of its members**, as natural numbers: none of them
wraps around, and no sum does. -/
theorem sum_steps {before : UInt64} {vs : List UInt64} (h : isAscending (before :: vs) = true) {i : Nat}
    (hi : i < vs.length) :
    before.toNat + (((steps before vs).take (i + 1)).map UInt64.toNat).sum = vs[i].toNat := by
  induction vs generalizing before i with
  | nil => cases hi
  | cons v vs ih =>
    obtain ⟨hle, hvs⟩ := isAscending_cons h
    have hstep : (v - before).toNat = v.toNat - before.toNat := UInt64.toNat_sub_of_le _ _ hle
    have hle' : before.toNat ≤ v.toNat := UInt64.le_iff_toNat_le.mp hle
    rw [steps, List.take_succ_cons, List.map_cons, List.sum_cons, hstep]
    cases i with
    | zero =>
      simp only [List.take_zero, List.map_nil, List.sum_nil, List.getElem_cons_zero]
      omega
    | succ i =>
      have hmore := ih hvs (Nat.lt_of_succ_lt_succ hi)
      rw [List.getElem_cons_succ]
      omega

end UintColumn

namespace Cursor

/-- A cursor at the beginning of bytes in the middle of a buffer, with some more of the buffer in its
window. -/
def amid (before bytes inside beyond : List UInt8) : Cursor where
  buffer := before ++ bytes ++ inside ++ beyond
  position := before.length
  stop := (before ++ bytes ++ inside).length

theorem bounded_amid (before bytes inside beyond : List UInt8) :
    (amid before bytes inside beyond).Bounded where
  position := by
    show before.length ≤ (before ++ bytes ++ inside).length
    simp only [List.length_append]
    omega
  stop := by
    show (before ++ bytes ++ inside).length ≤ (before ++ bytes ++ inside ++ beyond).length
    simp only [List.length_append]
    omega

theorem window_amid (before bytes inside beyond : List UInt8) :
    (amid before bytes inside beyond).window = bytes ++ inside := by
  have hleft : (amid before bytes inside beyond).left = (bytes ++ inside).length := by
    show (before ++ bytes ++ inside).length - before.length = _
    rw [List.append_assoc, List.length_append, Nat.add_sub_cancel_left]
  rw [window, ahead, hleft, Span.slice]
  show ((before ++ bytes ++ inside ++ beyond).drop before.length).take (bytes ++ inside).length = _
  rw [List.append_assoc before, List.append_assoc before, List.drop_left, List.take_left]

end Cursor

/-- Reading into a table has taken the next `n` bytes, and the rows of the table are some values. -/
structure PlacedCells.Recovers (old : PlacedCells) (c : Cursor) (n : Nat) (vs : List Value) : Prop where
  consumes : (old.refill c).1 = .ok (c.onward n)
  length : (old.refill c).2.length = vs.length
  rows : ∀ row v, vs[row]? = some v → (old.refill c).2.get c.buffer row = .ok v
  pastEnd : ∀ row, vs.length ≤ row →
    (old.refill c).2.get c.buffer row = .error (.outOfRange .row row vs.length)

namespace Column

/-- The steps that numbers may be stored as lose nothing.  Those of ascending unsigned numbers add up to
each of them without wrapping around; signed numbers are regained from theirs, whatever they are. -/
structure StepsExact (vs : List Value) : Prop where
  uint : UintColumn.isAscending (vs.filterMap Value.asUint?) = true →
    ∀ i n, (vs.filterMap Value.asUint?)[i]? = some n →
      (((UintColumn.steps 0 (vs.filterMap Value.asUint?)).take (i + 1)).map UInt64.toNat).sum = n.toNat
  int : IntColumn.sums 0 (IntColumn.steps 0 (vs.filterMap Value.asInt?)) = vs.filterMap Value.asInt?

theorem stepsExact (vs : List Value) : StepsExact vs where
  uint := by
    intro h i n hn
    obtain ⟨hi, rfl⟩ := List.getElem?_eq_some_iff.mp hn
    have hsum := UintColumn.sum_steps (UintColumn.isAscending_zero_cons h) hi
    rwa [UInt64.toNat_zero, Nat.zero_add] at hsum
  int := IntColumn.sums_steps 0 _

variable {hash : String → UInt64} {s : Storage} {vs : List Value}

/-- The bytes of values are read back from the middle of a buffer. -/
theorem recovers_spell (hvs : ∀ v ∈ vs, v.storage = s) (hlen : (spell s vs).length < 2 ^ 63)
    (before inside beyond : List UInt8) {old : PlacedCells} (hold : old.storage = s) :
    old.Recovers (.amid before (spell s vs) inside beyond) (spell s vs).length vs := by
  subst hold
  obtain ⟨cells, hdecode, hholds⟩ := Cells.decode_spell hvs hlen inside
  have hwindow := Cursor.window_amid before (spell old.storage vs) inside beyond
  have hbounded := Cursor.bounded_amid before (spell old.storage vs) inside beyond
  generalize hc : Cursor.amid before (spell old.storage vs) inside beyond = c at hwindow hbounded ⊢
  have hfill := old.fills_refill c ⟨rfl, hbounded⟩
  simp only [hwindow, hdecode] at hfill
  obtain ⟨c', placed, hrefill, ⟨hbuffer, hbounded'⟩, hwindow', hstop, hshows⟩ := hfill
  have hcursor : c' = c.onward (spell old.storage vs).length := by
    -- the window ends where it did, so the cursor has moved by what is gone from it
    have hleft := hbounded.length_window
    have hleft' := hbounded'.length_window
    rw [hwindow, List.length_append] at hleft
    rw [hwindow', Cursor.left, hstop] at hleft'
    have hposition : c'.position = c.position + (spell old.storage vs).length := by
      have hle := hbounded.position
      have hle' := hbounded'.position
      rw [hstop] at hle'
      rw [Cursor.left] at hleft
      omega
    rw [Cursor.onward, ← hposition, ← hbuffer, ← hstop]
  refine ⟨?_, ?_, ?_, ?_⟩
  · rw [hrefill, hcursor]
  · rw [hrefill]
    exact hshows.length_eq.trans hholds.length
  · intro row v hv
    obtain ⟨hrow, rfl⟩ := List.getElem?_eq_some_iff.mp hv
    rw [hrefill, hshows.get_eq, hholds.get_eq hrow]
  · intro row hrow
    rw [hrefill, hshows.get_eq, Cells.get, hholds.get?, List.getElem?_eq_none hrow, hholds.length]

/-- **A column is read back from the middle of a buffer.**  A column takes values of its storage just if
there is room for each.  The bytes of one that has taken them may have anything before them, and behind
them inside the window of the cursor or beyond it; the table may hold any values of the storage, as
earlier reads have left it, broken off ones included. -/
theorem delimits_of_storage (hash : String → UInt64) (hvs : ∀ v ∈ vs, v.storage = s) :
    StepsExact vs ∧ ((∃ column, appendAll hash (empty s) vs = .ok column) ↔ Storable vs) ∧
      ∀ column, appendAll hash (empty s) vs = .ok column →
        ∀ (before inside beyond : List UInt8) (old : PlacedCells), old.storage = s →
          (before ++ column.encode ++ inside ++ beyond).length < 2 ^ 63 →
          old.Recovers (.amid before column.encode inside beyond) column.encode.length vs := by
  have hempty := holds_empty hash s
  refine ⟨stepsExact vs, ⟨?_, exists_appendAll hempty hvs⟩, ?_⟩
  · rintro ⟨column, happend⟩
    exact (holds_appendAll hempty happend).storable
  · intro column happend before inside beyond old hold hlen
    have hholds := holds_appendAll hempty happend
    rw [hholds.encode_eq, List.nil_append] at hlen ⊢
    refine recovers_spell hvs ?_ before inside beyond hold
    simp only [List.length_append] at hlen
    omega

/-- The least and the greatest number, read into a table that held another one. -/
theorem delimits_of_storage_extremes :
    (∀ v ∈ [Value.uint 0, .uint (-1)], v.storage = .uint) ∧
      (PlacedCells.uints #[5]).Recovers (.amid [7] (uints #[0, -1]).encode [9] [1, 2])
        (uints #[0, -1]).encode.length [.uint 0, .uint (-1)] := by
  have hvs : ∀ v ∈ [Value.uint 0, .uint (-1)], v.storage = .uint := by decide
  obtain ⟨-, -, hrecovers⟩ := delimits_of_storage (fun _ => 0) hvs
  exact ⟨hvs, hrecovers (uints #[0, -1]) rfl [7] [9] [1, 2] (.uints #[5]) rfl (by decide +kernel)⟩

end Column
end Columnar
