import Columnar.Proofs.Bytes.Cost
import Columnar.Proofs.Page.Tables

/-!
# A page is no larger than its body

The number of rows that a page claims is checked against its columns only after they
were read, so the claim may be anything.  But a value takes at least a byte in every
kind of column, and the columns of a page are beside each other in its body.  So a
body that is accepted has as many bytes as its page has cells, and a body that is
refused is refused for what is wrong with its bytes.

## Main results

* `Cells.metered_decode` — the values of a column have taken a byte each.
* `Page.ofDecoding_of_decode` — how a body is refused.
* `Page.cells_le_of_decode`, `Page.rows_le_of_decode` — how many rows an accepted
  body has.
-/

namespace Columnar

open Take (Metered metered_pure metered_error)

/-! ### Columns -/

namespace UintColumn

theorem metered_takeOne : Metered takeOne 0 fun _ => 1 :=
  Take.metered_number.bind fun _ => metered_pure (Nat.le_refl 1)

theorem metered_takeSums (before count credit : Nat) :
    Metered (takeSums before count) credit fun vs => credit + vs.length := by
  induction count generalizing before credit with
  | zero => exact metered_pure (Nat.le_refl _)
  | succ count ih =>
    refine (Take.metered_number.add credit).bind fun step => ?_
    refine Metered.ite (fun _ => ?_) fun _ => metered_error (.damaged _) _ _
    refine (ih (before + step) (credit + 1)).bind fun vs => metered_pure ?_
    rw [List.length_cons]
    omega

theorem metered_decode : Metered decode 0 fun vs => 1 + vs.length := by
  refine Take.metered_number.bind fun head => ?_
  have hvalues : Metered
      (fun rest => if head % 2 = 1 then takeSums 0 (head / 2) rest
        else Take.times takeOne (head / 2) rest) 1 fun vs => 1 + vs.length :=
    Metered.ite (fun _ => metered_takeSums 0 (head / 2) 1) fun _ => metered_takeOne.times (head / 2) 1
  exact hvalues.check fun bs e => Take.ofDecoding_of_fits

end UintColumn

namespace IntColumn

@[simp] theorem length_sums (before : Int64) (ds : List Int64) :
    (sums before ds).length = ds.length := by
  induction ds generalizing before with
  | nil => rfl
  | cons d ds ih => simp [sums, ih]

theorem metered_decode : Metered decode 0 fun vs => 1 + vs.length := by
  refine Take.metered_number.bind fun head => ?_
  have hvalues : Metered
      (fun rest => Take.times Take.signed (head / 2) rest >>= fun read =>
        .ok (if head % 2 = 1 then sums 0 read.1 else read.1, read.2)) 1 fun vs => 1 + vs.length := by
    refine (Take.metered_signed.times (head / 2) 1).bind fun vs =>
      metered_pure (a := if head % 2 = 1 then sums 0 vs else vs) ?_
    split
    · exact Nat.le_of_eq (congrArg (1 + ·) (length_sums 0 vs))
    · exact Nat.le_refl _
  exact hvalues.check fun bs e => Take.ofDecoding_of_fits

end IntColumn

namespace BoolColumn

theorem metered_takeOne : Metered takeOne 0 fun _ => 1 := by
  refine Take.metered_byte.bind fun b => ?_
  refine Metered.ite (fun _ => metered_pure (Nat.le_refl 1)) fun _ => ?_
  exact Metered.ite (fun _ => metered_pure (Nat.le_refl 1)) fun _ => metered_error (.damaged _) _ _

theorem metered_decode : Metered decode 0 fun vs => 1 + vs.length :=
  (Take.metered_count 1).bind fun count => metered_takeOne.times count 1

end BoolColumn

namespace FloatColumn

theorem metered_takeOne : Metered takeOne 0 fun _ => 1 :=
  Take.metered_word.bind fun _ => metered_pure (Nat.le_refl 1)

theorem metered_decode : Metered decode 0 fun vs => 1 + vs.length :=
  (Take.metered_count 8).bind fun count => metered_takeOne.times count 1

end FloatColumn

namespace Dictionary

theorem metered_takeEntry : Metered takeEntry 0 fun _ => 1 := by
  refine (Take.metered_prefixed.mono fun text => Nat.le_add_right 1 text.length).bind fun text => ?_
  simp only
  cases Utf8.decode? text with
  | none => exact metered_error (.damaged _) _ _
  | some s => exact metered_pure (Nat.le_refl 1)

theorem metered_takeIndex (size : Nat) : Metered (takeIndex size) 0 fun _ => 1 := by
  refine Take.metered_number.bind fun i => ?_
  exact Metered.ite (fun _ => metered_pure (Nat.le_refl 1)) fun _ =>
    metered_error (.outOfRange _ _ _) _ _

/-- The rows of a column of texts have taken a byte each, beside what its entries took. -/
theorem metered_decode : Metered decode 0 fun column => 1 + column.2.length := by
  refine (Take.metered_count 1).bind fun size => ?_
  refine (metered_takeEntry.times size 1).bind fun entries => ?_
  refine ((Take.metered_count 1).add (1 + entries.length)).bind fun count => ?_
  refine ((metered_takeIndex entries.length).times count _).bind fun indices => metered_pure ?_
  simp only
  omega

end Dictionary

namespace BlobColumn

theorem metered_decode : Metered decode 0 fun vs => 1 + vs.length :=
  (Take.metered_count 1).bind fun count =>
    (Take.metered_prefixed.mono fun bs => Nat.le_add_right 1 bs.length).times count 1

end BlobColumn

namespace Cells

/-- **The values of a column have taken a byte each**, however they are stored. -/
theorem metered_decode (s : Storage) : Metered (decode s) 0 fun cells => 1 + cells.length := by
  have hkeep {α : Type} {vs : List α} : 1 + vs.toArray.size ≤ 1 + vs.length :=
    Nat.le_of_eq (congrArg (1 + ·) List.size_toArray)
  cases s with
  | uint => exact UintColumn.metered_decode.bind fun vs => metered_pure hkeep
  | int => exact IntColumn.metered_decode.bind fun vs => metered_pure hkeep
  | float => exact FloatColumn.metered_decode.bind fun vs => metered_pure hkeep
  | bool => exact BoolColumn.metered_decode.bind fun vs => metered_pure hkeep
  | text => exact Dictionary.metered_decode.bind fun column => metered_pure hkeep
  | bytes => exact BlobColumn.metered_decode.bind fun vs => metered_pure hkeep

end Cells

/-! ### Sections and pages -/

namespace Page

variable {layout : List (Kind × Storage)} {limit : Nat} {body : List UInt8} {p : Page}

/-- The inside of a section is as long as the page has rows. -/
theorem rows_le_of_decodePayload {index rows : Nat} {storage : Storage} {payload : List UInt8}
    {s : Section} (h : decodePayload index rows storage payload = .ok s) : rows ≤ payload.length := by
  obtain ⟨⟨presence, rest⟩, hpresence, h⟩ := exists_of_bind h
  obtain ⟨⟨cells, left⟩, hcells, h⟩ := exists_of_bind h
  have hbits := (Take.metered_bytes _).paid _ _ _ hpresence
  have hvalues := (Cells.metered_decode storage).paid _ _ _ hcells
  simp only at h
  split at h
  · cases h
  · next hcount =>
    rw [Decidable.not_not] at hcount
    omega

theorem ofDecoding_of_decodePayload {index rows : Nat} {storage : Storage} {payload : List UInt8}
    {e : Failure} (h : decodePayload index rows storage payload = .error e) : e.OfDecoding := by
  rcases error_of_bind h with h | ⟨⟨presence, rest⟩, -, h⟩
  · exact (Take.metered_bytes _).failure _ _ h
  rcases error_of_bind h with h | ⟨⟨cells, left⟩, -, h⟩
  · exact (Cells.metered_decode storage).failure _ _ h
  -- values are there, but too many of them or too few, or something comes after them
  simp only at h
  split at h
  · cases h
    exact .damaged _
  · simp only [bind, Except.bind, pure, Except.pure] at h
    split at h
    · cases h
      exact .damaged _
    · cases h

/-- The inside of a section is cut off with the section's front. -/
theorem metered_takeFront (layout : List (Kind × Storage)) (seen : List Nat) :
    Metered (takeFront layout seen) 0 fun front => front.2.2.length := by
  refine Take.metered_number.bind fun index => ?_
  simp only
  cases layout[index]? with
  | none => exact metered_error (.damaged _) _ _
  | some entry =>
    refine Metered.ite (fun _ => metered_error (.damaged _) _ _) fun _ => ?_
    refine (Take.metered_byte.add 1).bind fun b => ?_
    simp only
    refine Metered.ite (fun _ => metered_error (.damaged _) _ _) fun _ => ?_
    refine (Take.metered_prefixed.add 2).bind fun payload => ?_
    simp only
    refine metered_pure ?_
    simp only
    omega

/-- A section takes as many bytes as the page has rows. -/
theorem metered_takeSection (layout : List (Kind × Storage)) (rows : Nat) (seen : List Nat) :
    Metered (takeSection layout rows seen) 0 fun _ => rows := by
  refine (metered_takeFront layout seen).bind ?_
  rintro ⟨index, storage, payload⟩
  cases hp : decodePayload index rows storage payload with
  | error e =>
    simp only [hp]
    exact metered_error (ofDecoding_of_decodePayload hp) _ _
  | ok s =>
    simp only [hp]
    exact metered_pure (rows_le_of_decodePayload hp)

/-- So all sections together take as many bytes as the page has cells. -/
theorem metered_takeSections (layout : List (Kind × Storage)) (rows count credit : Nat)
    (seen : List Nat) :
    Metered (takeSections layout rows count seen) credit fun _ => credit + count * rows := by
  induction count generalizing seen credit with
  | zero =>
    refine metered_pure ?_
    omega
  | succ count ih =>
    refine ((metered_takeSection layout rows seen).add credit).bind fun s => ?_
    refine (ih (credit + rows) (s.1 :: seen)).bind fun more => metered_pure ?_
    rw [Nat.succ_mul]
    omega

theorem metered_takeCounts (width : Nat) :
    Metered (takeCounts width) 0 fun _ => 2 := by
  refine Take.metered_number.bind fun rows => ?_
  refine (Take.metered_number.add 1).bind fun count => ?_
  exact Metered.ite (fun _ => metered_error (.columnCount _ _) _ _) fun _ =>
    metered_pure (Nat.le_refl 2)

/-- **A body is refused for what is wrong with its bytes.** -/
theorem ofDecoding_of_decode {e : Failure} (h : decode layout limit body = .error e) :
    e.OfDecoding := by
  rcases error_of_bind h with h | ⟨⟨⟨rows, count⟩, rest⟩, -, h⟩
  · exact (metered_takeCounts _).failure _ _ h
  rcases error_of_bind h with h | ⟨⟨sections, left⟩, -, h⟩
  · exact (metered_takeSections layout rows count 0 []).failure _ _ h
  simp only at h
  split at h
  · cases h
    exact .damaged _
  · simp only [bind, Except.bind, pure, Except.pure] at h
    split at h
    · cases h
      exact .damaged _
    · cases h

/-- **A body that is accepted has as many bytes as its page has cells.** -/
theorem cells_le_of_decode (h : decode layout limit body = .ok p) :
    layout.length * p.rows ≤ body.length := by
  obtain ⟨count, rest, hcounts, hsections, -⟩ := decode_eq_ok_iff.mp h
  have hhead := (metered_takeCounts layout.length).paid _ _ _ hcounts
  have hcells := (metered_takeSections layout p.rows count 0 []).paid _ _ _ hsections
  rw [of_takeCounts hcounts] at hcells
  omega

/-- Without fields there are no cells, and the limit on bodies bounds the rows of a page. -/
theorem rows_le_of_decode (h : decode [] limit body = .ok p) : p.rows ≤ limit := by
  obtain ⟨count, rest, hcounts, -, hlimit⟩ := decode_eq_ok_iff.mp h
  exact hlimit (of_takeCounts hcounts)

end Page
end Columnar
