import Columnar.Column.PlacedCells
import Columnar.Proofs.Bytes.Follow

/-!
# Columns in a buffer

The table that is kept of a column shows the cells that its bytes spell: numbers
are the same, and where there is a text or a byte string in the cells, the table
has the place of its bytes.  The places lie in the buffer, the indices of texts in
the dictionary, and the bytes of entries have been checked to be texts.

## Main definitions

* `PlacedCells.Shows` — a table of places shows some cells.
* `PlacedCells.InBounds` — what reading the value of a row relies on.

## Main results

* `PlacedCells.fills_refill` — a table shows the cells of the same bytes, whatever
  it held before.
* `PlacedCells.Shows.get_eq` — its values are theirs.
-/

namespace Columnar

/-! ### Numbers are read one behind the other -/

namespace Take

/-- A count with a flag, of things that are a byte long at least. -/
def flagged (bs : List UInt8) : Except Failure ((Nat × Bool) × List UInt8) := do
  let (head, rest) ← number bs
  fits (head / 2) 1 rest
  return ((head / 2, head % 2 = 1), rest)

end Take

theorem Cursor.follows_flagged {buffer : List UInt8} : Follows buffer flagged Take.flagged Eq :=
  follows_number.bind fun head _ h => h ▸ (follows_pure rfl).behindFits (head / 2) 1

namespace UintColumn

variable {buffer : List UInt8}

/-- The next number, by its step from the last one. -/
def takeNext (got : Array UInt64) (bs : List UInt8) : Except Failure (UInt64 × List UInt8) := do
  let (step, rest) ← Take.number bs
  let sum := (got.back?.getD 0).toNat + step
  if sum < 2 ^ 64 then return (UInt64.ofNat sum, rest) else throw (.damaged .deltaTooLarge)

theorem follows_readOne : Cursor.Follows buffer readOne takeOne Eq :=
  Cursor.follows_number.bind fun _ _ h => h ▸ Cursor.follows_pure rfl

theorem follows_readNext (got : Array UInt64) : Cursor.Follows buffer (readNext got) (takeNext got) Eq := by
  apply Cursor.follows_number.bind
  rintro step _ rfl
  by_cases hsum : (got.back?.getD 0).toNat + step < 2 ^ 64
  · simp only [if_pos hsum]
    exact Cursor.follows_pure rfl
  · simp only [if_neg hsum]
    exact Cursor.follows_error _ _

theorem decode_eq (bs : List UInt8) : decode bs = Take.flagged bs >>= fun r =>
    if r.1.2 then takeSums 0 r.1.1 r.2 else Take.times takeOne r.1.1 r.2 := by
  rw [decode, Take.flagged]
  cases Take.number bs with
  | error e => rfl
  | ok r =>
    obtain ⟨head, rest⟩ := r
    simp only [bind, Except.bind]
    cases Take.fits (head / 2) 1 rest with
    | error e => rfl
    | ok u => simp [pure, Except.pure]

theorem takeSums_succ (got : Array UInt64) (n : Nat) (bs : List UInt8) :
    takeSums (got.back?.getD 0).toNat (n + 1) bs = takeNext got bs >>= fun r =>
      takeSums r.1.toNat n r.2 >>= fun more => .ok (r.1 :: more.1, more.2) := by
  rw [takeSums, takeNext]
  cases Take.number bs with
  | error e => rfl
  | ok r =>
    obtain ⟨step, rest⟩ := r
    simp only [bind, Except.bind]
    by_cases hsum : (got.back?.getD 0).toNat + step < 2 ^ 64
    · simp [if_pos hsum, pure, Except.pure, Nat.mod_eq_of_lt hsum]
    · simp only [if_neg hsum]
      rfl

/-- Numbers are summed up from the last one that is there. -/
theorem fills_takeSums (n : Nat) (got : Array UInt64) :
    Cursor.Fills buffer (Cursor.gather readNext n got) (takeSums (got.back?.getD 0).toNat n)
      fun all vs => all = got ++ vs := by
  induction n generalizing got with
  | zero => exact fun c hc => ⟨c, got, rfl, hc, rfl, rfl, by simp⟩
  | succ n ih =>
    rw [funext (takeSums_succ got n)]
    refine (follows_readNext got).fills fun v _ hv => ?_
    subst hv
    have hrest := ih (got.push v)
    rw [Array.back?_push] at hrest
    refine hrest.map (f := id) (g := fun vs => v :: vs) ?_
    rintro all vs rfl
    simp

theorem fills_readInto : Cursor.Fills buffer (readInto #[]) decode fun all vs => all = vs.toArray := by
  rw [funext decode_eq]
  refine Cursor.fills_gatherBehind Cursor.follows_flagged ?_
  rintro ⟨count, stepwise⟩
  cases stepwise with
  | true => simpa using fills_takeSums count #[]
  | false =>
    apply Cursor.Fills.eq
    simpa using Cursor.fills_gather (fun _ => follows_readOne) count #[]

end UintColumn

namespace IntColumn

variable {buffer : List UInt8}

/-- The next number, by its step from the last one. -/
def takeNext (got : Array Int64) (bs : List UInt8) : Except Failure (Int64 × List UInt8) := do
  let (step, rest) ← Take.signed bs
  return (got.back?.getD 0 + step, rest)

theorem follows_readNext (got : Array Int64) : Cursor.Follows buffer (readNext got) (takeNext got) Eq :=
  Cursor.follows_signed.bind fun _ _ h => h ▸ Cursor.follows_pure rfl

theorem decode_eq (bs : List UInt8) : decode bs = Take.flagged bs >>= fun r =>
    Take.times Take.signed r.1.1 r.2 >>= fun p =>
      .ok (if r.1.2 then sums 0 p.1 else p.1, p.2) := by
  rw [decode, Take.flagged]
  cases Take.number bs with
  | error e => rfl
  | ok r =>
    obtain ⟨head, rest⟩ := r
    simp only [bind, Except.bind]
    cases Take.fits (head / 2) 1 rest with
    | error e => rfl
    | ok u => simp [pure, Except.pure]

theorem sums_succ (got : Array Int64) (n : Nat) (bs : List UInt8) :
    (Take.times Take.signed (n + 1) bs >>= fun r => .ok (sums (got.back?.getD 0) r.1, r.2)) =
      takeNext got bs >>= fun r =>
        (Take.times Take.signed n r.2 >>= fun p => .ok (sums r.1 p.1, p.2)) >>= fun more =>
          (.ok (r.1 :: more.1, more.2) : Except Failure (List Int64 × List UInt8)) := by
  rw [Take.times, takeNext]
  cases Take.signed bs with
  | error e => rfl
  | ok r =>
    obtain ⟨step, rest⟩ := r
    simp only [bind, Except.bind, pure, Except.pure]
    cases Take.times Take.signed n rest <;> rfl

/-- Numbers are summed up from the last one that is there. -/
theorem fills_sums (n : Nat) (got : Array Int64) :
    Cursor.Fills buffer (Cursor.gather readNext n got)
      (fun bs => Take.times Take.signed n bs >>= fun r => .ok (sums (got.back?.getD 0) r.1, r.2))
      fun all vs => all = got ++ vs := by
  induction n generalizing got with
  | zero => exact fun c hc => ⟨c, got, rfl, hc, rfl, rfl, by simp [sums]⟩
  | succ n ih =>
    rw [funext (sums_succ got n)]
    refine (follows_readNext got).fills fun v _ hv => ?_
    subst hv
    have hrest := ih (got.push v)
    rw [Array.back?_push] at hrest
    refine hrest.map (f := id) (g := fun vs => v :: vs) ?_
    rintro all vs rfl
    simp

theorem fills_readInto : Cursor.Fills buffer (readInto #[]) decode fun all vs => all = vs.toArray := by
  rw [funext decode_eq]
  refine Cursor.fills_gatherBehind Cursor.follows_flagged ?_
  rintro ⟨count, stepwise⟩
  cases stepwise with
  | true => simpa using fills_sums count #[]
  | false =>
    refine (Cursor.fills_gather (fun _ => Cursor.follows_signed) count #[]).map
      (f := id) (g := id) ?_
    rintro all vs ⟨as, rfl, has⟩
    rw [List.forall₂_eq_eq_eq] at has
    simp [has]

end IntColumn

theorem BoolColumn.follows_readOne {buffer : List UInt8} :
    Cursor.Follows buffer readOne takeOne Eq := by
  apply Cursor.follows_byte.bind
  rintro b _ rfl
  by_cases hzero : b = 0
  · simp only [if_pos hzero]
    exact Cursor.follows_pure rfl
  by_cases hone : b = 1
  · simp only [if_neg hzero, if_pos hone]
    exact Cursor.follows_pure rfl
  · simp only [if_neg hzero, if_neg hone]
    exact Cursor.follows_error _ _

theorem FloatColumn.follows_readOne {buffer : List UInt8} :
    Cursor.Follows buffer readOne takeOne Eq :=
  Cursor.follows_word.bind fun _ _ h => h ▸ Cursor.follows_pure rfl

namespace Dictionary

theorem follows_readIndex {buffer : List UInt8} (size : Nat) :
    Cursor.Follows buffer (readIndex size) (takeIndex size) Eq := by
  apply Cursor.follows_number.bind
  rintro i _ rfl
  by_cases hi : i < size
  · simp only [if_pos hi]
    exact Cursor.follows_pure rfl
  · simp only [if_neg hi]
    exact Cursor.follows_error _ _

theorem lt_of_takeIndex {size i : Nat} {bs rest : List UInt8} (h : takeIndex size bs = .ok (i, rest)) :
    i < size := by
  obtain ⟨⟨j, mid⟩, -, h⟩ := exists_of_bind h
  by_cases hj : j < size
  · simp only [if_pos hj] at h
    cases h
    exact hj
  · simp only [if_neg hj] at h
    cases h

end Dictionary

/-! ### Tables of places -/

namespace PlacedCells

/-- A place whose bytes spell a text. -/
def ShowsText (buffer : List UInt8) (p : Span) (s : String) : Prop :=
  Cursor.Shows buffer p (Utf8.encode s)

/-- A table of places in a buffer shows some cells. -/
inductive Shows (buffer : List UInt8) : PlacedCells → Cells → Prop where
  | uints (vs : Array UInt64) : Shows buffer (.uints vs) (.uints vs)
  | ints (vs : Array Int64) : Shows buffer (.ints vs) (.ints vs)
  | floats (vs : Array Binary64) : Shows buffer (.floats vs) (.floats vs)
  | bools (vs : Array Bool) : Shows buffer (.bools vs) (.bools vs)
  | texts {places : List Span} {entries : List String} (indices : List Nat)
      (entriesShow : List.Forall₂ (ShowsText buffer) places entries)
      (inTable : ∀ i ∈ indices, i < entries.length) :
      Shows buffer (.texts places.toArray indices.toArray) (.texts entries.toArray indices.toArray)
  | blobs {places : List Span} {vs : List (List UInt8)}
      (placesShow : List.Forall₂ (Cursor.Shows buffer) places vs) :
      Shows buffer (.blobs places.toArray) (.blobs vs.toArray)

end PlacedCells

namespace Dictionary

variable {buffer : List UInt8}

theorem follows_readEntry :
    Cursor.Follows buffer readEntry takeEntry (PlacedCells.ShowsText buffer) := by
  apply Cursor.follows_prefixed.bind
  rintro p _ ⟨hwithin, rfl⟩
  apply Cursor.Follows.behindBytesAt
  simp only
  cases hd : Utf8.decode? (p.slice buffer) with
  | none => exact Cursor.follows_error _ _
  | some s =>
    refine Cursor.follows_pure ⟨hwithin, ?_⟩
    rw [Utf8.encode_of_decode? hd]

theorem decode_eq (bs : List UInt8) : decode bs =
    (Take.count 1 bs >>= fun r => Take.times takeEntry r.1 r.2) >>= fun es =>
      (Take.count 1 es.2 >>= fun r => Take.times (takeIndex es.1.length) r.1 r.2) >>= fun is =>
        .ok ((es.1, is.1), is.2) := by
  simp only [decode, bind_assoc]
  rfl

/-- The places of entries show them, and the indices are the same. -/
theorem fills_readInto : Cursor.Fills buffer (readInto #[] #[]) decode fun a b =>
    ∃ places : List Span, a = (places.toArray, b.2.toArray) ∧
      List.Forall₂ (PlacedCells.ShowsText buffer) places b.1 ∧ ∀ i ∈ b.2, i < b.1.length := by
  rw [funext decode_eq]
  have hindices : ∀ (table : Array Span) (entries : List String),
      (∃ places : List Span, table = places.toArray ∧
        List.Forall₂ (PlacedCells.ShowsText buffer) places entries) →
      Cursor.Fills buffer (fun c => (Cursor.gatherBehind (Cursor.count 1) id
          (fun _ _ => readIndex table.size) #[] c).map id fun indices => (table, indices))
        (fun bs => (Take.count 1 bs >>= fun r => Take.times (takeIndex entries.length) r.1 r.2) >>=
          fun is => .ok ((entries, is.1), is.2))
        fun a b => ∃ places : List Span, a = (places.toArray, b.2.toArray) ∧
          List.Forall₂ (PlacedCells.ShowsText buffer) places b.1 ∧ ∀ i ∈ b.2, i < b.1.length := by
    rintro _ entries ⟨places, rfl, hplaces⟩
    have hlen : places.toArray.size = entries.length := hplaces.length_eq
    rw [hlen]
    refine (((Cursor.fills_counted (follows_readIndex entries.length) 1).eq).ensure
      (Q := fun is => ∀ i ∈ is, i < entries.length) ?_).map ?_
    · intro bs is rest h
      obtain ⟨⟨count, mid⟩, -, h⟩ := exists_of_bind h
      exact (Take.forall_of_times (fun _ _ _ => lt_of_takeIndex) h).2
    · rintro _ is ⟨rfl, hlt⟩
      exact ⟨places, rfl, hplaces, hlt⟩
  have hboth := (Cursor.fills_counted follows_readEntry 1).andThen (k := fun table => (table, #[])) hindices
  intro c hc
  have hfill := hboth c hc
  unfold readInto
  beta_reduce at hfill ⊢
  generalize Cursor.gatherBehind (Cursor.count 1) id (fun _ _ => readEntry) #[] c = r at hfill ⊢
  obtain ⟨e | c', table⟩ := r <;> exact hfill

end Dictionary

namespace PlacedCells

variable {buffer : List UInt8}

/-- A table shows the cells that the same bytes spell, if it is filled from the beginning. -/
theorem fills_readInto (s : Storage) :
    Cursor.Fills buffer (fun c => (empty s).readInto c) (Cells.decode s) (Shows buffer) := by
  cases s with
  | uint =>
    refine UintColumn.fills_readInto.map (g := fun vs => Cells.uints vs.toArray) ?_
    rintro _ vs rfl
    exact .uints _
  | int =>
    refine IntColumn.fills_readInto.map (g := fun vs => Cells.ints vs.toArray) ?_
    rintro _ vs rfl
    exact .ints _
  | float =>
    refine (Cursor.fills_counted FloatColumn.follows_readOne 8).eq.map
      (g := fun vs => Cells.floats vs.toArray) ?_
    rintro _ vs rfl
    exact .floats _
  | bool =>
    refine (Cursor.fills_counted BoolColumn.follows_readOne 1).eq.map
      (g := fun vs => Cells.bools vs.toArray) ?_
    rintro _ vs rfl
    exact .bools _
  | text =>
    refine Dictionary.fills_readInto.map (g := fun r => Cells.texts r.1.toArray r.2.toArray) ?_
    rintro _ ⟨entries, indices⟩ ⟨places, rfl, hplaces, hlt⟩
    exact .texts indices hplaces hlt
  | bytes =>
    refine (Cursor.fills_counted Cursor.follows_prefixed 1).map (g := fun vs => Cells.blobs vs.toArray) ?_
    rintro _ vs ⟨places, rfl, hplaces⟩
    exact .blobs hplaces

/-- **A table shows the cells that the same bytes spell, whatever it held before.** -/
theorem fills_refill (old : PlacedCells) :
    Cursor.Fills buffer old.refill (Cells.decode old.storage) (Shows buffer) :=
  fills_readInto old.storage

@[simp] theorem storage_empty (s : Storage) : (empty s).storage = s := by cases s <;> rfl

theorem storage_readInto (placed : PlacedCells) (c : Cursor) :
    (placed.readInto c).2.storage = placed.storage := by cases placed <;> rfl

/-- A table keeps its storage, also when the reading breaks off. -/
@[simp] theorem storage_refill (old : PlacedCells) (c : Cursor) :
    (old.refill c).2.storage = old.storage := by rw [refill, storage_readInto, storage_empty]

/-- What fetching the value of a row relies on: the row and the index of its entry are in their tables,
its bytes in the buffer, and the bytes of a text spell one. -/
def InBounds (buffer : List UInt8) (row : Nat) : PlacedCells → Prop
  | uints vs => row < vs.size
  | ints vs => row < vs.size
  | floats vs => row < vs.size
  | bools vs => row < vs.size
  | texts entries indices =>
    ∃ i p, indices[row]? = some i ∧ entries[i]? = some p ∧ p.Within buffer ∧
      (Utf8.decode? (p.slice buffer)).isSome
  | blobs places => ∃ p, places[row]? = some p ∧ p.Within buffer

variable {placed : PlacedCells} {cells : Cells}

theorem Shows.length_eq (h : Shows buffer placed cells) : placed.length = cells.length := by
  cases h with
  | blobs hplaces => simpa [length, Cells.length] using hplaces.length_eq
  | _ => rfl

theorem exists_place {α : Type} {R : Span → α → Prop} {places : List Span} {as : List α}
    (h : List.Forall₂ R places as) {i : Nat} (hi : i < as.length) :
    ∃ p, places.toArray[i]? = some p ∧ R p as[i] := by
  have hi' : i < places.length := by rwa [h.length_eq]
  refine ⟨places[i], ?_, h.get hi' hi⟩
  rw [List.getElem?_toArray, List.getElem?_eq_getElem hi']

theorem fetch_eq {α : Type} (vs : Array α) (row : Nat) (tag : α → Value) :
    (fetch .row vs row).map tag = match vs[row]?.map tag with
      | some v => .ok v
      | none => .error (.outOfRange .row row vs.size) := by
  rw [fetch]
  cases vs[row]? <;> rfl

/-- **The values of a table are those of the cells it shows**, failures past the last row included. -/
theorem Shows.get_eq (h : Shows buffer placed cells) (row : Nat) :
    placed.get buffer row = cells.get row := by
  cases h with
  | texts indices hentries hlt =>
    rename_i places entries
    simp only [get, Cells.get, Cells.get?, Cells.length, fetch, List.getElem?_toArray]
    cases hrow : indices[row]? with
    | none => rfl
    | some i =>
      have hi := hlt i (List.mem_of_getElem? hrow)
      obtain ⟨p, hp, -, hslice⟩ := exists_place hentries hi
      rw [List.getElem?_toArray] at hp
      simp only [hp, bind, Except.bind, Option.bind, List.getElem?_eq_getElem hi, hslice,
        Utf8.decode?_encode]
      rfl
  | blobs hplaces =>
    rename_i places vs
    simp only [get, Cells.get, Cells.get?, Cells.length, fetch]
    by_cases hi : row < vs.length
    · obtain ⟨p, hp, -, hslice⟩ := exists_place hplaces hi
      simp only [hp, bind, Except.bind, List.getElem?_toArray, List.getElem?_eq_getElem hi, hslice]
      rfl
    · have hvs : vs[row]? = none := List.getElem?_eq_none (Nat.not_lt.mp hi)
      have hplaces' : places[row]? = none :=
        List.getElem?_eq_none (hplaces.length_eq ▸ Nat.not_lt.mp hi)
      simp only [List.getElem?_toArray, hvs, hplaces', List.size_toArray, hplaces.length_eq]
      rfl
  | _ => exact fetch_eq _ row _

theorem storage_of_get? {cells : Cells} {row : Nat} {v : Value} (h : cells.get? row = some v) :
    v.storage = cells.storage := by
  cases cells <;> obtain ⟨w, -, rfl⟩ := Option.map_eq_some_iff.mp h <;> rfl

/-- Every row of the cells has a value, and it is of their storage. -/
theorem Shows.exists_get (h : Shows buffer placed cells) {row : Nat} (hrow : row < cells.length) :
    ∃ v, cells.get row = .ok v ∧ v.storage = cells.storage := by
  have hsome : (cells.get? row).isSome := by
    cases h with
    | texts indices hentries hlt =>
      have hrow' : row < indices.length := hrow
      have hi := hlt _ (List.getElem_mem hrow')
      simp [Cells.get?, hrow', hi]
    | blobs hplaces =>
      simpa [Cells.get?, Cells.length] using hrow
    | _ vs =>
      have hrow' : row < vs.size := hrow
      simp [Cells.get?, hrow']
  obtain ⟨v, hv⟩ := Option.isSome_iff_exists.mp hsome
  exact ⟨v, by rw [Cells.get, hv], storage_of_get? hv⟩

/-- Reading the value of a row that the cells have stays in bounds. -/
theorem Shows.inBounds (h : Shows buffer placed cells) {row : Nat} (hrow : row < cells.length) :
    placed.InBounds buffer row := by
  cases h with
  | texts indices hentries hlt =>
    have hrow' : row < indices.length := hrow
    have hi := hlt _ (List.getElem_mem hrow')
    obtain ⟨p, hp, hwithin, hslice⟩ := exists_place hentries hi
    refine ⟨indices[row], p, ?_, hp, hwithin, ?_⟩
    · simp [hrow']
    · rw [hslice, Utf8.decode?_encode]
      rfl
  | blobs hplaces =>
    obtain ⟨p, hp, hwithin, -⟩ := exists_place hplaces hrow
    exact ⟨p, hp, hwithin⟩
  | _ => exact hrow

end PlacedCells
end Columnar
