import Columnar.Proofs.Page.Twins

/-!
# The sheet behind a draft

A draft does not say which row is open; the lengths of columns and of presence bits
stand in for that.  Here it is said: a sheet has the rows that were sealed since the
last reset, and what has been given of the cells of the open row.  The sheet follows
from the calls and from whether they were refused, and whatever the calls, the lanes
of the draft hold what the sheet says and nothing else.

So the page depends on the sealed rows alone: rows that were abandoned, cells that
were refused and the order of the fields leave no trace in it.

## Main definitions

* `Sheet`, `Sheet.after` — sealed rows and open cells, and what a call makes of them.
* `Draft.Tracks` — the lanes hold what a sheet says.
* `Draft.Accountable` — what calls on a draft come to.

## Main results

* `Draft.Tracks.step` — a call makes of the draft what it makes of the sheet.
* `Draft.accountable_of_finalized` — **a page depends only on the rows that were sealed.**
-/

namespace Columnar

theorem getElem?_filterMap_of_isSome {α β : Type} {f : α → Option β} {as : List α}
    (h : ∀ a ∈ as, (f a).isSome) (i : Nat) : (as.filterMap f)[i]? = as[i]?.bind f := by
  induction as generalizing i with
  | nil => rfl
  | cons a as ih =>
    obtain ⟨hfirst, hrest⟩ := List.forall_mem_cons.mp h
    obtain ⟨b, hb⟩ := Option.isSome_iff_exists.mp hfirst
    rw [List.filterMap_cons, hb]
    cases i with
    | zero => exact hb.symm
    | succ i => exact ih hrest i

theorem length_filterMap_of_isSome {α β : Type} {f : α → Option β} {as : List α}
    (h : ∀ a ∈ as, (f a).isSome) : (as.filterMap f).length = as.length := by
  induction as with
  | nil => rfl
  | cons a as ih =>
    obtain ⟨hfirst, hrest⟩ := List.forall_mem_cons.mp h
    obtain ⟨b, hb⟩ := Option.isSome_iff_exists.mp hfirst
    rw [List.filterMap_cons, hb, List.length_cons, List.length_cons, ih hrest]

theorem modify_eq_set {α : Type} {as : List α} {i : Nat} {a : α} (h : as[i]? = some a) (f : α → α) :
    as.modify i f = as.set i (f a) := by
  rw [List.modify_eq_set_getElem?, h]
  rfl

/-! ### Sheets -/

/-- A value and a presence bit that have perhaps been given. -/
structure OpenCell where
  value : Option Value
  presence : Option Bool
deriving DecidableEq

namespace OpenCell

/-- Nothing has been given. -/
def blank : OpenCell := ⟨none, none⟩

/-- The cell, once all of it has been given. -/
def whole? (c : OpenCell) : Option (Value × Bool) := c.value.bind fun v => c.presence.map fun b => (v, b)

end OpenCell

theorem filterMap_whole? (row : List (Value × Bool)) :
    (row.map fun c => (⟨some c.1, some c.2⟩ : OpenCell)).filterMap OpenCell.whole? = row := by
  rw [List.filterMap_map]
  exact List.filterMap_some

/-- What has been sealed since the last reset, and what is open. -/
structure Sheet where
  /-- The cells of the sealed rows: the stored value and the presence bit for each field. -/
  sealed : List (List (Value × Bool))
  /-- The cells of the open row. -/
  cells : List OpenCell

namespace Sheet

/-- A sheet for some number of fields, without any rows. -/
def blank (width : Nat) : Sheet := ⟨[], List.replicate width .blank⟩

/-- Nothing has been given of a next row. -/
def Idle (sh : Sheet) : Prop := ∀ c ∈ sh.cells, c = .blank

/-- The sheet without what is open. -/
def abandoned (sh : Sheet) : Sheet := { sh with cells := List.replicate sh.cells.length .blank }

/-- The sheet with one more sealed row. -/
def withRow (sh : Sheet) (row : List (Value × Bool)) : Sheet :=
  ⟨sh.sealed ++ [row], List.replicate sh.cells.length .blank⟩

/-- The cells that a row as a whole seals: the values of set slots, and the default or the zero value in
place of unset ones. -/
def rowCells (shapes : List Lane.Shape) (slots : List (Option Value)) : List (Value × Bool) :=
  List.zipWith (fun sh slot => (slot.getD sh.filler, slot.isSome)) shapes slots

/-- The sheet after a call that had some result.  A call that is refused makes no difference, but for a
row that is not turned away: it takes the open cells with it. -/
def after (shapes : List Lane.Shape) (sh : Sheet) (c : DraftCall)
    (result : Except Failure (List UInt8)) : Sheet :=
  match c, result with
  | .value i v, .ok _ => { sh with cells := sh.cells.modify i fun c => { c with value := some v } }
  | .presence i b, .ok _ => { sh with cells := sh.cells.modify i fun c => { c with presence := some b } }
  | .sealRow, .ok _ => sh.withRow (sh.cells.filterMap OpenCell.whole?)
  | .abortRow, _ => sh.abandoned
  | .row r, .ok _ => sh.withRow (rowCells shapes r.slots)
  | .row _, .error e => if e.turnsAway then sh else sh.abandoned
  | .reset, _ => blank sh.cells.length
  | _, _ => sh

/-- The cells of a field in some rows. -/
def column (i : Nat) (rows : List (List (Value × Bool))) : List (Value × Bool) := rows.filterMap (·[i]?)

theorem column_concat {i : Nat} (rows : List (List (Value × Bool))) {row : List (Value × Bool)}
    {c : Value × Bool} (h : row[i]? = some c) : column i (rows ++ [row]) = column i rows ++ [c] := by
  simp [column, h]

theorem length_column {i n : Nat} {rows : List (List (Value × Bool))} (h : ∀ row ∈ rows, row.length = n)
    (hi : i < n) : (column i rows).length = rows.length := by
  refine length_filterMap_of_isSome fun row hrow => ?_
  rw [List.getElem?_eq_getElem (h row hrow ▸ hi)]
  rfl

end Sheet

/-! ### Lanes hold what the sheet says -/

section

variable [TextHash]

/-- A lane holds some cells, and what has been given of another one. -/
structure Lane.Shows (l : Lane) (cells : List (Value × Bool)) (c : OpenCell) : Prop where
  sound : l.Sound
  values : l.column.toList = cells.map Prod.fst ++ c.value.toList
  presence : l.presence.toList = cells.map Prod.snd ++ c.presence.toList

namespace Lane

variable {l : Lane} {cells : List (Value × Bool)} {c : OpenCell}

theorem Shows.length_column (h : l.Shows cells c) :
    l.column.length = cells.length + c.value.toList.length := by
  rw [← Column.length_toList, h.values, List.length_append, List.length_map]

theorem Shows.length_presence (h : l.Shows cells c) :
    l.presence.length = cells.length + c.presence.toList.length := by
  rw [← Presence.length_toList, h.presence, List.length_append, List.length_map]

/-- The lengths of a lane say what is missing of the open cell. -/
theorem Shows.value_eq_none (h : l.Shows cells c) (hlen : l.column.length = cells.length) :
    c.value = none := by
  rw [h.length_column] at hlen
  cases hv : c.value with
  | none => rfl
  | some v =>
    rw [hv, Option.toList_some, List.length_singleton] at hlen
    omega

theorem Shows.presence_eq_none (h : l.Shows cells c) (hlen : l.presence.length = cells.length) :
    c.presence = none := by
  rw [h.length_presence] at hlen
  cases hp : c.presence with
  | none => rfl
  | some b =>
    rw [hp, Option.toList_some, List.length_singleton] at hlen
    omega

/-- And they say that nothing is. -/
theorem Shows.exists_whole (h : l.Shows cells c) (hcolumn : l.column.length = cells.length + 1)
    (hpresence : l.presence.length = cells.length + 1) : ∃ v b, c = ⟨some v, some b⟩ := by
  rw [h.length_column] at hcolumn
  rw [h.length_presence] at hpresence
  obtain ⟨value, presence⟩ := c
  cases value with
  | none => simp at hcolumn
  | some v =>
    cases presence with
    | none => simp at hpresence
    | some b => exact ⟨v, b, rfl⟩

theorem Shows.truncate (h : l.Shows cells c) : (l.truncate cells.length).Shows cells .blank where
  sound := h.sound.truncate _
  values := by
    show (l.column.truncate _).toList = _
    rw [Column.toList_truncate h.sound.column, h.values, List.take_left' (List.length_map _)]
    exact (List.append_nil _).symm
  presence := by
    show (l.presence.truncate _).toList = _
    rw [Presence.toList_truncate h.sound.presence, h.presence, List.take_left' (List.length_map _)]
    exact (List.append_nil _).symm

theorem shows_reset (l : Lane) : l.reset.Shows [] .blank :=
  ⟨sound_reset l, Column.toList_empty _, rfl⟩

/-- A cell that is whole can be counted among the others. -/
theorem Shows.close {v : Value} {b : Bool} (h : l.Shows cells ⟨some v, some b⟩) :
    l.Shows (cells ++ [(v, b)]) .blank where
  sound := h.sound
  values := by
    rw [h.values, List.map_append]
    exact (List.append_nil _).symm
  presence := by
    rw [h.presence, List.map_append]
    exact (List.append_nil _).symm

/-- Lanes of one field that hold the same cells are twins. -/
theorem Shows.twin {l' : Lane} (h : l.Shows cells c) (h' : l'.Shows cells c) (hshape : l'.shape = l.shape) :
    l.Twin l' :=
  ⟨hshape, ⟨h.sound, h'.sound⟩, h'.values.trans h.values.symm, h'.presence.trans h.presence.symm⟩

theorem Twin.shows {l' : Lane} (h : l.Twin l') (hl : l.Shows cells c) : l'.Shows cells c :=
  ⟨h.sound.2, h.values.trans hl.values, h.presence.trans hl.presence⟩

end Lane

namespace Draft

/-- The lanes of a draft hold what a sheet says. -/
structure Tracks (d : Draft) (sh : Sheet) : Prop where
  rows : d.rows = sh.sealed.length
  widths : ∀ row ∈ sh.sealed, row.length = d.lanes.length
  width : sh.cells.length = d.lanes.length
  lanes : ∀ (i : Nat) (l : Lane) (c : OpenCell), d.lanes[i]? = some l → sh.cells[i]? = some c →
    l.Shows (Sheet.column i sh.sealed) c

variable {d d' : Draft} {sh : Sheet}

theorem Tracks.exists_cell (h : d.Tracks sh) {i : Nat} {l : Lane} (hl : d.lanes[i]? = some l) :
    ∃ c, sh.cells[i]? = some c ∧ l.Shows (Sheet.column i sh.sealed) c ∧
      (Sheet.column i sh.sealed).length = d.rows := by
  have hlt := (List.getElem?_eq_some_iff.mp hl).1
  have hlt' : i < sh.cells.length := h.width ▸ hlt
  have hc : sh.cells[i]? = some sh.cells[i] := List.getElem?_eq_getElem hlt'
  refine ⟨_, hc, h.lanes i l _ hl hc, ?_⟩
  rw [Sheet.length_column h.widths hlt, h.rows]

theorem Tracks.sound (h : d.Tracks sh) : d.Sound := by
  intro l hl
  obtain ⟨i, hi⟩ := List.getElem?_of_mem hl
  obtain ⟨c, -, hshows, -⟩ := h.exists_cell hi
  exact hshows.sound

/-- Twins have one sheet. -/
theorem Twin.tracks (h : d.Twin d') (ht : d.Tracks sh) : d'.Tracks sh where
  rows := h.rows.trans ht.rows
  widths := fun row hrow => (ht.widths row hrow).trans h.length_lanes.symm
  width := ht.width.trans h.length_lanes.symm
  lanes := by
    intro i l' c hl' hc
    rcases h.lane i with ⟨-, hnone⟩ | ⟨l, m, hl, hm, htwin⟩
    · rw [hnone] at hl'
      cases hl'
    · rw [hm] at hl'
      cases hl'
      exact htwin.shows (ht.lanes i l c hl hc)

/-- One sheet makes twins. -/
theorem Tracks.twin (h : d.Tracks sh) (h' : d'.Tracks sh) (halike : d.Alike d') : d.Twin d' where
  schema := halike.schema
  limit := halike.limit
  rows := h'.rows.trans h.rows.symm
  lanes := by
    have hlen : d.lanes.length = d'.lanes.length := h.width.symm.trans h'.width
    refine List.forall₂_iff_get.mpr ⟨hlen, fun i hi hi' => ?_⟩
    have hl : d.lanes[i]? = some (d.lanes.get ⟨i, hi⟩) := List.getElem?_eq_getElem hi
    have hl' : d'.lanes[i]? = some (d'.lanes.get ⟨i, hi'⟩) := List.getElem?_eq_getElem hi'
    obtain ⟨c, hc, hshows, -⟩ := h.exists_cell hl
    refine hshows.twin (h'.lanes i _ c hl' hc) ?_
    have hshape := d'.shapes_getElem? hl'
    rw [halike.shapes, d.shapes_getElem? hl] at hshape
    exact (Option.some.inj hshape).symm

/-! ### Cells -/

/-- A lane that holds something else of its open cell. -/
theorem Tracks.setLane (h : d.Tracks sh) {i : Nat} {l l' : Lane} {c c' : OpenCell}
    (hl : d.lanes[i]? = some l) (hc : sh.cells[i]? = some c)
    (hshows : l'.Shows (Sheet.column i sh.sealed) c') :
    (d.setLane i l').Tracks { sh with cells := sh.cells.set i c' } where
  rows := h.rows
  widths := fun row hrow => (h.widths row hrow).trans (List.length_set ..).symm
  width := by
    show (sh.cells.set i c').length = (d.lanes.set i l').length
    rw [List.length_set, List.length_set, h.width]
  lanes := by
    intro j m k hm hk
    have hm : (d.lanes.set i l')[j]? = some m := hm
    have hk : (sh.cells.set i c')[j]? = some k := hk
    by_cases hij : i = j
    · subst hij
      rw [List.getElem?_set_self (List.getElem?_eq_some_iff.mp hl).1] at hm
      rw [List.getElem?_set_self (List.getElem?_eq_some_iff.mp hc).1] at hk
      cases hm
      cases hk
      exact hshows
    · rw [List.getElem?_set_ne hij] at hm hk
      exact h.lanes j m k hm hk

/-- A value that is taken is that of an open cell which had none. -/
theorem Tracks.appendValue (h : d.Tracks sh) {i : Nat} {v : Value} (hv : d.appendValue i v = .ok d') :
    ∃ p, sh.cells[i]? = some ⟨none, p⟩ ∧
      d'.Tracks { sh with cells := sh.cells.set i ⟨some v, p⟩ } := by
  rcases d.appendValue_cases i v with ⟨e, he, -⟩ | ⟨l, column, hl, hlen, hcolumn, heq⟩
  · rw [he] at hv
    cases hv
  rw [heq] at hv
  cases hv
  obtain ⟨⟨w, p⟩, hc, hshows, hcount⟩ := h.exists_cell hl
  obtain rfl : w = none := hshows.value_eq_none (hlen.trans hcount.symm)
  refine ⟨p, hc, h.setLane hl hc ⟨?_, ?_, hshows.presence⟩⟩
  · exact ⟨Column.sound_append hshows.sound.column hcolumn, hshows.sound.presence⟩
  · rw [Column.toList_append hshows.sound.column hcolumn, hshows.values]
    simp

/-- A presence bit that is taken is that of an open cell which had none. -/
theorem Tracks.recordPresence (h : d.Tracks sh) {i : Nat} {b : Bool}
    (hb : d.recordPresence i b = .ok d') :
    ∃ w, sh.cells[i]? = some ⟨w, none⟩ ∧
      d'.Tracks { sh with cells := sh.cells.set i ⟨w, some b⟩ } := by
  rcases d.recordPresence_cases i b with ⟨e, he, -⟩ | ⟨l, hl, hlen, heq⟩
  · rw [he] at hb
    cases hb
  rw [heq] at hb
  cases hb
  obtain ⟨⟨w, p⟩, hc, hshows, hcount⟩ := h.exists_cell hl
  obtain rfl : p = none := hshows.presence_eq_none (hlen.trans hcount.symm)
  refine ⟨w, hc, h.setLane hl hc ⟨?_, hshows.values, ?_⟩⟩
  · exact ⟨hshows.sound.column, Presence.canonical_push hshows.sound.presence b⟩
  · show (l.presence.push b).toList = _
    rw [Presence.toList_push hshows.sound.presence, hshows.presence]
    simp

/-! ### Rows -/

theorem Tracks.sealRow (h : d.Tracks sh) (hd : d.sealRow = .ok d') :
    (∀ c ∈ sh.cells, c.whole?.isSome) ∧ d'.Tracks (sh.withRow (sh.cells.filterMap OpenCell.whole?)) := by
  rcases d.sealRow_cases with ⟨e, he, -⟩ | ⟨hall, heq⟩
  · rw [he] at hd
    cases hd
  rw [heq] at hd
  cases hd
  -- nothing is missing of the cell of any lane
  have hwhole : ∀ (i : Nat) (l : Lane) (c : OpenCell), d.lanes[i]? = some l → sh.cells[i]? = some c →
      ∃ v b, c = ⟨some v, some b⟩ := by
    intro i l c hl hc
    obtain ⟨c', hc', hshows, hcount⟩ := h.exists_cell hl
    obtain rfl : c = c' := Option.some.inj (hc.symm.trans hc')
    obtain ⟨hlen, hlen'⟩ := hall l (List.mem_of_getElem? hl)
    exact hshows.exists_whole (hcount ▸ hlen) (hcount ▸ hlen')
  have hsome : ∀ c ∈ sh.cells, c.whole?.isSome := by
    intro c hc
    obtain ⟨i, hi⟩ := List.getElem?_of_mem hc
    have hlt : i < d.lanes.length := h.width ▸ (List.getElem?_eq_some_iff.mp hi).1
    obtain ⟨v, b, rfl⟩ := hwhole i _ c (List.getElem?_eq_getElem hlt) hi
    rfl
  refine ⟨hsome, ?_, ?_, ?_, ?_⟩
  · show d.rows + 1 = (sh.sealed ++ [_]).length
    rw [List.length_append, List.length_singleton, h.rows]
  · intro row hrow
    rcases List.mem_append.mp hrow with hrow | hrow
    · exact h.widths row hrow
    · rw [List.mem_singleton.mp hrow, length_filterMap_of_isSome hsome]
      exact h.width
  · exact (List.length_replicate).trans h.width
  · intro i l c hl hc
    obtain ⟨whole, hcell, hshows, -⟩ := h.exists_cell hl
    obtain rfl : c = .blank := List.eq_of_mem_replicate (List.mem_of_getElem? hc)
    obtain ⟨v, b, heq⟩ := hwhole i l whole hl hcell
    have hrow : (sh.cells.filterMap OpenCell.whole?)[i]? = some (v, b) := by
      rw [getElem?_filterMap_of_isSome hsome, hcell, heq]
      rfl
    show l.Shows (Sheet.column i (sh.sealed ++ [_])) .blank
    rw [Sheet.column_concat sh.sealed hrow]
    rw [heq] at hshows
    exact hshows.close

theorem Tracks.abortRow (h : d.Tracks sh) : d.abortRow.Tracks sh.abandoned where
  rows := h.rows
  widths := fun row hrow => (h.widths row hrow).trans (List.length_map _).symm
  width := by
    show (List.replicate _ _).length = (d.lanes.map _).length
    rw [List.length_replicate, List.length_map, h.width]
  lanes := by
    intro i l c hl hc
    have hl : (d.lanes.map (·.truncate d.rows))[i]? = some l := hl
    rw [List.getElem?_map] at hl
    obtain ⟨m, hm, rfl⟩ := Option.map_eq_some_iff.mp hl
    obtain ⟨c', hc', hshows, hcount⟩ := h.exists_cell hm
    obtain rfl : c = .blank := List.eq_of_mem_replicate (List.mem_of_getElem? hc)
    rw [← hcount]
    exact hshows.truncate

theorem tracks_blank (hrows : d.rows = 0) (h : ∀ l ∈ d.lanes, l.Shows [] .blank) :
    d.Tracks (.blank d.lanes.length) where
  rows := hrows
  widths := fun row hrow => absurd hrow List.not_mem_nil
  width := List.length_replicate
  lanes := by
    intro i l c hl hc
    obtain rfl : c = .blank := List.eq_of_mem_replicate (List.mem_of_getElem? hc)
    exact h l (List.mem_of_getElem? hl)

theorem Tracks.reset (h : d.Tracks sh) : d.reset.Tracks (.blank sh.cells.length) := by
  have hlen : d.reset.lanes.length = sh.cells.length := (List.length_map _).trans h.width.symm
  rw [← hlen]
  refine tracks_blank rfl fun l hl => ?_
  obtain ⟨m, -, rfl⟩ := List.mem_map.mp hl
  exact Lane.shows_reset m

/-- The cell of a slot is a value and a presence bit, both of which are taken. -/
theorem of_appendCell {i : Nat} {slot : Option Value} (hd : d.appendCell i slot = (.ok (), d')) :
    ∃ l mid, d.lanes[i]? = some l ∧ d.appendValue i (slot.getD l.filler) = .ok mid ∧
      mid.recordPresence i slot.isSome = .ok d' := by
  rw [Draft.appendCell, Draft.lane] at hd
  cases hl : d.lanes[i]? with
  | none =>
    rw [hl] at hd
    cases hd
  | some l =>
    rw [hl] at hd
    simp only at hd
    cases hvalue : d.appendValue i (slot.getD l.filler) with
    | error e =>
      rw [hvalue] at hd
      cases hd
    | ok mid =>
      rw [hvalue] at hd
      simp only at hd
      cases hpresence : mid.recordPresence i slot.isSome with
      | error e =>
        rw [hpresence] at hd
        cases hd
      | ok last =>
        rw [hpresence] at hd
        cases hd
        exact ⟨l, mid, rfl, hvalue, hpresence⟩

theorem of_appendSlots_nil {i : Nat} (hd : d.appendSlots i [] = (.ok (), d')) : d.sealRow = .ok d' := by
  rw [Draft.appendSlots] at hd
  cases hseal : d.sealRow with
  | error e =>
    rw [hseal] at hd
    cases hd
  | ok last =>
    rw [hseal] at hd
    cases hd
    rfl

theorem of_appendSlots_cons {i : Nat} {slot : Option Value} {slots : List (Option Value)}
    (hd : d.appendSlots i (slot :: slots) = (.ok (), d')) :
    ∃ mid, d.appendCell i slot = (.ok (), mid) ∧ mid.appendSlots (i + 1) slots = (.ok (), d') := by
  rw [Draft.appendSlots] at hd
  cases hcell : d.appendCell i slot with
  | mk result mid =>
    rw [hcell] at hd
    cases result with
    | error e => cases hd
    | ok u => exact ⟨mid, rfl, hd⟩

/-- A row that is taken has a slot for each lane. -/
theorem of_appendRow {r : Row} (hd : d.appendRow r = (.ok (), d')) :
    r.width = d.lanes.length ∧ d.appendSlots 0 r.slots = (.ok (), d') := by
  rw [Draft.appendRow] at hd
  by_cases hwidth : r.width ≠ d.lanes.length
  · rw [if_pos hwidth] at hd
    cases hd
  rw [if_neg hwidth] at hd
  by_cases hfull : d.isFull = true
  · rw [if_pos hfull] at hd
    cases hd
  rw [if_neg hfull] at hd
  refine ⟨Decidable.not_not.mp hwidth, ?_⟩
  cases hslots : d.appendSlots 0 r.slots with
  | mk result mid =>
    rw [hslots] at hd
    cases result with
    | error e => cases hd
    | ok u =>
      cases hd
      rfl

/-- The cell of a slot that is taken. -/
theorem Tracks.appendCell (h : d.Tracks sh) {i : Nat} {slot : Option Value}
    (hd : d.appendCell i slot = (.ok (), d')) : ∃ sh_i, d.shapes[i]? = some sh_i ∧
      d'.Tracks { sh with cells := sh.cells.set i ⟨some (slot.getD sh_i.filler), some slot.isSome⟩ } := by
  obtain ⟨l, mid, hl, hvalue, hpresence⟩ := of_appendCell hd
  refine ⟨l.shape, d.shapes_getElem? hl, ?_⟩
  obtain ⟨p, hc, hmid⟩ := h.appendValue hvalue
  obtain ⟨w, hc', hlast⟩ := hmid.recordPresence hpresence
  -- the cell that gets its presence bit is the one that has got its value
  obtain rfl : w = some (slot.getD l.filler) := by
    have hset : (sh.cells.set i ⟨some (slot.getD l.filler), p⟩)[i]? = some ⟨w, none⟩ := hc'
    rw [List.getElem?_set_self (List.getElem?_eq_some_iff.mp hc).1] at hset
    cases hset
    rfl
  simp only [List.set_set] at hlast
  exact hlast

/-- Slots that are all taken, behind cells that were given before. -/
theorem Tracks.appendSlots (h : d.Tracks sh) {i : Nat} {slots : List (Option Value)}
    {given : List (Value × Bool)} (hi : given.length = i) (hlen : i + slots.length = d.lanes.length)
    (hgiven : sh.cells.take i = given.map fun c => ⟨some c.1, some c.2⟩)
    (hd : d.appendSlots i slots = (.ok (), d')) :
    d'.Tracks (sh.withRow (given ++ Sheet.rowCells (d.shapes.drop i) slots)) := by
  induction slots generalizing d sh i given with
  | nil =>
    have htracks := (h.sealRow (of_appendSlots_nil hd)).2
    have hall : sh.cells.take i = sh.cells := by
      apply List.take_of_length_le
      rw [h.width, ← hlen]
      exact Nat.le_refl _
    rw [← hall, hgiven, filterMap_whole?] at htracks
    have hnone : Sheet.rowCells (d.shapes.drop i) [] = [] := List.zipWith_nil_right
    rwa [hnone, List.append_nil]
  | cons slot slots ih =>
    obtain ⟨mid, hcell, hd⟩ := of_appendSlots_cons hd
    obtain ⟨shape, hshape, hmid⟩ := h.appendCell hcell
    have halike : d.Alike mid := by
      have := d.alike_appendCell i slot
      rwa [hcell] at this
    have hlt : i < sh.cells.length := by
      rw [h.width, ← hlen, List.length_cons]
      omega
    have hlanes : mid.lanes.length = d.lanes.length := by
      rw [← length_shapes, halike.shapes, length_shapes]
    have hcount : (given ++ [(slot.getD shape.filler, slot.isSome)]).length = i + 1 := by
      rw [List.length_append, List.length_singleton, hi]
    have hlen' : i + 1 + slots.length = mid.lanes.length := by
      rw [hlanes, ← hlen, List.length_cons]
      omega
    have hgiven' : (sh.cells.set i ⟨some (slot.getD shape.filler), some slot.isSome⟩).take (i + 1) =
        (given ++ [(slot.getD shape.filler, slot.isSome)]).map fun c => ⟨some c.1, some c.2⟩ := by
      rw [List.take_add_one, List.take_set_of_le (Nat.le_refl i), List.getElem?_set_self hlt, hgiven,
        List.map_append]
      rfl
    have hrest := ih hmid hcount hlen' hgiven' hd
    have hdrop : d.shapes.drop i = shape :: d.shapes.drop (i + 1) := by
      obtain ⟨hlt', rfl⟩ := List.getElem?_eq_some_iff.mp hshape
      exact List.drop_eq_getElem_cons hlt'
    rw [halike.shapes] at hrest
    rw [hdrop]
    simpa [Sheet.withRow, Sheet.rowCells] using hrest

/-- **A row that is taken is sealed**, with its values, and with the defaults or zero values in place of
the others; and nothing was open. -/
theorem Tracks.appendRow (h : d.Tracks sh) {r : Row} (hd : d.appendRow r = (.ok (), d')) :
    d'.Tracks (sh.withRow (Sheet.rowCells d.shapes r.slots)) := by
  obtain ⟨hwidth, hslots⟩ := of_appendRow hd
  have hlen : 0 + r.slots.length = d.lanes.length := (Nat.zero_add _).trans hwidth
  exact h.appendSlots (List.length_nil (α := Value × Bool)) hlen rfl hslots

/-! ### All calls -/

/-- **A call makes of the draft what it makes of the sheet.** -/
theorem Tracks.step (h : d.Tracks sh) (c : DraftCall) :
    (d.step c).2.Tracks (sh.after d.shapes c (d.step c).1) := by
  cases c with
  | value i v =>
    rw [Draft.step]
    cases hv : d.appendValue i v with
    | error e => exact h
    | ok d' =>
      obtain ⟨p, hc, hnew⟩ := h.appendValue hv
      show d'.Tracks { sh with cells := sh.cells.modify i _ }
      rwa [modify_eq_set hc]
  | presence i b =>
    rw [Draft.step]
    cases hb : d.recordPresence i b with
    | error e => exact h
    | ok d' =>
      obtain ⟨w, hc, hnew⟩ := h.recordPresence hb
      show d'.Tracks { sh with cells := sh.cells.modify i _ }
      rwa [modify_eq_set hc]
  | sealRow =>
    rw [Draft.step]
    cases hd : d.sealRow with
    | error e => exact h
    | ok d' => exact (h.sealRow hd).2
  | abortRow => exact h.abortRow
  | row r =>
    rw [Draft.step]
    cases hd : d.appendRow r with
    | mk result d' =>
      cases result with
      | ok u => exact h.appendRow hd
      | error e =>
        show d'.Tracks (if e.turnsAway then sh else sh.abandoned)
        rcases h.sound.abandons hd with ⟨hturns, rfl⟩ | ⟨hturns, htwin⟩
        · rw [if_pos hturns]
          exact h
        · rw [if_neg (Bool.eq_false_iff.mp hturns)]
          exact htwin.tracks h.abortRow
  | encode =>
    rw [Draft.step]
    cases hd : d.encode with
    | error e => exact h
    | ok bs => exact h
  | reset => exact h.reset

/-- The sheet after some calls. -/
def follow (d : Draft) (sh : Sheet) : List DraftCall → Sheet
  | [] => sh
  | c :: calls => follow (d.step c).2 (sh.after d.shapes c (d.step c).1) calls

/-- The sheet after some calls on a draft without rows. -/
def sheet (d : Draft) (calls : List DraftCall) : Sheet := d.follow (.blank d.lanes.length) calls

theorem Tracks.run (h : d.Tracks sh) (calls : List DraftCall) :
    (d.run calls).Tracks (d.follow sh calls) := by
  induction calls generalizing d sh with
  | nil => exact h
  | cons c calls ih => exact ih (h.step c)

/-- The lengths of the lanes say whether a row is open. -/
theorem Tracks.holds_iff (h : d.Tracks sh) : d.lanes.all (·.holds d.rows) = true ↔ sh.Idle := by
  rw [List.all_eq_true]
  constructor
  · intro hall c hc
    obtain ⟨i, hi⟩ := List.getElem?_of_mem hc
    have hlt : i < d.lanes.length := h.width ▸ (List.getElem?_eq_some_iff.mp hi).1
    have hl : d.lanes[i]? = some d.lanes[i] := List.getElem?_eq_getElem hlt
    obtain ⟨c', hc', hshows, hcount⟩ := h.exists_cell hl
    obtain rfl : c = c' := Option.some.inj (hi.symm.trans hc')
    have hlane := hall _ (List.getElem_mem hlt)
    simp only [Lane.holds, Bool.and_eq_true, beq_iff_eq, ← hcount] at hlane
    exact congrArg₂ OpenCell.mk (hshows.value_eq_none hlane.1) (hshows.presence_eq_none hlane.2)
  · intro hidle l hl
    obtain ⟨i, hi⟩ := List.getElem?_of_mem hl
    obtain ⟨c, hc, hshows, hcount⟩ := h.exists_cell hi
    have hblank := hidle c (List.mem_of_getElem? hc)
    subst hblank
    simp [Lane.holds, hshows.length_column, hshows.length_presence, hcount, OpenCell.blank]

/-- A page can be had when no row is open. -/
theorem Tracks.exists_encode (h : d.Tracks sh) (hidle : sh.Idle) : ∃ body, d.encode = .ok body := by
  rw [encode, h.holds_iff.mpr hidle]
  cases d.isEmpty with
  | true => exact ⟨_, rfl⟩
  | false => exact ⟨_, rfl⟩

/-- And only then. -/
theorem Tracks.encode_of_not_idle (h : d.Tracks sh) (hopen : ¬ sh.Idle) :
    d.encode = .error (.misuse .rowOpen) := by
  have hnot : d.lanes.all (·.holds d.rows) = false :=
    Bool.eq_false_iff.mpr fun hall => hopen (h.holds_iff.mp hall)
  rw [encode, hnot]
  rfl

/-- The page is that of the sealed rows. -/
theorem Tracks.encode_eq {sh' : Sheet} (h : d.Tracks sh) (h' : d'.Tracks sh') (halike : d.Alike d')
    (hsealed : sh'.sealed = sh.sealed) (hidle : sh.Idle) (hidle' : sh'.Idle) : d'.encode = d.encode := by
  -- what is open of the two sheets is the same, namely nothing
  have hcells : sh'.cells = sh.cells := by
    have hlen : sh'.cells.length = sh.cells.length := by
      rw [h.width, h'.width, ← length_shapes, ← length_shapes, halike.shapes]
    rw [List.eq_replicate_of_mem hidle, List.eq_replicate_of_mem hidle', hlen]
  have hsheet : sh' = sh := by
    cases sh
    cases sh'
    simp only at hsealed hcells
    rw [hsealed, hcells]
  rw [hsheet] at h'
  exact (h.twin h' halike).encode_eq

/-- Drafts that calls have led to are alike. -/
theorem alike_run_run (d : Draft) (calls calls' : List DraftCall) : (d.run calls).Alike (d.run calls') :=
  ⟨(d.alike_run calls').schema.trans (d.alike_run calls).schema.symm,
    (d.alike_run calls').limit.trans (d.alike_run calls).limit.symm,
    (d.alike_run calls').shapes.trans (d.alike_run calls).shapes.symm⟩

/-- What calls on a draft come to. -/
structure Accountable (d : Draft) : Prop where
  /-- After any calls the lanes hold what the sheet says. -/
  tracks : ∀ calls, (d.run calls).Tracks (d.sheet calls)
  /-- If two histories have sealed the same rows and have left no row open, they give the same page. -/
  page : ∀ calls calls', (d.sheet calls).sealed = (d.sheet calls').sealed → (d.sheet calls).Idle →
    (d.sheet calls').Idle → ∃ body, (d.run calls).encode = .ok body ∧ (d.run calls').encode = .ok body
  /-- A row that is taken is sealed, with its values, and the defaults or zero values of unset slots. -/
  takes : ∀ calls r bs, ((d.run calls).step (.row r)).1 = .ok bs →
    ((d.run calls).step (.row r)).2.Tracks ((d.sheet calls).withRow (Sheet.rowCells d.shapes r.slots))
  /-- Any other call that is refused changes nothing. -/
  keeps : ∀ calls c e, (∀ r, c ≠ .row r) → ((d.run calls).step c).1 = .error e →
    ((d.run calls).step c).2 = d.run calls
  /-- Nor does a row that is turned away. -/
  turnsAway : ∀ calls r e, ((d.run calls).step (.row r)).1 = .error e → e.turnsAway = true →
    ((d.run calls).step (.row r)).2 = d.run calls
  /-- A row that is refused for another reason leaves a draft which no call tells from the one whose
  open row was abandoned. -/
  abandons : ∀ calls r e, ((d.run calls).step (.row r)).1 = .error e → e.turnsAway = false → ∀ more,
    ((d.run calls).step (.row r)).2.results more = (d.run calls).abortRow.results more

/-- Calls that are refused change nothing, but for rows. -/
theorem step_of_error {c : DraftCall} {e : Failure} (hc : ∀ r, c ≠ .row r) (h : (d.step c).1 = .error e) :
    (d.step c).2 = d := by
  cases c with
  | value i v => exact orKept_of_error h
  | presence i b => exact orKept_of_error h
  | sealRow => exact orKept_of_error h
  | abortRow => cases h
  | row r => exact absurd rfl (hc r)
  | encode => rfl
  | reset => cases h

/-- A row that is refused gives its failure. -/
theorem appendRow_of_error {r : Row} {e : Failure} (h : (d.step (.row r)).1 = .error e) :
    d.appendRow r = (.error e, (d.step (.row r)).2) := by
  rw [Draft.step] at h ⊢
  cases hd : d.appendRow r with
  | mk result d' =>
    rw [hd] at h
    cases result with
    | ok u => cases h
    | error e' =>
      cases h
      rfl

theorem accountable_of_tracks (h : d.Tracks (.blank d.lanes.length)) : d.Accountable where
  tracks := h.run
  page := by
    intro calls calls' hsealed hidle hidle'
    obtain ⟨body, hbody⟩ := (h.run calls).exists_encode hidle
    refine ⟨body, hbody, ?_⟩
    rw [← hbody]
    exact (h.run calls).encode_eq (h.run calls') (d.alike_run_run calls calls') hsealed.symm hidle hidle'
  takes := by
    intro calls r bs hok
    have htracks := (h.run calls).step (.row r)
    rw [hok, (d.alike_run calls).shapes] at htracks
    exact htracks
  keeps := fun calls c e hc he => step_of_error hc he
  turnsAway := by
    intro calls r e he hturns
    rcases (h.run calls).sound.abandons (appendRow_of_error he) with ⟨-, hsame⟩ | ⟨hnot, -⟩
    · exact hsame
    · rw [hturns] at hnot
      cases hnot
  abandons := by
    intro calls r e he hturns more
    rcases (h.run calls).sound.abandons (appendRow_of_error he) with ⟨hnot, -⟩ | ⟨-, htwin⟩
    · rw [hturns] at hnot
      cases hnot
    · exact (htwin.results_eq more).symm

/-- A new draft has no rows, and nothing is open. -/
theorem tracks_make {s : Schema} {limit : Nat} (h : make s limit = .ok d) :
    d.Tracks (.blank d.lanes.length) := by
  have hholds := holds_make h
  refine tracks_blank hholds.count fun l hmem => ?_
  obtain ⟨i, hi⟩ := List.getElem?_of_mem hmem
  have hlane := hholds.lanes i l hi
  exact ⟨⟨hlane.sound, hlane.canonical⟩, hlane.column, hlane.presence⟩

/-- **A page depends only on the rows that were sealed**, for every finalized schema and every limit. -/
theorem accountable_of_finalized {s : Schema} (hs : s.Finalized) {limit : Nat} (hlimit : limit ≠ 0) :
    ∃ d, make s limit = .ok d ∧ d.schema = s ∧ d.limit = limit ∧ d.Accountable := by
  obtain ⟨layout, hl⟩ := Schema.layout_of_finalized hs
  have hmake : make s limit = .ok ⟨s, limit, 0, emptyLanes s layout⟩ := by
    rw [make, if_neg hlimit, hl]
    rfl
  exact ⟨_, hmake, rfl, rfl, accountable_of_tracks (tracks_make hmake)⟩

end Draft

end

/-! ### One page filled in two ways -/

namespace Draft

open scoped Builtin

/-- Two counters, of which the second one is not set, cell by cell. -/
def cellByCell : List DraftCall :=
  [.presence 0 true, .value 0 (.uint 3), .sealRow, .value 0 (.uint 7), .presence 0 false, .sealRow]

/-- The two as whole rows, with a row that is abandoned, a value that is refused and a row that is refused
in between. -/
def withDetours : List DraftCall :=
  [.value 0 (.uint 9), .abortRow, .row ((Row.blank Schema.counter).put 0 (some (.uint 3))),
    .value 0 (.text "nine"), .presence 0 true, .row (Row.blank Schema.counter),
    .row (Row.blank Schema.counter)]

theorem accountable_of_finalized_counter : Schema.counter.Finalized ∧ 4 ≠ 0 ∧
    ∃ d, make Schema.counter 4 = .ok d ∧
      (d.run cellByCell).encode = .ok [2, 1, 0, 0, 4, 1, 5, 3, 4] ∧
      d.results withDetours = [.ok [], .ok [], .ok [], .error (.kindMismatch "n" .uint64 .text), .ok [],
        .error (.misuse (.presenceRepeated 0)), .ok []] ∧
      (d.run withDetours).encode = .ok [2, 1, 0, 0, 4, 1, 5, 3, 4] := by
  have hlimit : 4 ≠ 0 := by decide
  obtain ⟨d, hmake, -, -, haccountable⟩ := accountable_of_finalized Schema.finalized_counter hlimit
  refine ⟨Schema.finalized_counter, hlimit, d, hmake, ?_⟩
  obtain rfl : (⟨Schema.counter, 4, 0, emptyLanes Schema.counter [(.uint64, .uint)]⟩ : Draft) = d :=
    Except.ok.inj hmake
  have hbody : (run ⟨Schema.counter, 4, 0, emptyLanes Schema.counter [(.uint64, .uint)]⟩
      cellByCell).encode = .ok [2, 1, 0, 0, 4, 1, 5, 3, 4] := by decide +kernel
  obtain ⟨body, hplain, hdetours⟩ := haccountable.page cellByCell withDetours (by decide +kernel)
    (by unfold Sheet.Idle; decide +kernel) (by unfold Sheet.Idle; decide +kernel)
  obtain rfl := Except.ok.inj (hbody.symm.trans hplain)
  exact ⟨hbody, by decide +kernel, hdetours⟩

end Draft
end Columnar
