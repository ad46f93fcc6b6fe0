import Columnar.Proofs.Page.Spelling

/-!
# What a draft holds

A draft with no open row holds a list of rows: in each lane the stored values and
the presence bits are those of the rows' cells.  Appending a row adds it to the list
or, when a cell is refused midway, takes back the cells before it, so that the draft
holds the rows it held.

## Main definitions

* `Lane.Holds`, `Draft.Holds` — the cells of a lane, the rows of a draft.
* `Lane.Over` — a lane holds some cells and perhaps more after them.
* `Draft.Takes` — the values of a row are of the lanes' storages.
* `Draft.HasRoom` — there is room for them behind those of some rows.
* `Draft.Accepts` — a draft refuses no cell of a row.

## Main results

* `Draft.Holds.appendRow` — a row is added if the draft accepts it, and else nothing is.
* `Draft.encode_eq_spell` — the body of a draft is that of its rows.
-/

namespace Columnar

namespace Lane

/-- What stays the same of a lane. -/
def shape (l : Lane) : Shape := ⟨l.field, l.kind, l.column.storage⟩

theorem shape_truncate (l : Lane) (n : Nat) : (l.truncate n).shape = l.shape := by
  simp [shape, Lane.truncate]

theorem shape_reset (l : Lane) : l.reset.shape = l.shape := by
  simp [shape, Lane.reset]

variable [TextHash]

/-- Value and presence of exactly these cells have been given. -/
structure Holds (l : Lane) (cells : List (Option Value)) : Prop where
  sound : l.column.Sound TextHash.digest
  canonical : l.presence.Canonical
  column : l.column.toList = l.shape.stored cells
  presence : l.presence.toList = cells.map Option.isSome

/-- Value and presence of these cells have been given, and perhaps of some after them. -/
structure Over (l : Lane) (cells : List (Option Value)) : Prop where
  sound : l.column.Sound TextHash.digest
  canonical : l.presence.Canonical
  column : l.column.toList.take cells.length = l.shape.stored cells
  presence : l.presence.toList.take cells.length = cells.map Option.isSome

variable {l : Lane} {cells : List (Option Value)}

theorem Holds.length_column (h : l.Holds cells) : l.column.length = cells.length := by
  rw [← Column.length_toList, h.column, Shape.stored, List.length_map]

theorem Holds.length_presence (h : l.Holds cells) : l.presence.length = cells.length := by
  rw [← Presence.length_toList, h.presence, List.length_map]

/-- The cells of a lane and one more are more than the cells of the lane. -/
theorem Holds.over_of_append {before after : List (Option Value)} (h : l.Holds (before ++ after)) :
    l.Over before where
  sound := h.sound
  canonical := h.canonical
  column := by
    rw [h.column, Shape.stored, List.map_append]
    exact List.take_left' (List.length_map _)
  presence := by
    rw [h.presence, List.map_append]
    exact List.take_left' (List.length_map _)

/-- Cutting a lane back takes the cells after the given ones away. -/
theorem Over.truncate (h : l.Over cells) : (l.truncate cells.length).Holds cells where
  sound := Column.sound_truncate h.sound _
  canonical := Presence.canonical_truncate h.canonical _
  column := by
    show (l.column.truncate _).toList = _
    rw [Column.toList_truncate h.sound, h.column]
    simp only [shape, Lane.truncate, Column.storage_truncate]
  presence := by
    show (l.presence.truncate _).toList = _
    rw [Presence.toList_truncate h.canonical, h.presence]

theorem holds_reset (l : Lane) : l.reset.Holds [] where
  sound := Column.sound_empty _ _
  canonical := Presence.canonical_empty
  column := Column.toList_empty _
  presence := rfl

/-- The bytes of a lane's values are what its cells leave room behind. -/
theorem Holds.overflow?_eq (h : l.Holds cells) (v : Value) :
    Column.overflow? l.column.toList v = Column.overflow? (l.shape.stored cells) v := by
  rw [h.column]

/-- A value of the lane's storage and a presence bit make one more cell. -/
theorem Holds.append (h : l.Holds cells) {slot : Option Value} {column : Column}
    (hc : l.column.append TextHash.digest (slot.getD l.filler) = .ok column) :
    ({ l with column, presence := l.presence.push slot.isSome } : Lane).Holds (cells ++ [slot]) ∧
      ({ l with column, presence := l.presence.push slot.isSome } : Lane).shape = l.shape := by
  have hstorage := (Column.storage_append hc).2
  have hshape : ({ l with column, presence := l.presence.push slot.isSome } : Lane).shape = l.shape := by
    simp only [shape, hstorage]
  refine ⟨⟨Column.sound_append h.sound hc, Presence.canonical_push h.canonical _, ?_, ?_⟩, hshape⟩
  · rw [hshape, Column.toList_append h.sound hc, h.column, Shape.stored, Shape.stored, List.map_append]
    rfl
  · rw [Presence.toList_push h.canonical, h.presence, List.map_append]
    rfl

end Lane

namespace Draft

variable {d : Draft} {rows : List (List (Option Value))}

/-- Field, kind and storage of each lane. -/
def shapes (d : Draft) : List Lane.Shape := d.lanes.map Lane.shape

/-- No row is open, and the lanes hold the cells of the rows. -/
structure Holds [TextHash] (d : Draft) (rows : List (List (Option Value))) : Prop where
  count : d.rows = rows.length
  lanes : ∀ (i : Nat) (l : Lane), d.lanes[i]? = some l → l.Holds (Page.column i rows)

/-- Two drafts of one schema with one limit. -/
structure Alike (d d' : Draft) : Prop where
  schema : d'.schema = d.schema
  limit : d'.limit = d.limit
  shapes : d'.shapes = d.shapes

theorem Alike.refl (d : Draft) : d.Alike d := ⟨rfl, rfl, rfl⟩

theorem Alike.trans {d d' d'' : Draft} (h : d.Alike d') (h' : d'.Alike d'') : d.Alike d'' :=
  ⟨h'.schema.trans h.schema, h'.limit.trans h.limit, h'.shapes.trans h.shapes⟩

theorem length_shapes (d : Draft) : d.shapes.length = d.lanes.length := List.length_map _

theorem shapes_getElem? (d : Draft) {i : Nat} {l : Lane} (h : d.lanes[i]? = some l) :
    d.shapes[i]? = some l.shape := by
  rw [shapes, List.getElem?_map, h]
  rfl

theorem alike_setLane {i : Nat} {l l' : Lane} (h : d.lanes[i]? = some l) (hshape : l'.shape = l.shape) :
    d.Alike (d.setLane i l') := by
  refine ⟨rfl, rfl, ?_⟩
  show (d.lanes.set i l').map Lane.shape = d.lanes.map Lane.shape
  rw [List.map_set, hshape]
  apply List.ext_getElem?
  intro j
  rw [List.getElem?_set]
  split
  · next hij =>
    subst hij
    have hlt := (List.getElem?_eq_some_iff.mp h).1
    rw [if_pos (by simpa using hlt), List.getElem?_map, h]
    rfl
  · rfl

/-! ### Rows that fit -/

/-- The value that a row stores in a lane is one the lane takes. -/
def TakesAt (sh : Lane.Shape) (i : Nat) (slots : List (Option Value)) : Prop :=
  (slots[i]?.join.getD sh.filler).storage = sh.storage

/-- So it is in all lanes. -/
def Takes (shapes : List Lane.Shape) (slots : List (Option Value)) : Prop :=
  ∀ (i : Nat) (sh : Lane.Shape), shapes[i]? = some sh → TakesAt sh i slots

/-- Rows that are taken for a finalized schema are its well-typed rows. -/
theorem takes_iff_admits {s : Schema} {layout : List (Kind × Storage)} (hs : s.Finalized)
    (hl : s.layout = .ok layout) {slots : List (Option Value)} :
    slots.length = (s.shapes layout).length ∧ Takes (s.shapes layout) slots ↔ s.Admits slots := by
  rw [Page.length_shapes hl]
  refine ⟨fun h => ⟨h.1, ?_⟩, fun h => ⟨h.length, ?_⟩⟩
  · intro i f v hf hv
    obtain ⟨sh, hsh, -, -, hstorage⟩ := Page.shapes_getElem? hl hf
    have htakes := h.2 i sh hsh
    rw [TakesAt, hv] at htakes
    rw [hstorage]
    exact congrArg some htakes.symm
  · intro i sh hi
    obtain ⟨hf, -, hstorage⟩ := Page.of_shapes_getElem? hl hi
    unfold TakesAt
    cases hv : slots[i]?.join with
    | none => exact Page.storage_filler hs hl hi
    | some v =>
      have hsame := h.storage i sh.field v hf (Option.join_eq_some_iff.mp hv)
      rw [hstorage] at hsame
      exact (Option.some.inj hsame).symm

/-- Behind some rows there is room in a lane for the value that another one stores there. -/
def RoomAt (sh : Lane.Shape) (i : Nat) (rows : List (List (Option Value)))
    (slots : List (Option Value)) : Prop :=
  Column.overflow? (sh.stored (Page.column i rows)) (slots[i]?.join.getD sh.filler) = none

/-- So there is in all lanes. -/
def HasRoom (shapes : List Lane.Shape) (rows : List (List (Option Value)))
    (slots : List (Option Value)) : Prop :=
  ∀ (i : Nat) (sh : Lane.Shape), shapes[i]? = some sh → RoomAt sh i rows slots

instance (sh : Lane.Shape) (i : Nat) (rows : List (List (Option Value))) (slots : List (Option Value)) :
    Decidable (RoomAt sh i rows slots) := inferInstanceAs (Decidable (_ = _))

instance (shapes : List Lane.Shape) (rows : List (List (Option Value))) (slots : List (Option Value)) :
    Decidable (HasRoom shapes rows slots) :=
  decidable_of_iff (∀ i : Fin shapes.length, RoomAt shapes[i] i rows slots)
    ⟨fun h i sh hi => by
      obtain ⟨hlt, rfl⟩ := List.getElem?_eq_some_iff.mp hi
      exact h ⟨i, hlt⟩,
    fun h i => h i _ (List.getElem?_eq_getElem i.isLt)⟩

/-! ### Starting anew -/

theorem make_eq {s : Schema} {layout : List (Kind × Storage)} (hl : s.layout = .ok layout) {limit : Nat}
    (hlimit : limit ≠ 0) : make s limit = .ok ⟨s, limit, 0, emptyLanes s layout⟩ := by
  rw [make, if_neg hlimit, hl]
  rfl

/-- What is known of a new draft: it is for a schema that has a layout, and it can take a row. -/
theorem of_make {s : Schema} {limit : Nat} (h : make s limit = .ok d) :
    0 < limit ∧ d.schema = s ∧ d.limit = limit ∧
      ∃ layout, s.layout = .ok layout ∧ d.shapes = s.shapes layout := by
  unfold make at h
  split at h
  · cases h
  · next hlimit =>
    obtain ⟨layout, hl, h⟩ := exists_of_bind h
    cases h
    refine ⟨Nat.pos_of_ne_zero hlimit, rfl, rfl, layout, hl, ?_⟩
    simp only [shapes, emptyLanes, Schema.shapes, List.map_zipWith]
    refine congrArg (fun g => List.zipWith g s.fields layout) (funext fun f => funext ?_)
    intro entry
    simp [Lane.shape]

theorem alike_reset (d : Draft) : d.Alike d.reset := by
  refine ⟨rfl, rfl, ?_⟩
  show (d.lanes.map Lane.reset).map Lane.shape = d.lanes.map Lane.shape
  rw [List.map_map]
  exact List.map_congr_left fun l _ => Lane.shape_reset l

variable [TextHash]

theorem holds_make {s : Schema} {limit : Nat} (h : make s limit = .ok d) : d.Holds [] := by
  unfold make at h
  split at h
  · cases h
  · obtain ⟨layout, hl, h⟩ := exists_of_bind h
    cases h
    refine ⟨rfl, ?_⟩
    intro i l hi
    simp only [emptyLanes, List.getElem?_zipWith] at hi
    split at hi
    · cases hi
      exact ⟨Column.sound_empty _ _, Presence.canonical_empty, Column.toList_empty _, rfl⟩
    · cases hi

theorem holds_reset (d : Draft) : d.reset.Holds [] := by
  refine ⟨rfl, ?_⟩
  intro i l hi
  have hi : (d.lanes.map Lane.reset)[i]? = some l := hi
  rw [List.getElem?_map] at hi
  obtain ⟨l', -, rfl⟩ := Option.map_eq_some_iff.mp hi
  exact Lane.holds_reset l'

/-! ### One more row -/

/-- The cells of a row have been given in the lanes before one. -/
structure Filling (d : Draft) (rows : List (List (Option Value))) (slots : List (Option Value))
    (field : Nat) : Prop where
  count : d.rows = rows.length
  filled : ∀ (i : Nat) (l : Lane), d.lanes[i]? = some l → i < field →
    l.Holds (Page.column i rows ++ [slots[i]?.join])
  waiting : ∀ (i : Nat) (l : Lane), d.lanes[i]? = some l → field ≤ i → l.Holds (Page.column i rows)

variable {slots : List (Option Value)} {field : Nat}

theorem Holds.filling (h : d.Holds rows) (slots : List (Option Value)) : d.Filling rows slots 0 where
  count := h.count
  filled := fun i _ _ hi => absurd hi (Nat.not_lt_zero i)
  waiting := fun i l hl _ => h.lanes i l hl

/-- Abandoning an open row takes its cells back. -/
theorem Filling.abortRow (h : d.Filling rows slots field) :
    d.abortRow.Holds rows ∧ d.Alike d.abortRow := by
  refine ⟨⟨h.count, ?_⟩, rfl, rfl, ?_⟩
  · intro i l hi
    have hi : (d.lanes.map (·.truncate d.rows))[i]? = some l := hi
    rw [List.getElem?_map] at hi
    obtain ⟨l', hl', rfl⟩ := Option.map_eq_some_iff.mp hi
    have hlen : d.rows = (Page.column i rows).length := h.count.trans (Page.length_column i rows).symm
    rw [hlen]
    refine Lane.Over.truncate ?_
    -- a lane before the refused cell has one cell too many, the others have none
    by_cases hlt : i < field
    · exact (h.filled i l' hl' hlt).over_of_append
    · have hwaiting := h.waiting i l' hl' (Nat.not_lt.mp hlt)
      rw [← List.append_nil (Page.column i rows)] at hwaiting
      exact hwaiting.over_of_append
  · show (d.lanes.map (·.truncate d.rows)).map Lane.shape = d.lanes.map Lane.shape
    rw [List.map_map]
    exact List.map_congr_left fun l _ => Lane.shape_truncate l _

/-- The value of the next lane is given or refused as the column of the lane says. -/
theorem Filling.appendValue_eq (h : d.Filling rows slots field) (hfull : d.isFull = false) {l : Lane}
    (hl : d.lanes[field]? = some l) (v : Value) : d.appendValue field v =
      match l.column.append TextHash.digest v with
      | .ok column => .ok (d.setLane field { l with column })
      | .error .storage => .error (.kindMismatch l.field.name l.kind v.storage)
      | .error (.overflow store) => .error (.overflow store) := by
  have hholds := h.waiting field l hl (Nat.le_refl _)
  have hlane : d.lane field = .ok l := by rw [lane, hl]
  have hlength : l.column.length = d.rows := by
    rw [hholds.length_column, Page.length_column, h.count]
  rw [appendValue, hfull, hlane]
  simp only [Bool.false_eq_true, if_false, bind, Except.bind, hlength, ne_eq, not_true_eq_false]
  cases l.column.append TextHash.digest v with
  | ok column => rfl
  | error cause => cases cause <;> rfl

/-- The cell of the next lane is given if the lane takes it and has room for it. -/
theorem Filling.appendCell (h : d.Filling rows slots field) (hfull : d.isFull = false) {l : Lane}
    (hl : d.lanes[field]? = some l) (htakes : TakesAt l.shape field slots)
    (hroom : RoomAt l.shape field rows slots) :
    ∃ d', d.appendCell field slots[field]?.join = (.ok (), d') ∧ d'.Filling rows slots (field + 1) ∧
      d.Alike d' ∧ d'.lanes.length = d.lanes.length := by
  have hholds := h.waiting field l hl (Nat.le_refl _)
  have hlane : d.lane field = .ok l := by rw [lane, hl]
  have hlt : field < d.lanes.length := (List.getElem?_eq_some_iff.mp hl).1
  obtain ⟨column, hcolumn⟩ := Column.exists_append hholds.sound htakes
    ((hholds.overflow?_eq _).trans hroom)
  obtain ⟨hnew, hshape⟩ := hholds.append hcolumn
  generalize hl' : ({ l with column, presence := l.presence.push slots[field]?.join.isSome } : Lane) =
    l' at hnew hshape
  have hvalue : d.appendValue field (slots[field]?.join.getD l.filler) =
      .ok (d.setLane field { l with column }) := by
    have hcolumn' : l.column.append TextHash.digest (slots[field]?.join.getD l.filler) =
      .ok column := hcolumn
    rw [h.appendValue_eq hfull hl, hcolumn']
  have hpresence : (d.setLane field { l with column }).recordPresence field
      slots[field]?.join.isSome = .ok (d.setLane field l') := by
    have hmid : (d.setLane field { l with column }).lane field = .ok { l with column } := by
      rw [lane, setLane]
      simp [hlt]
    rw [recordPresence, hmid]
    simp [bind, Except.bind, hholds.length_presence, setLane, h.count, ← hl']
    rfl
  refine ⟨d.setLane field l', ?_, ⟨h.count, ?_, ?_⟩, alike_setLane hl hshape, List.length_set ..⟩
  · rw [Draft.appendCell, hlane]
    simp only [hvalue, hpresence]
  · intro i m hm hi
    rw [setLane, List.getElem?_set] at hm
    split at hm
    · next hfield =>
      subst hfield
      cases hm
      exact hnew
    · next hne => exact h.filled i m hm (by omega)
  · intro i m hm hi
    rw [setLane, List.getElem?_set_ne (by omega)] at hm
    exact h.waiting i m hm (by omega)

/-- Nothing changes if the lane refuses it.  If it would take it, there is no room for it. -/
theorem Filling.appendCell_refused (h : d.Filling rows slots field) (hfull : d.isFull = false) {l : Lane}
    (hl : d.lanes[field]? = some l)
    (hnot : ¬ (TakesAt l.shape field slots ∧ RoomAt l.shape field rows slots)) :
    ∃ e, d.appendCell field slots[field]?.join = (.error e, d) ∧
      (TakesAt l.shape field slots → ∃ store, e = .overflow store) := by
  have hholds := h.waiting field l hl (Nat.le_refl _)
  have hlane : d.lane field = .ok l := by rw [lane, hl]
  have hvalue := h.appendValue_eq hfull hl (slots[field]?.join.getD l.filler)
  have happended := Column.appended hholds.sound (slots[field]?.join.getD l.filler)
  rw [Draft.appendCell, hlane]
  simp only [hvalue]
  generalize l.column.append TextHash.digest (slots[field]?.join.getD l.filler) = result at happended
  cases happended with
  | storage hv => exact ⟨_, rfl, fun htakes => absurd htakes hv⟩
  | @overflow store => exact ⟨_, rfl, fun _ => ⟨store, rfl⟩⟩
  | taken hv hroom => exact absurd ⟨hv, (hholds.overflow?_eq _).symm.trans hroom⟩ hnot

/-- A row all of whose cells have been given can be closed. -/
theorem Filling.sealRow (h : d.Filling rows slots field) (hfull : d.isFull = false)
    (hfield : d.lanes.length ≤ field) :
    ∃ d', d.sealRow = .ok d' ∧ d'.Holds (rows ++ [slots]) ∧ d.Alike d' := by
  have hall : ∀ (i : Nat) (l : Lane), d.lanes[i]? = some l →
      l.Holds (Page.column i (rows ++ [slots])) := by
    intro i l hl
    have hlt := (List.getElem?_eq_some_iff.mp hl).1
    have hfilled := h.filled i l hl (by omega)
    rwa [Page.column, List.map_append]
  have hnone : d.lanes.find? (fun l => !l.holds (d.rows + 1)) = none := by
    refine List.find?_eq_none.mpr fun l hl => ?_
    obtain ⟨i, hi⟩ := List.getElem?_of_mem hl
    have hholds := hall i l hi
    simp [Lane.holds, hholds.length_column, hholds.length_presence, h.count]
  refine ⟨{ d with rows := d.rows + 1 }, ?_, ⟨?_, hall⟩, rfl, rfl, rfl⟩
  · rw [Draft.sealRow, hfull, hnone]
    rfl
  · rw [List.length_append, List.length_singleton, ← h.count]

/-- What appending the cells of a row comes to. -/
theorem Filling.appendSlots (h : d.Filling rows slots field) (hfull : d.isFull = false)
    (hlen : slots.length = d.lanes.length) {rest : List (Option Value)} (hrest : slots.drop field = rest) :
    (∃ d', d.appendSlots field rest = (.ok (), d') ∧ d'.Holds (rows ++ [slots]) ∧ d.Alike d' ∧
        ∀ (i : Nat) (sh : Lane.Shape), d.shapes[i]? = some sh → field ≤ i →
          TakesAt sh i slots ∧ RoomAt sh i rows slots) ∨
      ∃ e d' reached, d.appendSlots field rest = (.error e, d') ∧ d'.Filling rows slots reached ∧
        d.Alike d' ∧ ¬ (Takes d.shapes slots ∧ HasRoom d.shapes rows slots) ∧
        (Takes d.shapes slots → ∃ store, e = .overflow store) := by
  induction rest generalizing d field with
  | nil =>
    have hle : d.lanes.length ≤ field := by
      rw [← hlen]
      exact List.drop_eq_nil_iff.mp hrest
    obtain ⟨d', hseal, hholds, halike⟩ := h.sealRow hfull hle
    refine Or.inl ⟨d', by rw [Draft.appendSlots, hseal], hholds, halike, ?_⟩
    intro i sh hi hge
    have hlt := (List.getElem?_eq_some_iff.mp hi).1
    rw [length_shapes] at hlt
    omega
  | cons slot rest ih =>
    have hlt : field < slots.length := by
      by_contra hge
      rw [List.drop_eq_nil_of_le (Nat.not_lt.mp hge)] at hrest
      cases hrest
    have hslot : slots[field]?.join = slot := by
      rw [List.drop_eq_getElem_cons hlt] at hrest
      rw [List.getElem?_eq_getElem hlt]
      exact (List.cons.inj hrest).1
    have hnext : slots.drop (field + 1) = rest := by
      rw [List.drop_eq_getElem_cons hlt] at hrest
      exact (List.cons.inj hrest).2
    have hl : d.lanes[field]? = some d.lanes[field] := List.getElem?_eq_getElem (hlen ▸ hlt)
    generalize d.lanes[field] = l at hl
    have hshape := d.shapes_getElem? hl
    -- the induction goes on only where the cell is taken
    by_cases htaken : TakesAt l.shape field slots ∧ RoomAt l.shape field rows slots
    · obtain ⟨mid, hcell, hfilling, halike, hlanes⟩ := h.appendCell hfull hl htaken.1 htaken.2
      have hfull' : mid.isFull = false := by
        rw [isFull, halike.limit, hfilling.count, ← h.count]
        exact hfull
      rw [hslot] at hcell
      rw [Draft.appendSlots, hcell]
      rcases ih hfilling hfull' (hlanes ▸ hlen) hnext with
        ⟨d', hrun, hholds, halike', hall⟩ | ⟨e, d', reached, hrun, hfilling', halike', hnot, hcause⟩
      · refine Or.inl ⟨d', hrun, hholds, halike.trans halike', ?_⟩
        intro i sh hi hge
        by_cases hi' : i = field
        · subst hi'
          rw [hshape] at hi
          cases hi
          exact htaken
        · exact hall i sh (halike.shapes ▸ hi) (by omega)
      · rw [halike.shapes] at hnot hcause
        exact Or.inr ⟨e, d', reached, hrun, hfilling', halike.trans halike', hnot, hcause⟩
    · obtain ⟨e, hcell, hcause⟩ := h.appendCell_refused hfull hl htaken
      rw [hslot] at hcell
      refine Or.inr ⟨e, d, field, ?_, h, Alike.refl d, ?_, fun htakes => hcause (htakes field _ hshape)⟩
      · rw [Draft.appendSlots, hcell]
      · exact fun hall => htaken ⟨hall.1 field _ hshape, hall.2 field _ hshape⟩

/-- A draft that holds some rows refuses no cell of another one. -/
def Accepts (d : Draft) (rows : List (List (Option Value))) (slots : List (Option Value)) : Prop :=
  slots.length = d.lanes.length ∧ d.isFull = false ∧ Takes d.shapes slots ∧ HasRoom d.shapes rows slots

/-- **A row is added to a draft if the draft takes it and has room for it, and else nothing is.**  Only
for want of room is a row refused that the draft takes. -/
theorem Holds.appendRow (h : d.Holds rows) (r : Row) :
    (∃ d', d.appendRow r = (.ok (), d') ∧ d'.Holds (rows ++ [r.slots]) ∧ d.Alike d' ∧
        d.Accepts rows r.slots) ∨
      ∃ e d', d.appendRow r = (.error e, d') ∧ d'.Holds rows ∧ d.Alike d' ∧
        ¬ d.Accepts rows r.slots ∧
        (r.width = d.lanes.length → d.isFull = false → Takes d.shapes r.slots →
          ∃ store, e = .overflow store) := by
  by_cases hwidth : r.width ≠ d.lanes.length
  · exact Or.inr ⟨_, d, by rw [Draft.appendRow, if_pos hwidth], h, Alike.refl d,
      fun hall => hwidth hall.1, fun hsame => absurd hsame hwidth⟩
  by_cases hfull : d.isFull = true
  · have hnot : d.isFull ≠ false := by rw [hfull]; decide
    exact Or.inr ⟨_, d, by rw [Draft.appendRow, if_neg hwidth, if_pos hfull], h, Alike.refl d,
      fun hall => hnot hall.2.1, fun _ hopen => absurd hopen hnot⟩
  have hwidth' : r.slots.length = d.lanes.length := Decidable.not_not.mp hwidth
  have hfull' : d.isFull = false := Bool.eq_false_iff.mpr hfull
  rw [Draft.appendRow, if_neg hwidth, if_neg hfull]
  rcases (h.filling r.slots).appendSlots hfull' hwidth' rfl with
    ⟨d', hrun, hholds, halike, hall⟩ | ⟨e, d', reached, hrun, hfilling, halike, hnot, hcause⟩
  · have hrun' : d.appendSlots 0 r.slots = (.ok (), d') := hrun
    rw [hrun']
    exact Or.inl ⟨d', rfl, hholds, halike, hwidth', hfull',
      fun i sh hi => (hall i sh hi (Nat.zero_le i)).1, fun i sh hi => (hall i sh hi (Nat.zero_le i)).2⟩
  · have hrun' : d.appendSlots 0 r.slots = (.error e, d') := hrun
    obtain ⟨habort, halike'⟩ := hfilling.abortRow
    rw [hrun']
    exact Or.inr ⟨e, _, rfl, habort, halike.trans halike', fun h => hnot h.2.2, fun _ _ => hcause⟩

/-! ### The body of a draft -/

theorem encodeAt_eq {l : Lane} {cells : List (Option Value)} (h : l.Holds cells) (index : Nat) :
    l.encodeAt index = l.shape.spellAt index cells := by
  have hpayload : l.presence.toBytes ++ l.column.encode = l.shape.payload cells := by
    rw [Presence.toBytes_eq_pack h.canonical, h.presence, Column.encode_eq_spell h.sound, h.column]
    rfl
  simp only [Lane.encodeAt, Lane.Shape.spellAt, hpayload]
  rfl

theorem sectionsFrom_eq {lanes : List Lane} {field : Nat}
    (h : ∀ (j : Nat) (l : Lane), lanes[j]? = some l → l.Holds (Page.column (field + j) rows)) :
    sectionsFrom field lanes = Page.spellFrom field rows (lanes.map Lane.shape) := by
  induction lanes generalizing field with
  | nil => rfl
  | cons l lanes ih =>
    have hrest := @ih (field + 1) fun j m hj => by
      have hshift : field + 1 + j = field + (j + 1) := by omega
      exact hshift ▸ h (j + 1) m hj
    rw [sectionsFrom, List.map_cons, Page.spellFrom, encodeAt_eq (h 0 l rfl), hrest]
    rfl

theorem Holds.all_holds (h : d.Holds rows) : d.lanes.all (·.holds d.rows) = true := by
  apply List.all_eq_true.mpr
  intro l hl
  obtain ⟨i, hi⟩ := List.getElem?_of_mem hl
  have hholds := h.lanes i l hi
  simp [Lane.holds, hholds.length_column, hholds.length_presence, h.count]

/-- **The body of a draft is that of its rows.** -/
theorem encode_eq_spell (h : d.Holds rows) (hrows : rows ≠ []) :
    d.encode = .ok (Page.spell d.shapes rows) := by
  have hempty : d.isEmpty = false := by
    rw [isEmpty, h.count]
    exact beq_false_of_ne fun hlen => hrows (List.length_eq_zero_iff.mp hlen)
  have hsections : sectionsFrom 0 d.lanes = Page.spellFrom 0 rows (d.lanes.map Lane.shape) :=
    sectionsFrom_eq fun j l hj => (Nat.zero_add j).symm ▸ h.lanes j l hj
  rw [encode, h.all_holds, hempty, hsections, h.count, Page.spell, length_shapes]
  rfl

end Draft
end Columnar
