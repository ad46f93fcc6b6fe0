import Columnar.Proofs.Page.Draft

/-!
# Drafts that cannot be told apart

Two drafts are twins when their lanes amount to the same values and presence bits.
Places in a store and in the table of hashes may differ, as they do between a draft
whose open row was abandoned and one that never had it; no call tells twins apart.

A row that is refused leaves the cells before the refused one until it is abandoned.
These lie behind the sealed rows, so abandoning comes to the same whether the row was
tried or not.

## Main definitions

* `DraftCall`, `Draft.step`, `Draft.results` — calls on a draft, and what they give.
* `Draft.Twin` — the lanes of two drafts amount to the same.
* `Draft.AgreesBelow` — they do as far as the sealed rows are concerned.

## Main results

* `Draft.alike_run` — schema, limit and the kinds of the lanes stay.
* `Draft.Twin.step` — a call gives the same on twins, and leaves twins.
* `Draft.Sound.abandons` — a row that is refused midway comes to abandoning the open one.
-/

namespace Columnar

/-- A call on a draft. -/
inductive DraftCall where
  | value (field : Nat) (v : Value)
  | presence (field : Nat) (present : Bool)
  | sealRow
  | abortRow
  | row (r : Row)
  | encode
  | reset

/-- A row is turned away before any of its cells is looked at: it has not as many slots as there are
lanes, or the draft is full. -/
def Failure.turnsAway : Failure → Bool
  | .columnCountMismatch .. | .pageFull => true
  | _ => false

namespace Draft

/-- What was asked for, or the draft as it was. -/
def orKept (d : Draft) : Except Failure Draft → Except Failure (List UInt8) × Draft
  | .ok d' => (.ok [], d')
  | .error e => (.error e, d)

theorem recordPresence_eq (d : Draft) (i : Nat) (b : Bool) : d.recordPresence i b =
    match d.lanes[i]? with
    | none => .error (.outOfRange .field i d.lanes.length)
    | some l =>
      if l.presence.length ≠ d.rows then .error (.misuse (.presenceRepeated i)) else
        .ok (d.setLane i { l with presence := l.presence.push b }) := by
  rw [recordPresence, lane]
  cases d.lanes[i]? with
  | none => rfl
  | some l =>
    simp only [bind, Except.bind]
    by_cases hlen : l.presence.length ≠ d.rows
    · rw [if_pos hlen, if_pos hlen]
      rfl
    · rw [if_neg hlen, if_neg hlen]
      rfl

/-- A presence bit is refused, or it is the next one of its lane. -/
theorem recordPresence_cases (d : Draft) (i : Nat) (b : Bool) :
    (∃ e, d.recordPresence i b = .error e ∧ e.turnsAway = false) ∨
      ∃ l, d.lanes[i]? = some l ∧ l.presence.length = d.rows ∧
        d.recordPresence i b = .ok (d.setLane i { l with presence := l.presence.push b }) := by
  rw [recordPresence_eq]
  cases hl : d.lanes[i]? with
  | none => exact Or.inl ⟨_, rfl, rfl⟩
  | some l =>
    simp only
    by_cases hlen : l.presence.length ≠ d.rows
    · rw [if_pos hlen]
      exact Or.inl ⟨_, rfl, rfl⟩
    · rw [if_neg hlen]
      exact Or.inr ⟨l, rfl, Decidable.not_not.mp hlen, rfl⟩

/-- A row is not closed, or all its cells are there. -/
theorem sealRow_cases (d : Draft) :
    (∃ e, d.sealRow = .error e ∧ (d.isFull = false → e.turnsAway = false)) ∨
      (∀ l ∈ d.lanes, l.column.length = d.rows + 1 ∧ l.presence.length = d.rows + 1) ∧
        d.sealRow = .ok { d with rows := d.rows + 1 } := by
  rw [sealRow]
  by_cases hfull : d.isFull = true
  · rw [if_pos hfull]
    refine Or.inl ⟨_, rfl, fun hnot => ?_⟩
    rw [hfull] at hnot
    cases hnot
  rw [if_neg hfull]
  cases hf : d.lanes.find? fun l => !l.holds (d.rows + 1) with
  | some l => exact Or.inl ⟨_, rfl, fun _ => rfl⟩
  | none =>
    refine Or.inr ⟨fun l hl => ?_, rfl⟩
    have hholds := List.find?_eq_none.mp hf l hl
    simpa [Lane.holds] using hholds

theorem alike_orKept {d : Draft} {x : Except Failure Draft} (h : ∀ d', x = .ok d' → d.Alike d') :
    d.Alike (d.orKept x).2 := by
  cases x with
  | error e => exact Alike.refl d
  | ok d' => exact h d' rfl

theorem orKept_of_error {d : Draft} {x : Except Failure Draft} {e : Failure} (h : (d.orKept x).1 = .error e) :
    (d.orKept x).2 = d := by
  cases x with
  | error e' => rfl
  | ok d' => cases h

theorem alike_recordPresence {d d' : Draft} {i : Nat} {b : Bool} (h : d.recordPresence i b = .ok d') :
    d.Alike d' := by
  rcases d.recordPresence_cases i b with ⟨e, he, -⟩ | ⟨l, hl, -, heq⟩
  · rw [he] at h
    cases h
  · rw [heq] at h
    cases h
    exact alike_setLane hl rfl

theorem alike_sealRow {d d' : Draft} (h : d.sealRow = .ok d') : d.Alike d' := by
  rcases d.sealRow_cases with ⟨e, he, -⟩ | ⟨-, heq⟩
  · rw [he] at h
    cases h
  · rw [heq] at h
    cases h
    exact ⟨rfl, rfl, rfl⟩

theorem alike_abortRow (d : Draft) : d.Alike d.abortRow := by
  refine ⟨rfl, rfl, ?_⟩
  show (d.lanes.map (·.truncate d.rows)).map Lane.shape = d.lanes.map Lane.shape
  rw [List.map_map]
  exact List.map_congr_left fun l _ => Lane.shape_truncate l _

variable [TextHash]

/-- What a call gives, which are bytes if the page is asked for, and the draft after it. -/
def step (d : Draft) : DraftCall → Except Failure (List UInt8) × Draft
  | .value i v => d.orKept (d.appendValue i v)
  | .presence i b => d.orKept (d.recordPresence i b)
  | .sealRow => d.orKept d.sealRow
  | .abortRow => (.ok [], d.abortRow)
  | .row r => ((d.appendRow r).1.map fun _ => [], (d.appendRow r).2)
  | .encode => (d.encode, d)
  | .reset => (.ok [], d.reset)

/-- The draft after some calls. -/
def run (d : Draft) (calls : List DraftCall) : Draft := calls.foldl (fun d c => (d.step c).2) d

/-- What the calls give. -/
def results (d : Draft) : List DraftCall → List (Except Failure (List UInt8))
  | [] => []
  | c :: calls => (d.step c).1 :: results (d.step c).2 calls

/-! ### What the calls look at -/

theorem appendValue_eq (d : Draft) (i : Nat) (v : Value) : d.appendValue i v =
    if d.isFull then .error .pageFull else
      match d.lanes[i]? with
      | none => .error (.outOfRange .field i d.lanes.length)
      | some l =>
        if l.column.length ≠ d.rows then .error (.misuse (.valueRepeated i)) else
          match l.column.append TextHash.digest v with
          | .ok column => .ok (d.setLane i { l with column })
          | .error .storage => .error (.kindMismatch l.field.name l.kind v.storage)
          | .error (.overflow store) => .error (.overflow store) := by
  rw [appendValue, lane]
  by_cases hfull : d.isFull = true
  · rw [if_pos hfull, if_pos hfull]
  rw [if_neg hfull, if_neg hfull]
  cases d.lanes[i]? with
  | none => rfl
  | some l =>
    simp only [bind, Except.bind]
    by_cases hlen : l.column.length ≠ d.rows
    · rw [if_pos hlen, if_pos hlen]
      rfl
    · rw [if_neg hlen, if_neg hlen]
      cases l.column.append TextHash.digest v with
      | ok column => rfl
      | error cause => cases cause <;> rfl

/-- A value is refused, or it is the next one of its lane. -/
theorem appendValue_cases (d : Draft) (i : Nat) (v : Value) :
    (∃ e, d.appendValue i v = .error e ∧ (d.isFull = false → e.turnsAway = false)) ∨
      ∃ l column, d.lanes[i]? = some l ∧ l.column.length = d.rows ∧
        l.column.append TextHash.digest v = .ok column ∧
        d.appendValue i v = .ok (d.setLane i { l with column }) := by
  rw [appendValue_eq]
  by_cases hfull : d.isFull = true
  · rw [if_pos hfull]
    refine Or.inl ⟨_, rfl, fun hnot => ?_⟩
    rw [hfull] at hnot
    cases hnot
  rw [if_neg hfull]
  cases hl : d.lanes[i]? with
  | none => exact Or.inl ⟨_, rfl, fun _ => rfl⟩
  | some l =>
    simp only
    by_cases hlen : l.column.length ≠ d.rows
    · rw [if_pos hlen]
      exact Or.inl ⟨_, rfl, fun _ => rfl⟩
    rw [if_neg hlen]
    cases hc : l.column.append TextHash.digest v with
    | error cause => cases cause <;> exact Or.inl ⟨_, rfl, fun _ => rfl⟩
    | ok column => exact Or.inr ⟨l, column, rfl, Decidable.not_not.mp hlen, hc, rfl⟩

/-! ### What no call changes -/

theorem alike_appendValue {d d' : Draft} {i : Nat} {v : Value} (h : d.appendValue i v = .ok d') :
    d.Alike d' := by
  rcases d.appendValue_cases i v with ⟨e, he, -⟩ | ⟨l, column, hl, -, hc, heq⟩
  · rw [he] at h
    cases h
  · rw [heq] at h
    cases h
    refine alike_setLane hl ?_
    simp only [Lane.shape, (Column.storage_append hc).2]

theorem alike_appendCell (d : Draft) (i : Nat) (slot : Option Value) : d.Alike (d.appendCell i slot).2 := by
  rw [Draft.appendCell]
  cases d.lane i with
  | error e => exact Alike.refl d
  | ok l =>
    simp only
    cases hvalue : d.appendValue i (slot.getD l.filler) with
    | error e => exact Alike.refl d
    | ok mid =>
      have hmid := alike_appendValue hvalue
      simp only
      cases hpresence : mid.recordPresence i slot.isSome with
      | error e => exact hmid
      | ok d' => exact hmid.trans (alike_recordPresence hpresence)

theorem alike_appendSlots (d : Draft) (i : Nat) (slots : List (Option Value)) :
    d.Alike (d.appendSlots i slots).2 := by
  induction slots generalizing d i with
  | nil =>
    rw [Draft.appendSlots]
    cases hseal : d.sealRow with
    | error e => exact Alike.refl d
    | ok d' => exact alike_sealRow hseal
  | cons slot slots ih =>
    have hcell := d.alike_appendCell i slot
    rw [Draft.appendSlots]
    generalize d.appendCell i slot = x at hcell
    obtain ⟨e | u, mid⟩ := x
    · exact hcell
    · exact hcell.trans (ih mid (i + 1))

theorem alike_appendRow (d : Draft) (r : Row) : d.Alike (d.appendRow r).2 := by
  rw [Draft.appendRow]
  split
  · exact Alike.refl d
  split
  · exact Alike.refl d
  have hslots := d.alike_appendSlots 0 r.slots
  generalize d.appendSlots 0 r.slots = x at hslots
  obtain ⟨e | u, mid⟩ := x
  · exact hslots.trans (alike_abortRow mid)
  · exact hslots

/-- Schema, limit and the kinds of the lanes stay. -/
theorem alike_step (d : Draft) (c : DraftCall) : d.Alike (d.step c).2 := by
  cases c with
  | value i v => exact alike_orKept fun d' h => alike_appendValue h
  | presence i b => exact alike_orKept fun d' h => alike_recordPresence h
  | sealRow => exact alike_orKept fun d' h => alike_sealRow h
  | abortRow => exact alike_abortRow d
  | row r => exact alike_appendRow d r
  | encode => exact Alike.refl d
  | reset => exact d.alike_reset

theorem alike_run (d : Draft) (calls : List DraftCall) : d.Alike (d.run calls) := by
  induction calls generalizing d with
  | nil => exact Alike.refl d
  | cons c calls ih => exact (d.alike_step c).trans (ih (d.step c).2)

end Draft

/-! ### Lanes -/

namespace Lane

variable [TextHash]

/-- The column of a lane keeps its stores in step, and unused presence bits are clear. -/
structure Sound (l : Lane) : Prop where
  column : l.column.Sound TextHash.digest
  presence : l.presence.Canonical

/-- Two lanes of one field amount to the same. -/
structure Twin (l l' : Lane) : Prop where
  shape : l'.shape = l.shape
  sound : l.Sound ∧ l'.Sound
  values : l'.column.toList = l.column.toList
  presence : l'.presence.toList = l.presence.toList

/-- Two lanes of one field amount to the same for the first rows. -/
structure AgreesTo (n : Nat) (l l' : Lane) : Prop where
  shape : l'.shape = l.shape
  sound : l.Sound ∧ l'.Sound
  values : l'.column.toList.take n = l.column.toList.take n
  presence : l'.presence.toList.take n = l.presence.toList.take n

variable {l l' l'' : Lane} {n : Nat}

theorem Sound.agreesTo (h : l.Sound) (n : Nat) : l.AgreesTo n l := ⟨rfl, ⟨h, h⟩, rfl, rfl⟩

theorem AgreesTo.trans (h : l.AgreesTo n l') (h' : l'.AgreesTo n l'') : l.AgreesTo n l'' :=
  ⟨h'.shape.trans h.shape, ⟨h.sound.1, h'.sound.2⟩, h'.values.trans h.values, h'.presence.trans h.presence⟩

theorem Twin.length_column (h : l.Twin l') : l'.column.length = l.column.length := by
  rw [← Column.length_toList, h.values, Column.length_toList]

theorem Twin.length_presence (h : l.Twin l') : l'.presence.length = l.presence.length := by
  rw [← Presence.length_toList, h.presence, Presence.length_toList]

theorem Twin.holds_eq (h : l.Twin l') (n : Nat) : l'.holds n = l.holds n := by
  rw [holds, holds, h.length_column, h.length_presence]

theorem Twin.encodeAt_eq (h : l.Twin l') (index : Nat) : l'.encodeAt index = l.encodeAt index := by
  have hkind : l'.kind = l.kind := congrArg Shape.kind h.shape
  have hstorage : l'.column.storage = l.column.storage := congrArg Shape.storage h.shape
  have hpresence : l'.presence.toBytes = l.presence.toBytes := by
    rw [Presence.toBytes_eq_pack h.sound.2.presence, h.presence,
      Presence.toBytes_eq_pack h.sound.1.presence]
  have hcolumn : l'.column.encode = l.column.encode := by
    rw [Column.encode_eq_spell h.sound.2.column, hstorage, h.values,
      Column.encode_eq_spell h.sound.1.column]
  simp only [encodeAt, hkind, hpresence, hcolumn]

/-- A value is taken by both lanes, or refused by both for one reason. -/
theorem Twin.append (h : l.Twin l') (v : Value) :
    (∃ cause, l.column.append TextHash.digest v = .error cause ∧
        l'.column.append TextHash.digest v = .error cause) ∨
      ∃ c c', l.column.append TextHash.digest v = .ok c ∧
        l'.column.append TextHash.digest v = .ok c' ∧
        ({ l with column := c } : Lane).Twin { l' with column := c' } := by
  have hfield : l'.field = l.field := congrArg Shape.field h.shape
  have hkind : l'.kind = l.kind := congrArg Shape.kind h.shape
  have hstorage : l'.column.storage = l.column.storage := congrArg Shape.storage h.shape
  have happended := Column.appended h.sound.1.column v
  have happended' := Column.appended h.sound.2.column v
  generalize l.column.append TextHash.digest v = x at happended
  generalize l'.column.append TextHash.digest v = x' at happended'
  -- storage and values of the column decide, and those are the same
  cases happended with
  | storage hv =>
    cases happended' with
    | storage => exact Or.inl ⟨_, rfl, rfl⟩
    | overflow hv' => exact absurd (hv'.trans hstorage) hv
    | taken hv' => exact absurd (hv'.trans hstorage) hv
  | overflow hv hfull =>
    rw [← h.values] at hfull
    cases happended' with
    | storage hv' => exact absurd (hv.trans hstorage.symm) hv'
    | overflow _ hfull' =>
      cases hfull.symm.trans hfull'
      exact Or.inl ⟨_, rfl, rfl⟩
    | taken _ hroom' => cases hfull.symm.trans hroom'
  | @taken c hv hroom hsame hsound hvalues =>
    rw [← h.values] at hroom
    cases happended' with
    | storage hv' => exact absurd (hv.trans hstorage.symm) hv'
    | overflow _ hfull' => cases hroom.symm.trans hfull'
    | @taken c' _ _ hsame' hsound' hvalues' =>
      refine Or.inr ⟨c, c', rfl, rfl, ?_, ⟨⟨hsound, h.sound.1.presence⟩, ⟨hsound', h.sound.2.presence⟩⟩,
        ?_, h.presence⟩
      · simp only [Lane.shape, hfield, hkind, hsame, hsame', hstorage]
      · rw [hvalues, hvalues', h.values]

theorem Twin.push (h : l.Twin l') (b : Bool) :
    ({ l with presence := l.presence.push b } : Lane).Twin { l' with presence := l'.presence.push b } where
  shape := h.shape
  sound := ⟨⟨h.sound.1.column, Presence.canonical_push h.sound.1.presence b⟩,
    ⟨h.sound.2.column, Presence.canonical_push h.sound.2.presence b⟩⟩
  values := h.values
  presence := by
    show (l'.presence.push b).toList = (l.presence.push b).toList
    rw [Presence.toList_push h.sound.1.presence, Presence.toList_push h.sound.2.presence, h.presence]

theorem Sound.truncate (h : l.Sound) (n : Nat) : (l.truncate n).Sound :=
  ⟨Column.sound_truncate h.column n, Presence.canonical_truncate h.presence n⟩

/-- Cutting back to the rows for which two lanes amount to the same makes them twins. -/
theorem AgreesTo.truncate (h : l.AgreesTo n l') : (l.truncate n).Twin (l'.truncate n) where
  shape := by rw [shape_truncate, shape_truncate, h.shape]
  sound := ⟨h.sound.1.truncate n, h.sound.2.truncate n⟩
  values := by
    show (l'.column.truncate n).toList = (l.column.truncate n).toList
    rw [Column.toList_truncate h.sound.1.column, Column.toList_truncate h.sound.2.column, h.values]
  presence := by
    show (l'.presence.truncate n).toList = (l.presence.truncate n).toList
    rw [Presence.toList_truncate h.sound.1.presence, Presence.toList_truncate h.sound.2.presence,
      h.presence]

theorem Twin.agreesTo (h : l.Twin l') (n : Nat) : l.AgreesTo n l' :=
  ⟨h.shape, h.sound, congrArg _ h.values, congrArg _ h.presence⟩

theorem sound_reset (l : Lane) : l.reset.Sound := ⟨(holds_reset l).sound, (holds_reset l).canonical⟩

theorem Twin.reset (h : l.Twin l') : l.reset.Twin l'.reset where
  shape := by rw [shape_reset, shape_reset, h.shape]
  sound := ⟨sound_reset l, sound_reset l'⟩
  values := (Column.toList_empty _).trans (Column.toList_empty _).symm
  presence := rfl

/-- A lane with a value more behind some rows. -/
theorem Sound.agreesTo_append (h : l.Sound) {v : Value} {c : Column}
    (hc : l.column.append TextHash.digest v = .ok c) (hn : n ≤ l.column.length) :
    l.AgreesTo n { l with column := c } where
  shape := by simp only [shape, (Column.storage_append hc).2]
  sound := ⟨h, ⟨Column.sound_append h.column hc, h.presence⟩⟩
  values := by
    rw [Column.toList_append h.column hc]
    exact List.take_append_of_le_length (by rwa [Column.length_toList])
  presence := rfl

/-- A lane with a presence bit more behind some rows. -/
theorem Sound.agreesTo_push (h : l.Sound) (b : Bool) (hn : n ≤ l.presence.length) :
    l.AgreesTo n { l with presence := l.presence.push b } where
  shape := rfl
  sound := ⟨h, ⟨h.column, Presence.canonical_push h.presence b⟩⟩
  values := rfl
  presence := by
    show (l.presence.push b).toList.take n = _
    rw [Presence.toList_push h.presence]
    exact List.take_append_of_le_length (by rwa [Presence.length_toList])

end Lane

/-! ### Twins -/

namespace Draft

theorem forall₂_trans {α : Type} {R : α → α → Prop} (hR : ∀ a b c, R a b → R b c → R a c)
    {as bs cs : List α} (h : List.Forall₂ R as bs) (h' : List.Forall₂ R bs cs) : List.Forall₂ R as cs := by
  induction h generalizing cs with
  | nil => exact h'
  | cons hab _ ih =>
    cases h' with
    | cons hbc hrest => exact .cons (hR _ _ _ hab hbc) (ih hrest)

variable [TextHash]

/-- The lanes of two drafts of one schema and limit amount to the same. -/
structure Twin (d d' : Draft) : Prop where
  schema : d'.schema = d.schema
  limit : d'.limit = d.limit
  rows : d'.rows = d.rows
  lanes : List.Forall₂ Lane.Twin d.lanes d'.lanes

/-- Two calls fail alike or give twins. -/
inductive Agree : Except Failure Draft → Except Failure Draft → Prop where
  | ok {d d' : Draft} (h : d.Twin d') : Agree (.ok d) (.ok d')
  | error (e : Failure) : Agree (.error e) (.error e)

/-- What two calls give is the same, and what they leave are twins. -/
def Same {α : Type} (x x' : Except Failure α × Draft) : Prop := x.1 = x'.1 ∧ x.2.Twin x'.2

variable {d d' : Draft}

theorem Twin.isFull_eq (h : d.Twin d') : d'.isFull = d.isFull := by
  rw [isFull, isFull, h.limit, h.rows]

theorem Twin.length_lanes (h : d.Twin d') : d'.lanes.length = d.lanes.length := h.lanes.length_eq.symm

/-- The lanes at a position are twins, or there are none. -/
theorem Twin.lane (h : d.Twin d') (i : Nat) :
    (d.lanes[i]? = none ∧ d'.lanes[i]? = none) ∨
      ∃ l l', d.lanes[i]? = some l ∧ d'.lanes[i]? = some l' ∧ l.Twin l' := by
  by_cases hi : i < d.lanes.length
  · have hi' : i < d'.lanes.length := h.length_lanes ▸ hi
    exact Or.inr ⟨d.lanes[i], d'.lanes[i], List.getElem?_eq_getElem hi, List.getElem?_eq_getElem hi',
      h.lanes.get hi hi'⟩
  · have hi' : d'.lanes.length ≤ i := h.length_lanes ▸ Nat.not_lt.mp hi
    exact Or.inl ⟨List.getElem?_eq_none (Nat.not_lt.mp hi), List.getElem?_eq_none hi'⟩

theorem Twin.setLane (h : d.Twin d') (i : Nat) {l l' : Lane} (hl : l.Twin l') :
    (d.setLane i l).Twin (d'.setLane i l') :=
  ⟨h.schema, h.limit, h.rows, forall₂_set h.lanes hl i⟩

theorem Twin.appendValue (h : d.Twin d') (i : Nat) (v : Value) :
    Agree (d.appendValue i v) (d'.appendValue i v) := by
  rw [appendValue_eq, appendValue_eq, h.isFull_eq, h.length_lanes, h.rows]
  by_cases hfull : d.isFull = true
  · rw [if_pos hfull, if_pos hfull]
    exact .error _
  rw [if_neg hfull, if_neg hfull]
  rcases h.lane i with ⟨hl, hl'⟩ | ⟨l, l', hl, hl', htwin⟩
  · rw [hl, hl']
    exact .error _
  rw [hl, hl']
  simp only [htwin.length_column]
  by_cases hlen : l.column.length ≠ d.rows
  · rw [if_pos hlen, if_pos hlen]
    exact .error _
  rw [if_neg hlen, if_neg hlen]
  rcases htwin.append v with ⟨cause, hc, hc'⟩ | ⟨c, c', hc, hc', hnew⟩
  · have hfield : l'.field = l.field := congrArg Lane.Shape.field htwin.shape
    have hkind : l'.kind = l.kind := congrArg Lane.Shape.kind htwin.shape
    rw [hc, hc', hfield, hkind]
    cases cause <;> exact .error _
  · rw [hc, hc']
    exact .ok (h.setLane i hnew)

theorem Twin.recordPresence (h : d.Twin d') (i : Nat) (b : Bool) :
    Agree (d.recordPresence i b) (d'.recordPresence i b) := by
  rw [recordPresence_eq, recordPresence_eq, h.length_lanes, h.rows]
  rcases h.lane i with ⟨hl, hl'⟩ | ⟨l, l', hl, hl', htwin⟩
  · rw [hl, hl']
    exact .error _
  rw [hl, hl']
  simp only [htwin.length_presence]
  by_cases hlen : l.presence.length ≠ d.rows
  · rw [if_pos hlen, if_pos hlen]
    exact .error _
  · rw [if_neg hlen, if_neg hlen]
    exact .ok (h.setLane i (htwin.push b))

/-- The first lane that fails a test of its lengths is the same field's in both. -/
theorem find?_twins {ls ls' : List Lane} (h : List.Forall₂ Lane.Twin ls ls') (n : Nat) :
    (ls'.find? fun l => !l.holds n).map Lane.field = (ls.find? fun l => !l.holds n).map Lane.field := by
  induction h with
  | nil => rfl
  | cons hl hls ih =>
    rw [List.find?_cons, List.find?_cons, hl.holds_eq]
    split
    · exact congrArg some (congrArg Lane.Shape.field hl.shape)
    · exact ih

theorem Twin.sealRow (h : d.Twin d') : Agree d.sealRow d'.sealRow := by
  rw [Draft.sealRow, Draft.sealRow, h.isFull_eq]
  by_cases hfull : d.isFull = true
  · rw [if_pos hfull, if_pos hfull]
    exact .error _
  rw [if_neg hfull, if_neg hfull, h.rows]
  have hfind := find?_twins h.lanes (d.rows + 1)
  cases hf : d.lanes.find? fun l => !l.holds (d.rows + 1) with
  | none =>
    rw [hf, Option.map_none, Option.map_eq_none_iff] at hfind
    rw [hfind]
    exact .ok ⟨h.schema, h.limit, rfl, h.lanes⟩
  | some l =>
    rw [hf, Option.map_some] at hfind
    obtain ⟨l', hf', hfield⟩ := Option.map_eq_some_iff.mp hfind
    rw [hf']
    simp only [hfield]
    exact .error _

theorem Twin.abortRow (h : d.Twin d') : d.abortRow.Twin d'.abortRow where
  schema := h.schema
  limit := h.limit
  rows := h.rows
  lanes := by
    show List.Forall₂ Lane.Twin (d.lanes.map (·.truncate d.rows)) (d'.lanes.map (·.truncate d'.rows))
    rw [h.rows, List.forall₂_map_left_iff, List.forall₂_map_right_iff]
    exact h.lanes.imp fun l l' hl => (hl.agreesTo d.rows).truncate

theorem Twin.reset (h : d.Twin d') : d.reset.Twin d'.reset where
  schema := h.schema
  limit := h.limit
  rows := rfl
  lanes := by
    show List.Forall₂ Lane.Twin (d.lanes.map Lane.reset) (d'.lanes.map Lane.reset)
    rw [List.forall₂_map_left_iff, List.forall₂_map_right_iff]
    exact h.lanes.imp fun l l' hl => hl.reset

theorem sectionsFrom_twins {ls ls' : List Lane} (h : List.Forall₂ Lane.Twin ls ls') (field : Nat) :
    sectionsFrom field ls' = sectionsFrom field ls := by
  induction h generalizing field with
  | nil => rfl
  | cons hl hls ih => rw [sectionsFrom, sectionsFrom, hl.encodeAt_eq, ih]

theorem all_holds_twins {ls ls' : List Lane} (h : List.Forall₂ Lane.Twin ls ls') (n : Nat) :
    ls'.all (·.holds n) = ls.all (·.holds n) := by
  induction h with
  | nil => rfl
  | cons hl hls ih => rw [List.all_cons, List.all_cons, hl.holds_eq, ih]

theorem Twin.encode_eq (h : d.Twin d') : d'.encode = d.encode := by
  rw [Draft.encode, Draft.encode, isEmpty, isEmpty, h.rows, all_holds_twins h.lanes, h.length_lanes,
    sectionsFrom_twins h.lanes]

theorem Twin.appendCell (h : d.Twin d') (i : Nat) (slot : Option Value) :
    Same (d.appendCell i slot) (d'.appendCell i slot) := by
  rw [Draft.appendCell, Draft.appendCell, Draft.lane, Draft.lane]
  rcases h.lane i with ⟨hl, hl'⟩ | ⟨l, l', hl, hl', htwin⟩
  · rw [hl, hl', h.length_lanes]
    exact ⟨rfl, h⟩
  have hfiller : l'.filler = l.filler := congrArg Lane.Shape.filler htwin.shape
  rw [hl, hl']
  simp only [hfiller]
  have hvalue := h.appendValue i (slot.getD l.filler)
  generalize d.appendValue i (slot.getD l.filler) = x at hvalue
  generalize d'.appendValue i (slot.getD l.filler) = x' at hvalue
  cases hvalue with
  | error e => exact ⟨rfl, h⟩
  | @ok mid mid' hmid =>
    have hpresence := hmid.recordPresence i slot.isSome
    simp only
    generalize mid.recordPresence i slot.isSome = y at hpresence
    generalize mid'.recordPresence i slot.isSome = y' at hpresence
    cases hpresence with
    | error e => exact ⟨rfl, hmid⟩
    | ok hlast => exact ⟨rfl, hlast⟩

theorem Twin.appendSlots (h : d.Twin d') (i : Nat) (slots : List (Option Value)) :
    Same (d.appendSlots i slots) (d'.appendSlots i slots) := by
  induction slots generalizing d d' i with
  | nil =>
    rw [Draft.appendSlots, Draft.appendSlots]
    have hseal := h.sealRow
    generalize d.sealRow = x at hseal
    generalize d'.sealRow = x' at hseal
    cases hseal with
    | error e => exact ⟨rfl, h⟩
    | ok hlast => exact ⟨rfl, hlast⟩
  | cons slot slots ih =>
    rw [Draft.appendSlots, Draft.appendSlots]
    obtain ⟨hresult, htwin⟩ := h.appendCell i slot
    generalize d.appendCell i slot = x at hresult htwin
    generalize d'.appendCell i slot = x' at hresult htwin
    obtain ⟨r, mid⟩ := x
    obtain ⟨r', mid'⟩ := x'
    cases hresult
    cases r with
    | error e => exact ⟨rfl, htwin⟩
    | ok u => exact ih htwin (i + 1)

theorem Twin.appendRow (h : d.Twin d') (r : Row) : Same (d.appendRow r) (d'.appendRow r) := by
  rw [Draft.appendRow, Draft.appendRow, h.length_lanes, h.isFull_eq]
  by_cases hwidth : r.width ≠ d.lanes.length
  · rw [if_pos hwidth, if_pos hwidth]
    exact ⟨rfl, h⟩
  rw [if_neg hwidth, if_neg hwidth]
  by_cases hfull : d.isFull = true
  · rw [if_pos hfull, if_pos hfull]
    exact ⟨rfl, h⟩
  rw [if_neg hfull, if_neg hfull]
  obtain ⟨hresult, htwin⟩ := h.appendSlots 0 r.slots
  generalize d.appendSlots 0 r.slots = x at hresult htwin
  generalize d'.appendSlots 0 r.slots = x' at hresult htwin
  obtain ⟨result, mid⟩ := x
  obtain ⟨result', mid'⟩ := x'
  cases hresult
  cases result with
  | error e => exact ⟨rfl, htwin.abortRow⟩
  | ok u => exact ⟨rfl, htwin⟩

theorem Twin.orKept (h : d.Twin d') {x x' : Except Failure Draft} (hx : Agree x x') :
    Same (d.orKept x) (d'.orKept x') := by
  cases hx with
  | ok hnew => exact ⟨rfl, hnew⟩
  | error e => exact ⟨rfl, h⟩

/-- **No call tells twins apart**, and it leaves twins. -/
theorem Twin.step (h : d.Twin d') (c : DraftCall) : Same (d.step c) (d'.step c) := by
  cases c with
  | value i v => exact h.orKept (h.appendValue i v)
  | presence i b => exact h.orKept (h.recordPresence i b)
  | sealRow => exact h.orKept h.sealRow
  | abortRow => exact ⟨rfl, h.abortRow⟩
  | row r =>
    obtain ⟨hresult, htwin⟩ := h.appendRow r
    exact ⟨congrArg (Except.map fun _ => []) hresult, htwin⟩
  | encode => exact ⟨h.encode_eq.symm, h⟩
  | reset => exact ⟨rfl, h.reset⟩

/-- Nor do several calls. -/
theorem Twin.results_eq (h : d.Twin d') (calls : List DraftCall) : d.results calls = d'.results calls := by
  induction calls generalizing d d' with
  | nil => rfl
  | cons c calls ih =>
    obtain ⟨hresult, htwin⟩ := h.step c
    rw [results, results, hresult, ih htwin]

/-! ### Rows that are refused midway -/

/-- All lanes are sound. -/
def Sound (d : Draft) : Prop := ∀ l ∈ d.lanes, l.Sound

/-- Two drafts amount to the same as far as the sealed rows are concerned. -/
structure AgreesBelow (d d' : Draft) : Prop where
  schema : d'.schema = d.schema
  limit : d'.limit = d.limit
  rows : d'.rows = d.rows
  lanes : List.Forall₂ (Lane.AgreesTo d.rows) d.lanes d'.lanes

theorem Sound.agreesBelow (h : d.Sound) : d.AgreesBelow d :=
  ⟨rfl, rfl, rfl, List.forall₂_same.mpr fun l hl => (h l hl).agreesTo d.rows⟩

theorem AgreesBelow.trans {d'' : Draft} (h : d.AgreesBelow d') (h' : d'.AgreesBelow d'') :
    d.AgreesBelow d'' where
  schema := h'.schema.trans h.schema
  limit := h'.limit.trans h.limit
  rows := h'.rows.trans h.rows
  lanes := by
    have hlanes := h'.lanes
    rw [h.rows] at hlanes
    exact forall₂_trans (fun _ _ _ hl hl' => hl.trans hl') h.lanes hlanes

theorem AgreesBelow.sound (h : d.AgreesBelow d') : d'.Sound := by
  intro l' hl'
  obtain ⟨i, hi, rfl⟩ := List.getElem_of_mem hl'
  exact (h.lanes.get (h.lanes.length_eq ▸ hi) hi).sound.2

theorem AgreesBelow.isFull_eq (h : d.AgreesBelow d') : d'.isFull = d.isFull := by
  rw [isFull, isFull, h.limit, h.rows]

/-- A lane that has grown behind the sealed rows. -/
theorem Sound.agreesBelow_setLane (h : d.Sound) {i : Nat} {l l' : Lane} (hl : d.lanes[i]? = some l)
    (hagrees : l.AgreesTo d.rows l') : d.AgreesBelow (d.setLane i l') := by
  have hset := forall₂_set h.agreesBelow.lanes hagrees i
  obtain ⟨hi, rfl⟩ := List.getElem?_eq_some_iff.mp hl
  rw [List.set_getElem_self] at hset
  exact ⟨rfl, rfl, rfl, hset⟩

/-- Cells are given behind the sealed rows, whether all of them are taken or not. -/
theorem Sound.agreesBelow_appendCell (h : d.Sound) (hfull : d.isFull = false) (i : Nat)
    (slot : Option Value) : d.AgreesBelow (d.appendCell i slot).2 ∧
      ∀ e, (d.appendCell i slot).1 = .error e → e.turnsAway = false := by
  rw [Draft.appendCell, Draft.lane]
  cases hl : d.lanes[i]? with
  | none => exact ⟨h.agreesBelow, fun e he => by cases he; rfl⟩
  | some l =>
    simp only
    rcases d.appendValue_cases i (slot.getD l.filler) with
      ⟨e, hvalue, hturns⟩ | ⟨m, column, hm, hlen, hcolumn, hvalue⟩
    · rw [hvalue]
      exact ⟨h.agreesBelow, fun e' he => by cases he; exact hturns hfull⟩
    have hsound := h m (List.mem_of_getElem? hm)
    have hmid := h.agreesBelow_setLane hm (hsound.agreesTo_append hcolumn (Nat.le_of_eq hlen.symm))
    rw [hvalue]
    simp only
    generalize d.setLane i { m with column } = mid at hmid
    rcases mid.recordPresence_cases i slot.isSome with
      ⟨e, hpresence, hturns⟩ | ⟨k, hk, hlen', hpresence⟩
    · rw [hpresence]
      exact ⟨hmid, fun e' he => by cases he; exact hturns⟩
    · have hsound' := hmid.sound k (List.mem_of_getElem? hk)
      have hlast := hmid.sound.agreesBelow_setLane hk
        (hsound'.agreesTo_push slot.isSome (Nat.le_of_eq hlen'.symm))
      rw [hpresence]
      exact ⟨hmid.trans hlast, fun e he => by cases he⟩

/-- If slots are refused, the cells before the refused one lie behind the sealed rows. -/
theorem Sound.agreesBelow_appendSlots (h : d.Sound) (hfull : d.isFull = false) {i : Nat}
    {slots : List (Option Value)} {e : Failure} (he : d.appendSlots i slots = (.error e, d')) :
    d.AgreesBelow d' ∧ e.turnsAway = false := by
  induction slots generalizing d i with
  | nil =>
    rw [Draft.appendSlots] at he
    rcases d.sealRow_cases with ⟨e', hseal, hturns⟩ | ⟨-, hseal⟩
    · rw [hseal] at he
      cases he
      exact ⟨h.agreesBelow, hturns hfull⟩
    · rw [hseal] at he
      cases he
  | cons slot slots ih =>
    rw [Draft.appendSlots] at he
    obtain ⟨hagrees, hturns⟩ := h.agreesBelow_appendCell hfull i slot
    generalize d.appendCell i slot = x at he hagrees hturns
    obtain ⟨r | u, mid⟩ := x
    · cases he
      exact ⟨hagrees, hturns e rfl⟩
    · obtain ⟨hrest, hturns'⟩ := ih hagrees.sound (hagrees.isFull_eq.trans hfull) he
      exact ⟨hagrees.trans hrest, hturns'⟩

/-- Drafts that amount to the same below make twins when their open rows are abandoned. -/
theorem AgreesBelow.abortRow (h : d.AgreesBelow d') : d.abortRow.Twin d'.abortRow where
  schema := h.schema
  limit := h.limit
  rows := h.rows
  lanes := by
    show List.Forall₂ Lane.Twin (d.lanes.map (·.truncate d.rows)) (d'.lanes.map (·.truncate d'.rows))
    rw [h.rows, List.forall₂_map_left_iff, List.forall₂_map_right_iff]
    exact h.lanes.imp fun l l' hl => hl.truncate

/-- **A row that is refused is turned away**, and nothing has changed, **or it comes to abandoning the
open row.** -/
theorem Sound.abandons (h : d.Sound) {r : Row} {e : Failure} (he : d.appendRow r = (.error e, d')) :
    (e.turnsAway = true ∧ d' = d) ∨ (e.turnsAway = false ∧ d.abortRow.Twin d') := by
  rw [Draft.appendRow] at he
  by_cases hwidth : r.width ≠ d.lanes.length
  · rw [if_pos hwidth] at he
    cases he
    exact Or.inl ⟨rfl, rfl⟩
  rw [if_neg hwidth] at he
  by_cases hfull : d.isFull = true
  · rw [if_pos hfull] at he
    cases he
    exact Or.inl ⟨rfl, rfl⟩
  rw [if_neg hfull] at he
  cases hslots : d.appendSlots 0 r.slots with
  | mk result mid =>
    rw [hslots] at he
    cases result with
    | ok u => cases he
    | error e' =>
      cases he
      obtain ⟨hagrees, hturns⟩ := h.agreesBelow_appendSlots (Bool.eq_false_iff.mpr hfull) hslots
      exact Or.inr ⟨hturns, hagrees.abortRow⟩

end Draft
end Columnar
