import Columnar.Page
import Columnar.Page.Draft
import Columnar.Proofs.Column.Contents
import Columnar.Proofs.Page.Feed
import Columnar.Proofs.Page.Presence

/-!
# The body of a page as a function of its rows

A draft works cell by cell, but the body it comes to depends on the rows alone.
`Page.spell` writes this body down; reading it gives the rows back.

A cell that was not set has a value in the body all the same, which only serves to
keep columns and rows in step.  When the body is read, the default of the field
takes the place of the cell.

## Main definitions

* `Lane.Shape` — what a lane knows of its field.
* `Page.spell` — the body of some rows.
* `Schema.deliver` — a row as it is read back.

## Main results

* `Page.decode_spell` — the body of some rows is read as the page of these rows.
* `Page.decode_spell_tooManyRows` — unless there are no fields and too many rows.
* `Page.Spells.cell`, `Page.Spells.allRows` — its cells, under any schema of the same layout.
-/

namespace Columnar

/-- What stays the same of a lane: its field, and kind and storage of its values. -/
structure Lane.Shape where
  field : Field
  kind : Kind
  storage : Storage

namespace Lane.Shape

/-- What is stored for a row without a value. -/
def filler (sh : Shape) : Value := sh.field.default?.getD (Value.zero sh.storage)

/-- The values that are stored for some cells. -/
def stored (sh : Shape) (cells : List (Option Value)) : List Value := cells.map (·.getD sh.filler)

/-- The inside of the section for some cells. -/
def payload (sh : Shape) (cells : List (Option Value)) : List UInt8 :=
  Presence.pack (cells.map Option.isSome) ++ Column.spell sh.storage (sh.stored cells)

/-- The section for some cells of the field at a position. -/
def spellAt (index : Nat) (sh : Shape) (cells : List (Option Value)) : List UInt8 :=
  Leb128.encode index ++
    sh.kind.byte :: Leb128.encode (sh.payload cells).length ++ sh.payload cells

/-- All values stored for some cells are of the field's storage. -/
def Fits (sh : Shape) (cells : List (Option Value)) : Prop :=
  ∀ v ∈ sh.stored cells, v.storage = sh.storage

end Lane.Shape

/-- Field, kind and storage of the lanes of a schema. -/
def Schema.shapes (s : Schema) (layout : List (Kind × Storage)) : List Lane.Shape :=
  List.zipWith (fun f entry => ⟨f, entry.1, entry.2⟩) s.fields layout

/-- A row of slots as it is read back: slots that are not set have the default of their field. -/
def Schema.deliver (s : Schema) (slots : List (Option Value)) : List (Option Value) :=
  List.zipWith (fun f slot => slot.or f.default?) s.fields slots

namespace Page

/-- The cells of one field of some rows. -/
def column (field : Nat) (rows : List (List (Option Value))) : List (Option Value) :=
  rows.map fun r => r[field]?.join

/-- The sections of the fields from one on. -/
def spellFrom (field : Nat) (rows : List (List (Option Value))) : List Lane.Shape → List UInt8
  | [] => []
  | sh :: shs => sh.spellAt field (column field rows) ++ spellFrom (field + 1) rows shs

/-- The body of a page of some rows. -/
def spell (shapes : List Lane.Shape) (rows : List (List (Option Value))) : List UInt8 :=
  Leb128.encode rows.length ++ Leb128.encode shapes.length ++ spellFrom 0 rows shapes

@[simp] theorem length_column (field : Nat) (rows : List (List (Option Value))) :
    (column field rows).length = rows.length := List.length_map _

/-! ### One section -/

/-- What reading the section for some cells gives. -/
structure ReadsAs (sh : Lane.Shape) (cells : List (Option Value)) (s : Section) : Prop where
  presence : s.presence = Presence.pack (cells.map Option.isSome)
  cells : s.cells.Holds sh.storage (sh.stored cells)

variable {layout : List (Kind × Storage)} {sh : Lane.Shape} {cells : List (Option Value)}

theorem decodePayload_payload (index : Nat) (hfits : sh.Fits cells)
    (hlen : (sh.payload cells).length < 2 ^ 63) :
    ∃ s, decodePayload index cells.length sh.storage (sh.payload cells) = .ok s ∧
      ReadsAs sh cells s := by
  have hspell : (Column.spell sh.storage (sh.stored cells)).length < 2 ^ 63 := by
    rw [Lane.Shape.payload, List.length_append] at hlen
    omega
  obtain ⟨read, hread, hholds⟩ := Cells.decode_spell hfits hspell []
  rw [List.append_nil] at hread
  refine ⟨⟨_, read⟩, ?_, rfl, hholds⟩
  have hcount : read.length = cells.length := by
    rw [hholds.length, Lane.Shape.stored, List.length_map]
  -- a value takes a byte at least, so the number of rows does not wrap around
  have hpaid := (Cells.metered_decode sh.storage).paid _ _ _ hread
  have hpresence : (Presence.pack (cells.map Option.isSome)).length =
      Presence.claimedLength cells.length := by
    rw [Presence.length_pack, List.length_map, Presence.claimedLength_eq (by omega)]
  rw [decodePayload, ← hpresence, Lane.Shape.payload, Take.bytes_append]
  show (Cells.decode sh.storage (Column.spell sh.storage (sh.stored cells)) >>= _) = _
  rw [hread]
  simp [bind, Except.bind, hcount]
  rfl

theorem takeFront_spellAt {index : Nat} {seen : List Nat}
    (hlayout : layout[index]? = some (sh.kind, sh.storage)) (hseen : index ∉ seen)
    (hindex : index < 2 ^ 64) (hlen : (sh.payload cells).length < 2 ^ 64) (rest : List UInt8) :
    takeFront layout seen (sh.spellAt index cells ++ rest) =
      .ok ((index, sh.storage, sh.payload cells), rest) := by
  simp only [Lane.Shape.spellAt, List.append_assoc, List.cons_append]
  rw [takeFront, Take.number_encode hindex]
  simp only [bind, Except.bind, hlayout, if_neg hseen, Take.byte_cons, Kind.ofByte?_byte, ne_eq,
    not_true_eq_false, if_false]
  rw [Take.prefixed_encode hlen]
  rfl

theorem takeSection_spellAt {index : Nat} {seen : List Nat}
    (hlayout : layout[index]? = some (sh.kind, sh.storage)) (hseen : index ∉ seen)
    (hindex : index < 2 ^ 64) (hfits : sh.Fits cells) (hlen : (sh.payload cells).length < 2 ^ 63)
    (rest : List UInt8) :
    ∃ s, takeSection layout cells.length seen (sh.spellAt index cells ++ rest) =
      .ok ((index, s), rest) ∧ ReadsAs sh cells s := by
  obtain ⟨s, hs, hreads⟩ := decodePayload_payload index hfits hlen
  refine ⟨s, ?_, hreads⟩
  rw [takeSection, takeFront_spellAt hlayout hseen hindex (by omega)]
  show (decodePayload index cells.length sh.storage (sh.payload cells) >>= _) = _
  rw [hs]
  rfl

/-! ### All sections -/

variable {rows : List (List (Option Value))}

theorem length_payload_le (index : Nat) (sh : Lane.Shape) (cells : List (Option Value)) :
    (sh.payload cells).length < (sh.spellAt index cells).length := by
  simp only [Lane.Shape.spellAt, List.length_append, List.length_cons]
  omega

theorem length_le_length_spellFrom (field : Nat) (rows : List (List (Option Value)))
    (shapes : List Lane.Shape) : shapes.length ≤ (spellFrom field rows shapes).length := by
  induction shapes generalizing field with
  | nil => exact Nat.le_refl 0
  | cons sh shs ih =>
    have hone := length_payload_le field sh (column field rows)
    have hrest := ih (field + 1)
    rw [spellFrom, List.length_append, List.length_cons]
    omega

/-- The sections that are written one after the other are read back under their fields. -/
theorem takeSections_spellFrom {shapes : List Lane.Shape} {field : Nat} {seen : List Nat}
    (hlayout : ∀ (j : Nat) (sh : Lane.Shape), shapes[j]? = some sh →
      layout[field + j]? = some (sh.kind, sh.storage))
    (hseen : ∀ k ∈ seen, k < field)
    (hfits : ∀ (j : Nat) (sh : Lane.Shape), shapes[j]? = some sh → sh.Fits (column (field + j) rows))
    (hfield : field + shapes.length < 2 ^ 64) (hlen : (spellFrom field rows shapes).length < 2 ^ 63)
    (rest : List UInt8) :
    ∃ sections, takeSections layout rows.length shapes.length seen
        (spellFrom field rows shapes ++ rest) = .ok (sections, rest) ∧
      ∀ (j : Nat) (sh : Lane.Shape), shapes[j]? = some sh →
        ∃ s, sections.lookup (field + j) = some s ∧ ReadsAs sh (column (field + j) rows) s := by
  induction shapes generalizing field seen with
  | nil => exact ⟨[], rfl, fun j sh hj => by cases hj⟩
  | cons sh shs ih =>
    rw [spellFrom, List.length_append] at hlen
    rw [List.length_cons] at hfield
    have hpayload := length_payload_le field sh (column field rows)
    have hnot : field ∉ seen := fun hmem => Nat.lt_irrefl _ (hseen field hmem)
    have hentry : layout[field]? = some (sh.kind, sh.storage) := hlayout 0 sh rfl
    have hcells : sh.Fits (column field rows) := hfits 0 sh rfl
    obtain ⟨s, hs, hreads⟩ := takeSection_spellAt hentry hnot (by omega) hcells (by omega)
      (spellFrom (field + 1) rows shs ++ rest)
    rw [length_column] at hs
    have hshift : ∀ j, field + (j + 1) = field + 1 + j := fun j => by omega
    obtain ⟨sections, hsections, hall⟩ := @ih (field + 1) (field :: seen)
      (fun j t hj => hshift j ▸ hlayout (j + 1) t hj)
      (List.forall_mem_cons.mpr ⟨Nat.lt_succ_self _, fun k hk => Nat.lt_succ_of_lt (hseen k hk)⟩)
      (fun j t hj => hshift j ▸ hfits (j + 1) t hj) (by omega) (by omega)
    refine ⟨(field, s) :: sections, ?_, ?_⟩
    · rw [spellFrom, List.append_assoc, List.length_cons, takeSections, hs]
      show (takeSections layout rows.length shs.length (field :: seen) _ >>= _) = _
      rw [hsections]
      rfl
    · intro j t hj
      cases j with
      | zero =>
        cases hj
        exact ⟨s, List.lookup_cons_self, hreads⟩
      | succ j =>
        obtain ⟨u, hu, hread⟩ := hall j t hj
        have hne : (field + 1 + j == field) = false := beq_false_of_ne (by omega)
        refine ⟨u, ?_, hshift j ▸ hread⟩
        rw [List.lookup_cons, hshift, hne]
        exact hu

/-! ### The whole page -/

variable {s : Schema}

theorem shapes_getElem? (hl : s.layout = .ok layout) {i : Nat} {f : Field} (hf : s.fields[i]? = some f) :
    ∃ sh, (s.shapes layout)[i]? = some sh ∧ sh.field = f ∧
      layout[i]? = some (sh.kind, sh.storage) ∧ f.storage? = some sh.storage := by
  obtain ⟨kind, storage, hentry, hstorage⟩ := Schema.layout_getElem? hl hf
  exact ⟨⟨f, kind, storage⟩, by simp [Schema.shapes, List.getElem?_zipWith, hf, hentry], rfl, hentry,
    hstorage⟩

theorem of_shapes_getElem? (hl : s.layout = .ok layout) {i : Nat} {sh : Lane.Shape}
    (h : (s.shapes layout)[i]? = some sh) : s.fields[i]? = some sh.field ∧
      layout[i]? = some (sh.kind, sh.storage) ∧ sh.field.storage? = some sh.storage := by
  rw [Schema.shapes, List.getElem?_zipWith] at h
  split at h
  · next f entry hf hentry =>
    cases h
    obtain ⟨kind, storage, hentry', hstorage⟩ := Schema.layout_getElem? hl hf
    rw [hentry] at hentry'
    cases hentry'
    exact ⟨hf, hentry, hstorage⟩
  · cases h

theorem length_shapes (hl : s.layout = .ok layout) : (s.shapes layout).length = s.width := by
  rw [Schema.shapes, List.length_zipWith, Schema.length_layout hl]
  exact Nat.min_self _

/-- What a draft stores in place of a value has the storage of the field. -/
theorem storage_filler (hs : s.Finalized) (hl : s.layout = .ok layout) {i : Nat} {sh : Lane.Shape}
    (h : (s.shapes layout)[i]? = some sh) : sh.filler.storage = sh.storage := by
  obtain ⟨hf, -, hstorage⟩ := of_shapes_getElem? hl h
  rw [Lane.Shape.filler]
  cases hd : sh.field.default? with
  | none => exact Value.storage_zero _
  | some v =>
    have hv := Field.storage_of_default? (hs _ (List.mem_of_getElem? hf)) hd
    rw [hstorage] at hv
    exact (Option.some.inj hv).symm

theorem fits_column (hs : s.Finalized) (hl : s.layout = .ok layout) (hrows : ∀ r ∈ rows, s.Admits r)
    {i : Nat} {sh : Lane.Shape} (h : (s.shapes layout)[i]? = some sh) : sh.Fits (column i rows) := by
  intro v hv
  obtain ⟨c, hc, rfl⟩ := List.mem_map.mp hv
  obtain ⟨r, hr, rfl⟩ := List.mem_map.mp hc
  obtain ⟨hf, -, hstorage⟩ := of_shapes_getElem? hl h
  cases hslot : r[i]?.join with
  | none => exact storage_filler hs hl h
  | some w =>
    have hw := (hrows r hr).storage i sh.field w hf (Option.join_eq_some_iff.mp hslot)
    rw [hstorage] at hw
    exact (Option.some.inj hw).symm

/-- The presence bits of a section that was read tell which cells were set. -/
theorem isSet_of_readsAs {sec : Section} {field : Nat} (hreads : ReadsAs sh (column field rows) sec)
    {k : Nat} {r : List (Option Value)} (hk : rows[k]? = some r) :
    Presence.isSet sec.presence k = r[field]?.join.isSome := by
  rw [hreads.presence, Presence.isSet_pack, List.getD, List.getElem?_map, column, List.getElem?_map, hk]
  rfl

/-- The cell of a section that was read is the one that was written, or a default in its place. -/
theorem cell_of_readsAs {sec : Section} {field : Nat} (hreads : ReadsAs sh (column field rows) sec)
    {k : Nat} {r : List (Option Value)} (hk : rows[k]? = some r) (default : Option Value) :
    (if Presence.isSet sec.presence k then (sec.cells.get k).map some else .ok default) =
      .ok (r[field]?.join.or default) := by
  rw [isSet_of_readsAs hreads hk]
  cases hslot : r[field]?.join with
  | none => rfl
  | some v =>
    have hcell : (column field rows)[k]? = some (some v) := by
      rw [column, List.getElem?_map, hk, ← hslot]
      rfl
    have hget : sec.cells.get? k = some v := by
      rw [hreads.cells.get?, Lane.Shape.stored, List.getElem?_map, hcell]
      rfl
    simp only [Option.isSome_some, if_true, Cells.get, hget]
    rfl

theorem row_eq_deliver {p : Page} {k : Nat} {r : List (Option Value)} (hr : r.length = s.width)
    (h : ∀ (i : Nat) (f : Field), s.fields[i]? = some f → p.cell s k i = .ok (r[i]?.join.or f.default?)) :
    p.row s k = s.deliver r := by
  apply List.ext_getElem (by simp [Schema.deliver, hr, Schema.width])
  intro i hi hi'
  rw [length_row] at hi
  have hlt : i < r.length := hr.symm ▸ hi
  have hcell := h i s.fields[i] (List.getElem?_eq_getElem hi)
  rw [List.getElem?_eq_getElem hlt] at hcell
  simp only [row, Schema.deliver, List.getElem_map, List.getElem_range, List.getElem_zipWith, hcell]
  rfl

/-- A page that was read from the body of some rows. -/
structure Spells (p : Page) (shapes : List Lane.Shape) (rows : List (List (Option Value))) : Prop where
  count : p.rows = rows.length
  sections : ∀ (i : Nat) (sh : Lane.Shape), shapes[i]? = some sh →
    ∃ sec, p.section? i = some sec ∧ ReadsAs sh (column i rows) sec

/-- The counts at the front of a body are read if the reader has as many fields. -/
theorem takeCounts_spell {shapes : List Lane.Shape} (hcount : rows.length < 2 ^ 64)
    (hshapes : shapes.length < 2 ^ 64) (width : Nat) :
    takeCounts width (spell shapes rows) =
      if shapes.length = width then .ok ((rows.length, shapes.length), spellFrom 0 rows shapes)
      else .error (.columnCountMismatch width shapes.length) := by
  rw [spell, List.append_assoc, takeCounts, Take.number_encode hcount]
  show (Take.number _ >>= _) = _
  rw [Take.number_encode hshapes]
  simp only [bind, Except.bind, ne_eq, ite_not]
  rfl

/-- **The body of some rows is read as the page of these rows.** -/
theorem decode_spell (hs : s.Finalized) (hl : s.layout = .ok layout) (hrows : ∀ r ∈ rows, s.Admits r)
    (hcount : rows.length < 2 ^ 64) (hlen : (spell (s.shapes layout) rows).length < 2 ^ 63)
    {limit : Nat} (hlimit : s.width = 0 → rows.length ≤ limit) :
    ∃ p, decode layout limit (spell (s.shapes layout) rows) = .ok p ∧ p.Spells (s.shapes layout) rows := by
  have hwidth := length_shapes hl
  rw [spell, List.length_append, List.length_append] at hlen
  have hshapes := length_le_length_spellFrom 0 rows (s.shapes layout)
  obtain ⟨sections, hsections, hall⟩ := @takeSections_spellFrom layout rows (s.shapes layout) 0 []
    (fun j sh hj => (Nat.zero_add j).symm ▸ (of_shapes_getElem? hl hj).2.1)
    (fun k hk => absurd hk List.not_mem_nil)
    (fun j sh hj => (Nat.zero_add j).symm ▸ fits_column hs hl hrows hj) (by omega) (by omega) []
  rw [List.append_nil] at hsections
  refine ⟨⟨rows.length, sections⟩, ?_, rfl, ?_⟩
  · -- the counts are read, then the sections, and nothing is left over
    have hfew : ¬ ((s.shapes layout).length = 0 ∧ limit < rows.length) := by
      rintro ⟨hzero, hlt⟩
      have hle := hlimit (hwidth ▸ hzero)
      omega
    have hsame : layout.length = (s.shapes layout).length := (Schema.length_layout hl).trans hwidth.symm
    rw [decode, takeCounts_spell hcount (by omega), if_pos hsame.symm]
    show (takeSections layout rows.length (s.shapes layout).length [] _ >>= _) = _
    rw [hsections]
    simp only [bind, Except.bind, List.isEmpty_nil, Bool.not_true, Bool.false_eq_true, if_false,
      if_neg hfew]
    rfl
  · intro i sh hi
    have hsection := hall i sh hi
    rwa [Nat.zero_add] at hsection

/-! ### Reading the page, also under another schema -/

/-- For every field of a schema with the layout of the page there is a section. -/
theorem Spells.section {p : Page} (h : p.Spells (s.shapes layout) rows) (hl : s.layout = .ok layout)
    {t : Schema} (ht : t.layout = .ok layout) {i : Nat} (hi : i < t.width) :
    ∃ sh sec, p.section? i = some sec ∧ ReadsAs sh (column i rows) sec := by
  have hlt : i < (s.shapes layout).length := by
    rwa [length_shapes hl, ← Schema.length_layout hl, Schema.length_layout ht]
  obtain ⟨sec, hsec, hreads⟩ := h.sections i _ (List.getElem?_eq_getElem hlt)
  exact ⟨_, sec, hsec, hreads⟩

/-- The presence bit of a cell tells that it was set. -/
theorem Spells.isSet {p : Page} (h : p.Spells (s.shapes layout) rows) (hl : s.layout = .ok layout)
    {t : Schema} (ht : t.layout = .ok layout) {k : Nat} {r : List (Option Value)} (hk : rows[k]? = some r)
    {i : Nat} (hi : i < t.width) : p.isSet k i = r[i]?.join.isSome := by
  obtain ⟨sh, sec, hsec, hreads⟩ := h.section hl ht hi
  rw [Page.isSet, hsec]
  exact isSet_of_readsAs hreads hk

/-- **A cell is read as it was written**, and where none was written it is the default of the schema
that it is read with. -/
theorem Spells.cell {p : Page} (h : p.Spells (s.shapes layout) rows) (hl : s.layout = .ok layout)
    {t : Schema} (ht : t.layout = .ok layout) {k : Nat} {r : List (Option Value)} (hk : rows[k]? = some r)
    {i : Nat} {f : Field} (hf : t.fields[i]? = some f) : p.cell t k i = .ok (r[i]?.join.or f.default?) := by
  obtain ⟨sh, sec, hsec, hreads⟩ := h.section hl ht (List.getElem?_eq_some_iff.mp hf).1
  rw [Page.cell, hf, hsec]
  exact cell_of_readsAs hreads hk f.default?

/-- So all rows are read. -/
theorem Spells.allRows {p : Page} (h : p.Spells (s.shapes layout) rows) (hl : s.layout = .ok layout)
    {t : Schema} (ht : t.layout = .ok layout) (hrows : ∀ r ∈ rows, r.length = t.width) :
    p.allRows t = rows.map t.deliver := by
  apply List.ext_getElem?
  intro k
  rw [Page.allRows, List.getElem?_map, List.getElem?_map, h.count]
  cases hk : rows[k]? with
  | none =>
    have hle := List.getElem?_eq_none_iff.mp hk
    simp [hle]
  | some r =>
    have hlt := (List.getElem?_eq_some_iff.mp hk).1
    rw [List.getElem?_range hlt, Option.map_some, Option.map_some]
    exact congrArg some (row_eq_deliver (hrows r (List.mem_of_getElem? hk))
      fun i f hf => h.cell hl ht hk hf)

/-- Without fields, a page of more rows than the limit on its length is refused. -/
theorem decode_spell_tooManyRows (hl : s.layout = .ok layout) (hwidth : s.width = 0)
    (hcount : rows.length < 2 ^ 64) {limit : Nat} (hlimit : limit < rows.length) :
    decode layout limit (spell (s.shapes layout) rows) =
      .error (.damaged (.tooManyRows rows.length limit)) := by
  have hlayout : layout = [] := List.length_eq_zero_iff.mp ((Schema.length_layout hl).trans hwidth)
  have hshapes : s.shapes layout = [] := List.length_eq_zero_iff.mp ((length_shapes hl).trans hwidth)
  have hnone : ([] : List Lane.Shape).length < 2 ^ 64 := Nat.two_pow_pos 64
  have hcounts : takeCounts 0 (spell [] rows) = .ok ((rows.length, 0), []) :=
    (takeCounts_spell hcount hnone 0).trans (if_pos rfl)
  subst hlayout
  rw [hshapes, decode]
  show (takeCounts 0 _ >>= _) = _
  rw [hcounts]
  simp only [bind, Except.bind, takeSections, List.isEmpty_nil, Bool.not_true, Bool.false_eq_true,
    if_false, hlimit, and_self, if_true]
  rfl

end Page
end Columnar
