import Mathlib.Data.Nat.Find
import Columnar.Proofs.Page.Draft
import Columnar.Proofs.Page.Handout

/-!
# A page under another schema

The body of a page does not name the schema that it was written under.  But it counts
its columns, and gives with each one the kind of its field.  A feed of another schema
refuses the page at the first of these that is not its own, before anything of the
column is read.  If none is, the two schemas store their fields alike: what was set is
read back, and a cell that was not set has the default of the schema that it is read
under.  The value that the other schema stored in its place does not show.

## Main definitions

* `Schema.kinds` — the kinds that a page has to agree with.
* `Draft.encodeRows` — the body of some rows, from a new draft.
* `Feed.ReadsBack` — a feed reads some rows, under its own defaults.
* `Feed.Discerns` — what loading a page of another schema comes to.

## Main results

* `Page.decode_of_width`, `Page.decode_of_misfit` — a page of another layout is refused.
* `Draft.encodeRows_eq` — the rows of a schema have a body.
* `Feed.discerns_of_encodeRows` — a page is never misread under another schema.
-/

namespace Columnar

/-! ### Kinds and layouts -/

namespace Schema

variable {s t : Schema} {layout layout' : List (Kind × Storage)}

/-- The kinds of the fields; a field that is not resolved has none. -/
def kinds (s : Schema) : List (Option Kind) := s.fields.map Field.valueKind?

@[simp] theorem length_kinds (s : Schema) : s.kinds.length = s.width := List.length_map _

/-- The layout of a field is a matter of its kind. -/
theorem fieldLayout?_eq (f : Field) :
    fieldLayout? f = f.valueKind?.bind fun kind => kind.storage?.map (Prod.mk kind) := by
  rw [fieldLayout?]
  cases f.valueKind? with
  | none => rfl
  | some kind =>
    show kind.storage?.bind (fun storage => some (kind, storage)) = kind.storage?.map (Prod.mk kind)
    cases kind.storage? <;> rfl

theorem layout_getElem?_eq (h : s.layout = .ok layout) (i : Nat) :
    layout[i]? = s.kinds[i]?.join.bind fun kind => kind.storage?.map (Prod.mk kind) := by
  have hall := forall₂_layout h
  rw [kinds, List.getElem?_map]
  by_cases hi : i < layout.length
  · have hi' : i < s.fields.length := hall.length_eq.symm ▸ hi
    have hentry : fieldLayout? s.fields[i] = some layout[i] := hall.get hi' hi
    rw [List.getElem?_eq_getElem hi, List.getElem?_eq_getElem hi', ← hentry, fieldLayout?_eq]
    rfl
  · have hi' : ¬ i < s.fields.length := hall.length_eq.symm ▸ hi
    rw [List.getElem?_eq_none (Nat.not_lt.mp hi), List.getElem?_eq_none (Nat.not_lt.mp hi')]
    rfl

/-- Schemas of the same kinds store their fields alike. -/
theorem layout_eq_of_kinds (hs : s.layout = .ok layout) (ht : t.layout = .ok layout')
    (h : t.kinds = s.kinds) : layout' = layout := by
  apply List.ext_getElem?
  intro i
  rw [layout_getElem?_eq hs, layout_getElem?_eq ht, h]

/-- The kind that is in the layout. -/
theorem kinds_of_layout (h : s.layout = .ok layout) {i : Nat} {kind : Kind} {storage : Storage}
    (hi : layout[i]? = some (kind, storage)) : s.kinds[i]? = some (some kind) := by
  rw [layout_getElem?_eq h] at hi
  obtain ⟨k, hk, hi⟩ := Option.bind_eq_some_iff.mp hi
  obtain ⟨st, -, hi⟩ := Option.map_eq_some_iff.mp hi
  cases hi
  exact Option.join_eq_some_iff.mp hk

end Schema

/-- Two lists of one length that are not the same differ somewhere for the first time. -/
theorem exists_first_difference {α : Type} [DecidableEq α] {as bs : List α}
    (hlen : as.length = bs.length) (hne : as ≠ bs) :
    ∃ i < as.length, as[i]? ≠ bs[i]? ∧ ∀ j < i, as[j]? = bs[j]? := by
  have hex : ∃ i : Nat, as[i]? ≠ bs[i]? := by
    by_contra hall
    exact hne (List.ext_getElem? fun i => Decidable.not_not.mp fun h => hall ⟨i, h⟩)
  have hdiff := Nat.find_spec hex
  refine ⟨Nat.find hex, ?_, hdiff, fun j hj => Decidable.not_not.mp (Nat.find_min hex hj)⟩
  by_contra hge
  rw [List.getElem?_eq_none (Nat.not_lt.mp hge),
    List.getElem?_eq_none (hlen ▸ Nat.not_lt.mp hge)] at hdiff
  exact hdiff rfl

/-! ### Pages of another layout -/

namespace Page

variable {layout : List (Kind × Storage)} {sh : Lane.Shape} {cells : List (Option Value)}
  {rows : List (List (Option Value))} {shapes : List Lane.Shape}

/-- A section of another kind is refused at its kind. -/
theorem takeFront_of_misfit {index : Nat} {seen : List Nat} {kind : Kind} {storage : Storage}
    (hlayout : layout[index]? = some (kind, storage)) (hkind : sh.kind ≠ kind) (hseen : index ∉ seen)
    (hindex : index < 2 ^ 64) (rest : List UInt8) :
    takeFront layout seen (sh.spellAt index cells ++ rest) =
      .error (.damaged (.kindByte index sh.kind.byte kind)) := by
  have hother : Kind.ofByte? sh.kind.byte ≠ some kind := by
    rw [Kind.ofByte?_byte]
    exact fun h => hkind (Option.some.inj h)
  simp only [Lane.Shape.spellAt, List.append_assoc, List.cons_append]
  rw [takeFront, Take.number_encode hindex]
  simp only [bind, Except.bind, hlayout, if_neg hseen, Take.byte_cons, if_pos hother]
  rfl

/-- Of several sections the first one of another kind is refused. -/
theorem takeSections_of_misfit {field j : Nat} {seen : List Nat} {kind : Kind} {storage : Storage}
    (hj : shapes[j]? = some sh) (hlayout : layout[field + j]? = some (kind, storage))
    (hkind : sh.kind ≠ kind)
    (hbefore : ∀ i < j, ∀ before, shapes[i]? = some before →
      layout[field + i]? = some (before.kind, before.storage))
    (hseen : ∀ k ∈ seen, k < field)
    (hfits : ∀ i < j, ∀ before, shapes[i]? = some before → before.Fits (column (field + i) rows))
    (hfield : field + shapes.length < 2 ^ 64) (hlen : (spellFrom field rows shapes).length < 2 ^ 63)
    (rest : List UInt8) :
    takeSections layout rows.length shapes.length seen (spellFrom field rows shapes ++ rest) =
      .error (.damaged (.kindByte (field + j) sh.kind.byte kind)) := by
  induction shapes generalizing field j seen with
  | nil => cases hj
  | cons first shs ih =>
    rw [spellFrom, List.length_append] at hlen
    rw [List.length_cons] at hfield
    have hnot : field ∉ seen := fun hmem => Nat.lt_irrefl _ (hseen field hmem)
    rw [spellFrom, List.append_assoc, List.length_cons, takeSections]
    cases j with
    | zero =>
      cases hj
      have hentry : layout[field]? = some (kind, storage) := hlayout
      rw [takeSection, takeFront_of_misfit hentry hkind hnot (by omega)]
      rfl
    | succ j =>
      have hpayload := length_payload_le field first (column field rows)
      have hentry : layout[field]? = some (first.kind, first.storage) :=
        hbefore 0 (Nat.succ_pos j) first rfl
      have hcells : first.Fits (column field rows) := hfits 0 (Nat.succ_pos j) first rfl
      obtain ⟨s, hs, -⟩ := takeSection_spellAt hentry hnot (by omega) hcells (by omega)
        (spellFrom (field + 1) rows shs ++ rest)
      rw [length_column] at hs
      have hshift : ∀ i, field + (i + 1) = field + 1 + i := fun i => by omega
      have hrest := @ih (field + 1) j (field :: seen) hj (hshift j ▸ hlayout)
        (fun i hi before hbi => hshift i ▸ hbefore (i + 1) (Nat.succ_lt_succ hi) before hbi)
        (List.forall_mem_cons.mpr ⟨Nat.lt_succ_self _, fun k hk => Nat.lt_succ_of_lt (hseen k hk)⟩)
        (fun i hi before hbi => hshift i ▸ hfits (i + 1) (Nat.succ_lt_succ hi) before hbi)
        (by omega) (by omega)
      rw [hshift j, hs]
      show (takeSections layout rows.length shs.length (field :: seen) _ >>= _) = _
      rw [hrest]
      rfl

/-- **A page with another number of columns is refused for it.** -/
theorem decode_of_width (hcount : rows.length < 2 ^ 64) (hshapes : shapes.length < 2 ^ 64)
    (hwidth : shapes.length ≠ layout.length) (limit : Nat) :
    decode layout limit (spell shapes rows) =
      .error (.columnCountMismatch layout.length shapes.length) := by
  rw [decode, takeCounts_spell hcount hshapes, if_neg hwidth]
  rfl

variable {s t : Schema} {layout' : List (Kind × Storage)}

/-- **A page with a column of another kind is refused at the first such column.** -/
theorem decode_of_misfit (hs : s.Finalized) (hl : s.layout = .ok layout) (ht : t.layout = .ok layout')
    (hrows : ∀ r ∈ rows, s.Admits r) (hcount : rows.length < 2 ^ 64)
    (hlen : (spell (s.shapes layout) rows).length < 2 ^ 63) (hwidth : t.width = s.width)
    (hkinds : t.kinds ≠ s.kinds) (limit : Nat) :
    ∃ (i : Nat) (kind kind' : Kind), s.kinds[i]? = some (some kind) ∧ t.kinds[i]? = some (some kind') ∧
      kind ≠ kind' ∧ (∀ j < i, t.kinds[j]? = s.kinds[j]?) ∧
      decode layout' limit (spell (s.shapes layout) rows) =
        .error (.damaged (.kindByte i kind.byte kind')) := by
  rw [spell, List.length_append, List.length_append] at hlen
  have hshapes := length_le_length_spellFrom 0 rows (s.shapes layout)
  have hsame : layout'.length = (s.shapes layout).length := by
    rw [length_shapes hl, Schema.length_layout ht, hwidth]
  have hlens : t.kinds.length = s.kinds.length := by
    rw [Schema.length_kinds, Schema.length_kinds, hwidth]
  obtain ⟨i, hi, hdiff, hbefore⟩ := exists_first_difference hlens hkinds
  rw [Schema.length_kinds, ← Schema.length_layout ht] at hi
  -- the column of the page and the field of the reader at the first difference
  have hentry : layout'[i]? = some (layout'[i].1, layout'[i].2) := List.getElem?_eq_getElem hi
  have hsh : (s.shapes layout)[i]? = some (s.shapes layout)[i] := List.getElem?_eq_getElem (hsame ▸ hi)
  generalize layout'[i].1 = kind', layout'[i].2 = storage at hentry
  generalize (s.shapes layout)[i] = sh at hsh
  have hkind := Schema.kinds_of_layout hl (of_shapes_getElem? hl hsh).2.1
  have hkind' := Schema.kinds_of_layout ht hentry
  have hne : sh.kind ≠ kind' := fun h => hdiff (by rw [hkind, hkind', h])
  refine ⟨i, sh.kind, kind', hkind, hkind', hne, hbefore, ?_⟩
  have hsections := @takeSections_of_misfit layout' sh rows (s.shapes layout) 0 i [] kind' storage hsh
    ((Nat.zero_add i).symm ▸ hentry) hne ?_ (fun k hk => absurd hk List.not_mem_nil) ?_
    (by omega) (by omega) []
  · rw [Nat.zero_add, List.append_nil] at hsections
    rw [decode, takeCounts_spell hcount (by omega), if_pos hsame.symm]
    show (takeSections layout' rows.length (s.shapes layout).length [] _ >>= _) = _
    rw [hsections]
    rfl
  · intro j hj before hbj
    rw [Nat.zero_add, Schema.layout_getElem?_eq ht, hbefore j hj, ← Schema.layout_getElem?_eq hl]
    exact (of_shapes_getElem? hl hbj).2.1
  · intro j _ before hbj
    rw [Nat.zero_add]
    exact fits_column hs hl hrows hbj

end Page

/-! ### The body of some rows -/

namespace Draft

variable [TextHash] {s : Schema} {layout : List (Kind × Storage)} {d : Draft}
  {rows : List (List (Option Value))}

/-- Rows one after the other, up to the first that is refused. -/
def appendRows (d : Draft) : List Row → Except Failure Unit × Draft
  | [] => (.ok (), d)
  | r :: rs =>
    match d.appendRow r with
    | (.error e, d) => (.error e, d)
    | (.ok (), d) => appendRows d rs

/-- The body of some rows, from a new draft. -/
def encodeRows (s : Schema) (limit : Nat) (rs : List Row) : Except Failure (List UInt8) := do
  let d ← make s limit
  match d.appendRows rs with
  | (.error e, _) => .error e
  | (.ok (), d) => d.encode

theorem encodeRows_of_make {limit : Nat} (h : make s limit = .ok d) (rs : List Row) :
    encodeRows s limit rs = match d.appendRows rs with
      | (.error e, _) => .error e
      | (.ok (), d) => d.encode := by
  rw [encodeRows, h]
  rfl

/-- Well-typed rows that are not too many are added, unless a column has no room for one of them. -/
theorem Holds.appendRows (hs : s.Finalized) (hl : s.layout = .ok layout) (h : d.Holds rows)
    (hshapes : d.shapes = s.shapes layout) {rs : List Row} (hrs : ∀ r ∈ rs, s.Admits r.slots)
    (hfew : rows.length + rs.length ≤ d.limit) :
    (∃ d', d.appendRows rs = (.ok (), d') ∧ d'.Holds (rows ++ rs.map Row.slots) ∧
        d'.shapes = s.shapes layout) ∨
      ∃ store d', d.appendRows rs = (.error (.overflow store), d') := by
  induction rs generalizing d rows with
  | nil => exact Or.inl ⟨d, rfl, (List.append_nil rows).symm ▸ h, hshapes⟩
  | cons r rs ih =>
    obtain ⟨hr, hrest⟩ := List.forall_mem_cons.mp hrs
    rw [List.length_cons] at hfew
    obtain ⟨hwidth, htakes⟩ := (takes_iff_admits hs hl).mpr hr
    rw [Draft.appendRows]
    rcases h.appendRow r with ⟨d', happend, hholds, halike, -⟩ | ⟨e, d', happend, -, -, -, hcause⟩
    · have hfew' : (rows ++ [r.slots]).length + rs.length ≤ d'.limit := by
        rw [List.length_append, List.length_singleton, halike.limit]
        omega
      have hrun := ih hholds (halike.shapes.trans hshapes) hrest hfew'
      rw [List.append_assoc] at hrun
      rw [happend]
      exact hrun
    · -- nothing else stands against the row
      have hfull : d.isFull = false := by
        rw [isFull, h.count]
        exact decide_eq_false (by omega)
      have hlanes : r.width = d.lanes.length := by rw [← length_shapes, hshapes, ← hwidth, Row.width]
      obtain ⟨store, rfl⟩ := hcause hlanes hfull (hshapes ▸ htakes)
      rw [happend]
      exact Or.inr ⟨store, d', rfl⟩

/-- **Well-typed rows that are not too many have a body**, unless a column has no room for one of
them. -/
theorem encodeRows_eq (hs : s.Finalized) (hl : s.layout = .ok layout) {limit : Nat} {rs : List Row}
    (hrs : ∀ r ∈ rs, s.Admits r.slots) (hne : rs ≠ []) (hfew : rs.length ≤ limit) :
    encodeRows s limit rs = .ok (Page.spell (s.shapes layout) (rs.map Row.slots)) ∨
      ∃ store, encodeRows s limit rs = .error (.overflow store) := by
  have hlimit : limit ≠ 0 := by
    have hpos := List.length_pos_of_ne_nil hne
    omega
  have hmake := make_eq hl hlimit
  have hholds := holds_make hmake
  obtain ⟨-, -, hcap, layout', hl', hshapes⟩ := of_make hmake
  obtain rfl := Except.ok.inj (hl.symm.trans hl')
  rw [encodeRows_of_make hmake]
  rcases hholds.appendRows hs hl hshapes hrs
    (by rw [List.length_nil, Nat.zero_add, hcap]; exact hfew) with
    ⟨d', hrun, hall, hshapes'⟩ | ⟨store, d', hrun⟩
  · rw [List.nil_append] at hall
    rw [hrun, ← hshapes']
    exact Or.inl (encode_eq_spell hall (by simpa using hne))
  · rw [hrun]
    exact Or.inr ⟨store, rfl⟩

end Draft

/-! ### Loading the body under another schema -/

namespace Feed

/-- A feed reads some rows: what was set is there, and what was not is a default of the schema that the
feed reads with. -/
structure ReadsBack (f : Feed) (t : Schema) (rows : List (List (Option Value))) : Prop where
  count : f.rows = rows.length
  set : ∀ (k i : Nat) (r : List (Option Value)) (v : Value), rows[k]? = some r → r[i]? = some (some v) →
    (f.view k).isSet i = true ∧ (f.view k).get i = .ok (some v)
  unset : ∀ (k i : Nat) (r : List (Option Value)) (g : Field), rows[k]? = some r →
    r[i]? = some none → t.fields[i]? = some g →
    (f.view k).isSet i = false ∧ (f.view k).get i = .ok g.default?
  /-- So the rows are handed out, in order. -/
  drain : f.drain = ⟨rows.map t.deliver, none⟩

/-- A page is refused, and nothing of it is handed out. -/
structure Refused (out : Except Failure Unit × Feed) (e : Failure) : Prop where
  result : out.1 = .error e
  drain : out.2.drain = .done

/-- What loading the page of some rows of a schema comes to under another: whatever sets the schemas
apart is noticed, and if nothing does, the rows are read back. -/
structure Discerns (s t : Schema) (rows : List (List (Option Value))) (out : Except Failure Unit × Feed) :
    Prop where
  columns : t.width ≠ s.width → Refused out (.columnCountMismatch t.width s.width)
  /-- The first field of another kind is named. -/
  kinds : t.width = s.width → t.kinds ≠ s.kinds →
    ∃ (i : Nat) (kind kind' : Kind), s.kinds[i]? = some (some kind) ∧ t.kinds[i]? = some (some kind') ∧
      kind ≠ kind' ∧ (∀ j < i, t.kinds[j]? = s.kinds[j]?) ∧
      Refused out (.damaged (.kindByte i kind.byte kind'))
  reads : t.kinds = s.kinds → out.1 = .ok () ∧ out.2.ReadsBack t rows

variable {s t : Schema} {f : Feed} {body : List UInt8}

theorem refused_of_decode (h : f.Ready t) {e : Failure} (hlimit : body.length ≤ f.limit)
    (hbuffer : body.length ≤ maxBuffer)
    (hdecode : Page.decode f.layout f.limit body = .error e) : Refused (f.loadBody body) e := by
  obtain ⟨f', hload, -, -, hrows, -⟩ := decode_of_error h hdecode
  rw [loadBody_of_le hlimit hbuffer, hload]
  exact ⟨rfl, drain_of_le (hrows ▸ Nat.zero_le _)⟩

/-- A page of the feed's own layout is read with the feed's own schema. -/
theorem readsBack_of_decode (h : f.Ready t) (hl : s.layout = .ok f.layout) {p : Page}
    {rows : List (List (Option Value))} (hrows : ∀ r ∈ rows, r.length = t.width)
    (hlimit : body.length ≤ f.limit) (hbuffer : body.length ≤ maxBuffer)
    (hdecode : Page.decode f.layout f.limit body = .ok p)
    (hp : p.Spells (s.shapes f.layout) rows) :
    (f.loadBody body).1 = .ok () ∧ (f.loadBody body).2.ReadsBack t rows := by
  obtain ⟨f', hload, hready, -, -, hholds, hnext⟩ := decode_of_ok h hdecode
  have hlayout : f'.layout = f.layout := Except.ok.inj (hready.layout.symm.trans h.layout)
  rw [loadBody_of_le hlimit hbuffer, hload]
  have hshows := hlayout ▸ hholds.shows
  have hview : ∀ k, f'.view k = ⟨t, f'.body, f'.tables, k⟩ := fun k => by rw [view, hready.schema]
  refine ⟨rfl, hholds.rows.trans hp.count, ?_, ?_, ?_⟩
  · intro k i r v hk hv
    have hi : i < t.fields.length := by
      have hlt := (List.getElem?_eq_some_iff.mp hv).1
      rwa [hrows r (List.mem_of_getElem? hk)] at hlt
    have hg := List.getElem?_eq_getElem hi
    rw [hview, View.isSet_eq hshows h.layout k hg, View.get_eq hshows h.layout k hg,
      hp.isSet hl h.layout hk hi, hp.cell hl h.layout hk hg, hv]
    exact ⟨rfl, rfl⟩
  · intro k i r g hk hv hg
    have hi : i < t.width := (List.getElem?_eq_some_iff.mp hg).1
    rw [hview, View.isSet_eq hshows h.layout k hg, View.get_eq hshows h.layout k hg,
      hp.isSet hl h.layout hk hi, hp.cell hl h.layout hk hg, hv]
    exact ⟨rfl, rfl⟩
  · rw [drain_eq hready hholds, hnext, List.drop_zero, hp.allRows hl h.layout hrows]

/-- A feed of another schema discerns the page of some rows, if it takes in the body and, without
fields, the rows. -/
theorem discerns_spell (hs : s.Finalized) {layout : List (Kind × Storage)} (hl : s.layout = .ok layout)
    (h : f.Ready t) {rows : List (List (Option Value))} (hrows : ∀ r ∈ rows, s.Admits r)
    (hcount : rows.length < 2 ^ 64) (hlen : (Page.spell (s.shapes layout) rows).length < 2 ^ 63)
    (hbody : (Page.spell (s.shapes layout) rows).length ≤ f.limit)
    (hfew : t.width = 0 → rows.length ≤ f.limit) :
    Discerns s t rows (f.loadBody (Page.spell (s.shapes layout) rows)) := by
  have hwidth := Page.length_shapes hl
  have hwidth' := Schema.length_layout h.layout
  have hbuffer := Nat.le_sub_one_of_lt hlen
  refine ⟨?_, ?_, ?_⟩
  · intro hother
    have hshapes : (s.shapes layout).length < 2 ^ 64 := by
      have hsections := Page.length_le_length_spellFrom 0 rows (s.shapes layout)
      rw [Page.spell, List.length_append] at hlen
      omega
    have hne : (s.shapes layout).length ≠ f.layout.length := by
      rw [hwidth, hwidth']
      exact hother.symm
    have hdecode := Page.decode_of_width hcount hshapes hne f.limit
    rw [hwidth, hwidth'] at hdecode
    exact refused_of_decode h hbody hbuffer hdecode
  · intro hsame hkinds
    obtain ⟨i, kind, kind', hkind, hkind', hdiff, hbefore, hdecode⟩ :=
      Page.decode_of_misfit hs hl h.layout hrows hcount hlen hsame hkinds f.limit
    exact ⟨i, kind, kind', hkind, hkind', hdiff, hbefore, refused_of_decode h hbody hbuffer hdecode⟩
  · intro hkinds
    obtain rfl : f.layout = layout := Schema.layout_eq_of_kinds hl h.layout hkinds
    have hsame : s.width = t.width := (Schema.length_layout hl).symm.trans hwidth'
    obtain ⟨p, hdecode, hp⟩ :=
      Page.decode_spell hs hl hrows hcount hlen fun hzero => hfew (hsame ▸ hzero)
    exact readsBack_of_decode h hl (fun r hr => (hrows r hr).length.trans hsame) hbody hbuffer hdecode hp

/-- **A page is never misread under another schema.**  The rows of a schema have a body, unless a column
has no room for one of them; and whatever was done before with a feed of another schema, which takes the
body in and without fields also the rows, it refuses a page that has other fields, and reads the rows of
any other page. -/
theorem discerns_of_encodeRows [TextHash] (hs : s.Finalized) {cap : Nat} (hcap : cap < 2 ^ 64)
    {rs : List Row} (hrs : ∀ r ∈ rs, s.Admits r.slots) (hne : rs ≠ []) (hfew : rs.length ≤ cap)
    {limit : Nat} (hf : make t limit = .ok f) (calls : List FeedCall) :
    ((∃ body, Draft.encodeRows s cap rs = .ok body) ∨
        ∃ store, Draft.encodeRows s cap rs = .error (.overflow store)) ∧
      ∀ body, Draft.encodeRows s cap rs = .ok body →
        body.length < 2 ^ 63 → body.length ≤ limit → (t.width = 0 → rs.length ≤ limit) →
          Discerns s t (rs.map Row.slots) (((Session.start f).run calls).feed.loadBody body) := by
  obtain ⟨layout, hl⟩ := Schema.layout_of_finalized hs
  have hencode := Draft.encodeRows_eq hs hl hrs hne hfew
  refine ⟨hencode.imp_left fun hbody => ⟨_, hbody⟩, ?_⟩
  intro body hbody hlen hlimit' hfields
  rcases hencode with hencode | ⟨store, hencode⟩
  · obtain rfl := Except.ok.inj (hencode.symm.trans hbody)
    obtain ⟨hready, hlimit⟩ := Session.ready_run hf calls
    have hrows : ∀ r ∈ rs.map Row.slots, s.Admits r := by
      intro slots hslots
      obtain ⟨r, hr, rfl⟩ := List.mem_map.mp hslots
      exact hrs r hr
    have hsame : (rs.map Row.slots).length = rs.length := List.length_map _
    apply discerns_spell hs hl hready hrows
    · rw [hsame]
      exact Nat.lt_of_le_of_lt hfew hcap
    · exact hlen
    · rwa [hlimit]
    · rwa [hlimit, hsame]
  · cases hencode.symm.trans hbody

/-- Counters that are nine, and not seven, where they are not set. -/
def nines : Schema where
  name := "nines"
  fields := [{ (Field.ofKind "n" .uint64).withDefault (.typed (.uint 9)) with
    resolution := some ⟨.uint64, some (.uint 9)⟩ }]

/-- A feed for them. -/
def ninesFeed : Feed := { Session.counting with schema := nines }

open scoped Builtin

/-- Two counters, of which the second one is not set. -/
def threeAndBlank : List Row :=
  [(Row.blank Schema.counter).put 0 (some (.uint 3)), Row.blank Schema.counter]

theorem discerns_of_encodeRows_nines :
    Draft.encodeRows Schema.counter 4 threeAndBlank = .ok [2, 1, 0, 0, 4, 1, 5, 3, 4] ∧
      (((Session.start ninesFeed).run Session.oneOfTwo).feed.loadBody [2, 1, 0, 0, 4, 1, 5, 3, 4]).2.drain =
        ⟨[[some (.uint 3)], [some (.uint 9)]], none⟩ := by
  have hrs : ∀ r ∈ threeAndBlank, Schema.counter.Admits r.slots := by
    have hblank : Schema.counter.Admits (Row.blank Schema.counter).slots := Row.admits_blank _
    have hset : (Row.blank Schema.counter).set 0 (.uint 3) =
        .ok ((Row.blank Schema.counter).put 0 (some (.uint 3))) := rfl
    exact List.forall_mem_cons.mpr ⟨Row.admits_set hblank hset, List.forall_mem_singleton.mpr hblank⟩
  have hfeed : make nines 64 = .ok ninesFeed := rfl
  have hbody : Draft.encodeRows Schema.counter 4 threeAndBlank = .ok [2, 1, 0, 0, 4, 1, 5, 3, 4] := by
    decide +kernel
  have hcap : 4 < 2 ^ 64 := by decide
  obtain ⟨-, hdiscerns⟩ := discerns_of_encodeRows Schema.finalized_counter hcap hrs
    (by decide) (by decide) hfeed Session.oneOfTwo
  refine ⟨hbody, ?_⟩
  have hreads := (hdiscerns _ hbody (by decide) (by decide) (fun h => absurd h (by decide))).reads rfl
  exact hreads.2.drain

end Feed
end Columnar
