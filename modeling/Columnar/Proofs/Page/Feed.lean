import Columnar.Page.Feed
import Columnar.Proofs.Page.Cost
import Columnar.Proofs.Schema.Finalized

/-!
# What a feed hands out

While a feed has a page, its tables show what the body of the page says, and each
of its rows is read out of the buffer without leaving a table or the buffer.  A
feed whose last load failed or found nothing has no rows, whatever its tables still
hold of other pages.

## Main definitions

* `Page.row` — a row of a page under a schema.
* `Feed.Holds` — the feed has loaded a page.
* `Session` — a feed, and what came of the calls since its last load.

## Main results

* `View.get_eq`, `View.toRow_eq`, `Feed.readRow_eq` — the rows handed out are those
  of the page.
* `Session.inv_run` — what holds after any calls.
* `Session.safe_run` — an accepted page is safe to read, a refused one exposes nothing.
-/

namespace Columnar

/-! ### Filling rows -/

namespace Row

theorem refillSlots_eq {cell : Nat → Except Failure (Option Value)} {olds cells : List (Option Value)}
    {i : Nat} (hlen : cells.length = olds.length)
    (h : ∀ (j : Nat) (c : Option Value), cells[j]? = some c → cell (i + j) = .ok c) :
    refillSlots cell i olds = (none, cells) := by
  induction olds generalizing i cells with
  | nil =>
    rw [List.length_nil, List.length_eq_zero_iff] at hlen
    subst hlen
    rfl
  | cons old olds ih =>
    cases cells with
    | nil => cases hlen
    | cons c cells =>
      have hfirst := h 0 c rfl
      have hrest := ih (i := i + 1) (Nat.succ.inj hlen) fun j d hd => by
        have hj : i + 1 + j = i + (j + 1) := by omega
        rw [hj]
        exact h (j + 1) d hd
      rw [Nat.add_zero] at hfirst
      rw [refillSlots, hfirst, hrest]

/-- A row whose slots can all be had is filled with them, whatever it held. -/
theorem refill_eq {cell : Nat → Except Failure (Option Value)} {r : Row} {cells : List (Option Value)}
    (hlen : cells.length = r.slots.length)
    (h : ∀ (j : Nat) (c : Option Value), cells[j]? = some c → cell j = .ok c) :
    ∃ r', r.refill cell = (.ok (), r') ∧ r'.schema = r.schema ∧ r'.slots = cells := by
  have hfill := refillSlots_eq (i := 0) hlen fun j c hc => (Nat.zero_add j).symm ▸ h j c hc
  refine ⟨(r.refill cell).2, ?_, rfl, ?_⟩
  · simp only [refill, hfill]
  · simp only [refill, hfill]

end Row

/-! ### The rows of a page -/

namespace Page

variable {s : Schema} {layout : List (Kind × Storage)} {p : Page}

/-- A row of a page, under the schema it is read with. -/
def row (p : Page) (s : Schema) (k : Nat) : List (Option Value) :=
  (List.range s.width).map fun i =>
    match p.cell s k i with
    | .ok c => c
    | .error _ => none

@[simp] theorem length_row (p : Page) (s : Schema) (k : Nat) : (p.row s k).length = s.width := by
  simp [row]

/-- All rows of a page. -/
def allRows (p : Page) (s : Schema) : List (List (Option Value)) :=
  (List.range p.rows).map (p.row s)

end Page

/-! ### Views -/

namespace Sections

variable {s : Schema} {layout : List (Kind × Storage)} {body : List UInt8}
  {tables : List PlacedSection} {p : Page}

/-- For every field there is a table that shows the page's section, which fits the field. -/
theorem ShowPage.at (h : ShowPage layout body tables p) (hl : s.layout = .ok layout) {i : Nat} {f : Field}
    (hf : s.fields[i]? = some f) :
    ∃ t sec storage, tables[i]? = some t ∧ p.section? i = some sec ∧ t.Shows body sec ∧
      Page.SectionFits p.rows storage sec ∧ f.storage? = some storage := by
  obtain ⟨kind, storage, hentry, hstorage⟩ := Schema.layout_getElem? hl hf
  obtain ⟨sec, hsec, hfits⟩ := h.complete i kind storage hentry
  obtain ⟨t, ht, hshows⟩ := h.shows i sec hsec
  exact ⟨t, sec, storage, ht, hsec, hshows, hfits, hstorage⟩

end Sections

namespace View

/-- What reading a cell relies on: there is a table for the field, the presence bits lie in the buffer
and reach to the row, and fetching its value stays in bounds. -/
def InBounds (v : View) (field : Nat) : Prop :=
  ∃ t, v.tables[field]? = some t ∧ t.presence.Within v.buffer ∧ v.row / 8 < t.presence.length ∧
    t.cells.InBounds v.buffer v.row

variable {s : Schema} {layout : List (Kind × Storage)} {body : List UInt8}
  {tables : List PlacedSection} {p : Page}

theorem inBounds (h : Sections.ShowPage layout body tables p) (hl : s.layout = .ok layout)
    (hfew : p.rows + 7 < 2 ^ 64) {row i : Nat} (hrow : row < p.rows) {f : Field}
    (hf : s.fields[i]? = some f) : (⟨s, body, tables, row⟩ : View).InBounds i := by
  obtain ⟨t, sec, storage, ht, -, hshows, hfits, -⟩ := h.at hl hf
  refine ⟨t, ht, hshows.presence.within, ?_, hshows.cells.inBounds (hfits.length ▸ hrow)⟩
  -- the place of the presence bits is as long as the bytes that are there
  have hlen : t.presence.length = sec.presence.length := by
    have hslice := congrArg List.length hshows.presence.slice
    have hwithin := hshows.presence.within
    unfold Span.Within at hwithin
    rw [Span.slice, List.length_take_of_le (by rw [List.length_drop]; omega)] at hslice
    exact hslice
  rw [hlen, hfits.presence, Presence.claimedLength_eq hfew, Presence.byteLength]
  show row / 8 < _
  omega

theorem isSet_eq (h : Sections.ShowPage layout body tables p) (hl : s.layout = .ok layout) (row : Nat)
    {i : Nat} {f : Field} (hf : s.fields[i]? = some f) :
    (⟨s, body, tables, row⟩ : View).isSet i = p.isSet row i := by
  obtain ⟨t, sec, -, ht, hsec, hshows, -, -⟩ := h.at hl hf
  simp only [isSet, Page.isSet, ht, hsec, hshows.presence.slice]

/-- **A cell of a view is that of the page**, also where reading it fails. -/
theorem get_eq (h : Sections.ShowPage layout body tables p) (hl : s.layout = .ok layout) (row : Nat)
    {i : Nat} {f : Field} (hf : s.fields[i]? = some f) :
    (⟨s, body, tables, row⟩ : View).get i = p.cell s row i := by
  obtain ⟨t, sec, storage, ht, hsec, hshows, -, -⟩ := h.at hl hf
  have hget := hshows.cells.get_eq row
  simp only [get, isSet, Page.cell, ht, hf, hsec, hshows.presence.slice, hget, Option.bind]

/-- A cell of a page can be read: it is a value of the field's storage, or the field's default. -/
theorem exists_cell (h : Sections.ShowPage layout body tables p) (hl : s.layout = .ok layout)
    {row : Nat} (hrow : row < p.rows) {i : Nat} {f : Field} (hf : s.fields[i]? = some f) :
    ∃ c, p.cell s row i = .ok c ∧
      ((∃ v, c = some v ∧ f.storage? = some v.storage) ∨ c = f.default?) := by
  obtain ⟨t, sec, storage, ht, hsec, hshows, hfits, hstorage⟩ := h.at hl hf
  simp only [Page.cell, hf, hsec]
  split
  · obtain ⟨v, hv, hvs⟩ := hshows.cells.exists_get (hfits.length ▸ hrow)
    exact ⟨some v, by rw [hv]; rfl, Or.inl ⟨v, rfl, by rw [hvs, hfits.storage, hstorage]⟩⟩
  · exact ⟨f.default?, rfl, Or.inr rfl⟩

/-- Under a finalized schema every value read has the storage of its field. -/
theorem cell_ok (h : Sections.ShowPage layout body tables p) (hs : s.Finalized) (hl : s.layout = .ok layout)
    {row : Nat} (hrow : row < p.rows) {i : Nat} {f : Field} (hf : s.fields[i]? = some f) :
    ∃ c, p.cell s row i = .ok c ∧ ∀ v, c = some v → f.storage? = some v.storage := by
  obtain ⟨c, hc, ⟨v, rfl, hv⟩ | rfl⟩ := exists_cell h hl hrow hf
  · refine ⟨some v, hc, ?_⟩
    intro w hw
    exact Option.some.inj hw ▸ hv
  · exact ⟨f.default?, hc, fun v hv => Field.storage_of_default? (hs f (List.mem_of_getElem? hf)) hv⟩

/-- The slots of a row of the page, each read. -/
theorem row_getElem? (h : Sections.ShowPage layout body tables p)
    (hl : s.layout = .ok layout) {row : Nat} (hrow : row < p.rows) {i : Nat} {c : Option Value}
    (hc : (p.row s row)[i]? = some c) : p.cell s row i = .ok c := by
  obtain ⟨hi, hc⟩ := List.getElem?_eq_some_iff.mp hc
  rw [Page.length_row] at hi
  -- the cell can be read, so the row does not hold a replacement for it
  obtain ⟨d, hd, -⟩ := exists_cell h hl hrow (List.getElem?_eq_getElem hi)
  have hcell : (p.row s row)[i] = d := by simp [Page.row, hd]
  rw [hd, ← hc, hcell]

/-- A row of the page is well typed. -/
theorem admits_row (h : Sections.ShowPage layout body tables p) (hs : s.Finalized)
    (hl : s.layout = .ok layout) {row : Nat} (hrow : row < p.rows) : s.Admits (p.row s row) where
  length := Page.length_row p s row
  storage := by
    intro i f v hf hv
    have hcell := row_getElem? h hl hrow hv
    obtain ⟨d, hd, hstorage⟩ := cell_ok h hs hl hrow hf
    rw [hcell] at hd
    cases hd
    exact hstorage v rfl

/-- Filling a row of the schema's width from a view succeeds and gives the row of the page. -/
theorem refill_eq (h : Sections.ShowPage layout body tables p)
    (hl : s.layout = .ok layout) {row : Nat} (hrow : row < p.rows) {r : Row} (hr : r.width = s.width) :
    ∃ r', r.refill (⟨s, body, tables, row⟩ : View).get = (.ok (), r') ∧ r'.schema = r.schema ∧
      r'.slots = p.row s row := by
  apply Row.refill_eq ((Page.length_row p s row).trans hr.symm)
  intro i c hc
  have hi : i < s.fields.length := by
    have hlt := (List.getElem?_eq_some_iff.mp hc).1
    rwa [Page.length_row] at hlt
  rw [get_eq h hl row (List.getElem?_eq_getElem hi)]
  exact row_getElem? h hl hrow hc

/-- **The row of a view by itself is the row of the page.** -/
theorem toRow_eq (h : Sections.ShowPage layout body tables p)
    (hl : s.layout = .ok layout) {row : Nat} (hrow : row < p.rows) :
    ∃ r, (⟨s, body, tables, row⟩ : View).toRow = .ok r ∧ r.schema = s ∧ r.slots = p.row s row := by
  have hwidth : (Row.blank s).width = s.width := List.length_replicate
  obtain ⟨r, hfill, hschema, hslots⟩ := refill_eq h hl hrow hwidth
  exact ⟨r, by rw [toRow, hfill], hschema, hslots⟩

end View

/-! ### Feeds -/

namespace Feed

/-- A feed of a schema: it has the schema's layout, and a table for every field. -/
structure Ready (f : Feed) (s : Schema) : Prop where
  schema : f.schema = s
  layout : s.layout = .ok f.layout
  tables : Sections.Suit f.layout f.tables

/-- A feed that has loaded a page. -/
structure Holds (f : Feed) (p : Page) : Prop where
  decoded : Page.decode f.layout f.limit f.body = .ok p
  shows : Sections.ShowPage f.layout f.body f.tables p
  rows : f.rows = p.rows

variable {s : Schema} {f : Feed} {p : Page}

theorem ready_make {limit : Nat} (h : make s limit = .ok f) :
    f.Ready s ∧ f.limit = limit ∧ f.rows = 0 ∧ f.next = 0 := by
  unfold make at h
  cases hl : s.layout with
  | error e =>
    rw [hl] at h
    cases h
  | ok layout =>
    rw [hl] at h
    cases h
    refine ⟨⟨rfl, hl, ?_⟩, rfl, rfl, rfl⟩
    simp [Sections.Suit, PlacedSection.vacant]

/-- The rows of a page that a feed has were paid for with the bytes of its body. -/
theorem Holds.cells_le (hready : f.Ready s) {p : Page} (hp : f.Holds p) :
    s.width * f.rows ≤ f.body.length := by
  rw [hp.rows, ← Schema.length_layout hready.layout]
  exact Page.cells_le_of_decode hp.decoded

/-- So no number of rows with a field to it comes near to wrapping around. -/
theorem Holds.rows_lt (hready : f.Ready s) (hp : f.Holds p) (hroom : f.body.length ≤ maxBuffer) {i : Nat}
    {field : Field} (hf : s.fields[i]? = some field) : p.rows + 7 < 2 ^ 64 := by
  have hwidth : 0 < s.width := Nat.zero_lt_of_lt (List.getElem?_eq_some_iff.mp hf).1
  have hrows := Nat.le_mul_of_pos_left f.rows hwidth
  have hcells := hp.cells_le hready
  rw [← hp.rows]
  unfold maxBuffer at hroom
  omega

/-- There is a feed of a finalized schema. -/
theorem exists_make (hs : s.Finalized) (limit : Nat) : ∃ f, make s limit = .ok f := by
  obtain ⟨layout, hl⟩ := Schema.layout_of_finalized hs
  rw [make, hl]
  exact ⟨_, rfl⟩

theorem Ready.cleared (h : f.Ready s) : f.cleared.Ready s := ⟨h.schema, h.layout, h.tables⟩

/-- Decoding a body gives its page, or leaves the feed without rows. -/
theorem decode_spec (h : f.Ready s) (body : List UInt8) :
    match Page.decode f.layout f.limit body with
    | .error e => ∃ f', f.decode body = (.error e, f') ∧ f'.Ready s ∧ f'.limit = f.limit ∧
        f'.rows = 0 ∧ f'.next = 0
    | .ok p => ∃ f', f.decode body = (.ok (), f') ∧ f'.Ready s ∧ f'.limit = f.limit ∧
        f'.body = body ∧ f'.Holds p ∧ f'.next = 0 := by
  have hfollow := Sections.decode_follows f.layout f.limit h.tables body
  have hsuit := Sections.suit_decode h.tables f.limit body
  unfold Feed.decode
  cases hp : Page.decode f.layout f.limit body with
  | error e =>
    rw [hp] at hfollow
    simp only at hfollow ⊢
    generalize Sections.decode f.layout f.limit f.tables body = r at hfollow hsuit ⊢
    obtain ⟨r, tables⟩ := r
    cases hfollow
    exact ⟨_, rfl, ⟨h.schema, h.layout, hsuit⟩, rfl, rfl, rfl⟩
  | ok p =>
    rw [hp] at hfollow
    obtain ⟨tables, hdecode, hshows⟩ := hfollow
    rw [hdecode] at hsuit ⊢
    exact ⟨_, rfl, ⟨h.schema, h.layout, hsuit⟩, rfl, rfl, ⟨hp, hshows, rfl⟩, rfl⟩

theorem decode_of_error (h : f.Ready s) {body : List UInt8} {e : Failure}
    (hp : Page.decode f.layout f.limit body = .error e) :
    ∃ f', f.decode body = (.error e, f') ∧ f'.Ready s ∧ f'.limit = f.limit ∧ f'.rows = 0 ∧
      f'.next = 0 := by
  have hspec := decode_spec h body
  rwa [hp] at hspec

theorem decode_of_ok (h : f.Ready s) {body : List UInt8}
    (hp : Page.decode f.layout f.limit body = .ok p) :
    ∃ f', f.decode body = (.ok (), f') ∧ f'.Ready s ∧ f'.limit = f.limit ∧ f'.body = body ∧
      f'.Holds p ∧ f'.next = 0 := by
  have hspec := decode_spec h body
  rwa [hp] at hspec

/-- What a load comes to: the feed has a page if it was accepted, and no rows if not. -/
structure Loaded (f : Feed) (s : Schema) (accepted : Bool) : Prop where
  ready : f.Ready s
  room : f.body.length ≤ maxBuffer
  page : accepted = true → ∃ p, f.Holds p
  rows : accepted = false → f.rows = 0

theorem Ready.loaded_cleared (h : f.Ready s) : f.cleared.Loaded s false :=
  ⟨h.cleared, Nat.zero_le _, fun hfalse => (by cases hfalse), fun _ => rfl⟩

theorem loaded_make {limit : Nat} (h : make s limit = .ok f) : f.Loaded s false := by
  obtain ⟨hready, -, hrows, -⟩ := ready_make h
  refine ⟨hready, ?_, fun hfalse => (by cases hfalse), fun _ => hrows⟩
  obtain ⟨layout, -, h⟩ := exists_of_bind h
  cases h
  exact Nat.zero_le _

/-- The result of a load says that a page is there. -/
def accepted : Except Failure Bool → Bool
  | .ok b => b
  | .error _ => false

@[simp] theorem body_decode (f : Feed) (body : List UInt8) : (f.decode body).2.body = body := by
  unfold decode
  split <;> rfl

theorem loaded_decode (h : f.Ready s) {body : List UInt8} (hroom : body.length ≤ maxBuffer) :
    (f.decode body).2.Loaded s (accepted ((f.decode body).1.map fun _ => true)) ∧
      (f.decode body).2.next = 0 := by
  have hbody := (f.body_decode body).symm ▸ hroom
  cases hp : Page.decode f.layout f.limit body with
  | error e =>
    obtain ⟨f', hdecode, hready, -, hrows, hnext⟩ := decode_of_error h hp
    rw [hdecode] at hbody ⊢
    exact ⟨⟨hready, hbody, fun hfalse => (by cases hfalse), fun _ => hrows⟩, hnext⟩
  | ok p =>
    obtain ⟨f', hdecode, hready, -, -, hholds, hnext⟩ := decode_of_ok h hp
    rw [hdecode] at hbody ⊢
    exact ⟨⟨hready, hbody, fun _ => ⟨p, hholds⟩, fun hfalse => (by cases hfalse)⟩, hnext⟩

theorem maxBuffer_lt : maxBuffer < 2 ^ 64 := by decide

/-- A body that is not too long is decoded. -/
theorem loadBody_of_le {body : List UInt8} (h : body.length ≤ f.limit) (hbuffer : body.length ≤ maxBuffer) :
    f.loadBody body = f.decode body := by
  rw [loadBody, if_neg (Nat.not_lt.mpr h), if_neg (Nat.not_lt.mpr hbuffer)]

theorem loaded_loadBody (h : f.Ready s) (body : List UInt8) :
    (f.loadBody body).2.Loaded s (accepted ((f.loadBody body).1.map fun _ => true)) ∧
      (f.loadBody body).2.next = 0 := by
  unfold loadBody
  split
  · exact ⟨h.loaded_cleared, rfl⟩
  · split
    · exact ⟨h.loaded_cleared, rfl⟩
    · next hroom => exact loaded_decode h (Nat.not_lt.mp hroom)

theorem loaded_load (h : f.Ready s) (src : Source) :
    (f.load src).2.1.Loaded s (accepted (f.load src).1) ∧ (f.load src).2.1.next = 0 := by
  unfold load
  split
  · exact ⟨h.loaded_cleared, rfl⟩
  · exact ⟨h.loaded_cleared, rfl⟩
  · obtain ⟨hready, hroom, hpage, hrows⟩ := h.loaded_cleared
    refine ⟨⟨⟨hready.schema, hready.layout, hready.tables⟩, hroom, ?_, hrows⟩, rfl⟩
    exact fun hfalse => by cases hfalse
  · split
    · exact ⟨h.loaded_cleared, rfl⟩
    · split
      · exact ⟨h.loaded_cleared, rfl⟩
      · next hroom =>
        split
        · exact ⟨h.loaded_cleared, rfl⟩
        · exact ⟨h.loaded_cleared, rfl⟩
        · next hread =>
          obtain ⟨rfl, -⟩ := Source.append_of_complete hread
          exact loaded_decode h (Nat.not_lt.mp hroom)

/-! ### The limit on bodies stays -/

theorem limit_decode (f : Feed) (body : List UInt8) : (f.decode body).2.limit = f.limit := by
  unfold decode
  split <;> rfl

theorem limit_loadBody (f : Feed) (body : List UInt8) : (f.loadBody body).2.limit = f.limit := by
  unfold loadBody
  split
  · rfl
  · split
    · rfl
    · exact limit_decode f body

theorem limit_load (f : Feed) (src : Source) : (f.load src).2.1.limit = f.limit := by
  unfold load
  split
  · rfl
  · rfl
  · rfl
  · split
    · rfl
    · split
      · rfl
      · split
        · rfl
        · rfl
        · exact limit_decode f _

/-! ### Handing out rows -/

/-- The view of a row of the page that the feed has. -/
def view (f : Feed) (row : Nat) : View := ⟨f.schema, f.body, f.tables, row⟩

/-- The feed after one more row was handed out. -/
def advanced (f : Feed) : Feed := { f with next := f.next + 1 }

theorem Ready.advanced (h : f.Ready s) : f.advanced.Ready s := ⟨h.schema, h.layout, h.tables⟩

theorem Holds.advanced (h : f.Holds p) : f.advanced.Holds p := ⟨h.decoded, h.shows, h.rows⟩

theorem nextView_of_lt (h : f.next < f.rows) : f.nextView = (some (f.view f.next), f.advanced) :=
  if_pos h

theorem nextView_of_le (h : f.rows ≤ f.next) : f.nextView = (none, f) := if_neg (Nat.not_lt.mpr h)

theorem readRow_of_le (h : f.rows ≤ f.next) (r : Row) : f.readRow r = (.ok false, f, r) := by
  rw [readRow, nextView_of_le h]

/-- A row is read into any row, and counts as handed out also where it does not fit. -/
theorem readRow_of_lt (h : f.next < f.rows) (r : Row) :
    (f.readRow r).1 ≠ .ok false ∧ (f.readRow r).2.1 = f.advanced := by
  rw [readRow, nextView_of_lt h]
  refine ⟨?_, rfl⟩
  show ((r.refill (f.view f.next).get).1.map fun _ => true) ≠ .ok false
  cases (r.refill (f.view f.next).get).1 with
  | error e => exact fun hfalse => by cases hfalse
  | ok u => exact fun hfalse => by cases hfalse

/-- **Reading a row gives the next one of the page**, whatever the given row held. -/
theorem readRow_eq (hready : f.Ready s) (hholds : f.Holds p) (h : f.next < f.rows)
    {r : Row} (hr : r.width = s.width) :
    ∃ r', f.readRow r = (.ok true, f.advanced, r') ∧ r'.schema = r.schema ∧
      r'.slots = p.row s f.next := by
  obtain ⟨r', hfill, hschema, hslots⟩ :=
    View.refill_eq hholds.shows hready.layout (hholds.rows ▸ h) hr
  refine ⟨r', ?_, hschema, hslots⟩
  rw [readRow, nextView_of_lt h]
  have hview : f.view f.next = ⟨s, f.body, f.tables, f.next⟩ := by rw [view, hready.schema]
  simp only [hview, hfill]
  rfl

end Feed

/-! ### Any calls on a feed -/

/-- A call on a feed. -/
inductive FeedCall where
  | load (src : Source)
  | loadBody (body : List UInt8)
  | nextView
  | readRow (r : Row)

/-- A feed, and what came of the calls since its last load. -/
structure Session where
  feed : Feed
  /-- The last load found a page and accepted it. -/
  accepted : Bool
  /-- How many rows were handed out since. -/
  handed : Nat

namespace Session

/-- A feed on which nothing was called yet. -/
def start (f : Feed) : Session := ⟨f, false, 0⟩

def step (u : Session) : FeedCall → Session
  | .load src =>
    let (result, feed, _) := u.feed.load src
    ⟨feed, Feed.accepted result, 0⟩
  | .loadBody body =>
    let (result, feed) := u.feed.loadBody body
    ⟨feed, Feed.accepted (result.map fun _ => true), 0⟩
  | .nextView =>
    match u.feed.nextView with
    | (none, feed) => { u with feed }
    | (some _, feed) => { u with feed, handed := u.handed + 1 }
  | .readRow r =>
    match u.feed.readRow r with
    | (.ok false, feed, _) => { u with feed }
    | (_, feed, _) => { u with feed, handed := u.handed + 1 }

def run (u : Session) (calls : List FeedCall) : Session := calls.foldl step u

/-- The feed is as its last load left it, but for the rows handed out. -/
structure Inv (s : Schema) (u : Session) : Prop where
  loaded : u.feed.Loaded s u.accepted
  handed : u.feed.next = u.handed
  le : u.handed ≤ u.feed.rows

variable {s : Schema} {u : Session}

theorem inv_start {limit : Nat} {f : Feed} (h : Feed.make s limit = .ok f) : (start f).Inv s := by
  obtain ⟨-, -, -, hnext⟩ := Feed.ready_make h
  exact ⟨Feed.loaded_make h, hnext, Nat.zero_le _⟩

/-- Handing out a row changes nothing but the count. -/
theorem Inv.advanced (h : u.Inv s) (hlt : u.feed.next < u.feed.rows) :
    Inv s { u with feed := u.feed.advanced, handed := u.handed + 1 } where
  loaded := by
    obtain ⟨hready, hroom, hpage, hrows⟩ := h.loaded
    refine ⟨hready.advanced, hroom, ?_, hrows⟩
    intro ha
    obtain ⟨p, hp⟩ := hpage ha
    exact ⟨p, hp.advanced⟩
  handed := congrArg (· + 1) h.handed
  le := h.handed ▸ hlt

/-- Calls that ask for a row. -/
def takes : FeedCall → Bool
  | .nextView | .readRow _ => true
  | .load _ | .loadBody _ => false

/-- While there are rows left, asking for one hands it out, whatever becomes of it. -/
theorem step_of_takes {call : FeedCall} (hcall : takes call = true) (hlt : u.feed.next < u.feed.rows) :
    u.step call = { u with feed := u.feed.advanced, handed := u.handed + 1 } := by
  cases call with
  | load src => cases hcall
  | loadBody body => cases hcall
  | nextView => rw [step, Feed.nextView_of_lt hlt]
  | readRow r =>
    obtain ⟨hresult, hfeed⟩ := Feed.readRow_of_lt hlt r
    rw [step, ← hfeed]
    generalize u.feed.readRow r = out at hresult
    obtain ⟨result, feed, r'⟩ := out
    rcases result with e | b
    · rfl
    · cases b with
      | false => exact absurd rfl hresult
      | true => rfl

/-- Once there are none, it changes nothing. -/
theorem step_of_takes_none {call : FeedCall} (hcall : takes call = true)
    (hge : u.feed.rows ≤ u.feed.next) : u.step call = u := by
  cases call with
  | load src => cases hcall
  | loadBody body => cases hcall
  | nextView => rw [step, Feed.nextView_of_le hge]
  | readRow r => rw [step, Feed.readRow_of_le hge]

theorem inv_takes (h : u.Inv s) {call : FeedCall} (hcall : takes call = true) :
    (u.step call).Inv s := by
  by_cases hlt : u.feed.next < u.feed.rows
  · rw [step_of_takes hcall hlt]
    exact h.advanced hlt
  · rw [step_of_takes_none hcall (Nat.not_lt.mp hlt)]
    exact h

theorem inv_step (h : u.Inv s) (call : FeedCall) : (u.step call).Inv s := by
  cases call with
  | load src =>
    obtain ⟨hloaded, hnext⟩ := Feed.loaded_load h.loaded.ready src
    exact ⟨hloaded, hnext, Nat.zero_le _⟩
  | loadBody body =>
    obtain ⟨hloaded, hnext⟩ := Feed.loaded_loadBody h.loaded.ready body
    exact ⟨hloaded, hnext, Nat.zero_le _⟩
  | nextView => exact inv_takes h rfl
  | readRow r => exact inv_takes h rfl

theorem inv_run (h : u.Inv s) (calls : List FeedCall) : (u.run calls).Inv s := by
  induction calls generalizing u with
  | nil => exact h
  | cons call calls ih => exact ih (inv_step h call)

theorem limit_takes (u : Session) {call : FeedCall} (hcall : takes call = true) :
    (u.step call).feed.limit = u.feed.limit := by
  by_cases hlt : u.feed.next < u.feed.rows
  · rw [step_of_takes hcall hlt]
    rfl
  · rw [step_of_takes_none hcall (Nat.not_lt.mp hlt)]

theorem limit_step (u : Session) (call : FeedCall) : (u.step call).feed.limit = u.feed.limit := by
  cases call with
  | load src => exact u.feed.limit_load src
  | loadBody body => exact u.feed.limit_loadBody body
  | nextView => exact limit_takes u rfl
  | readRow r => exact limit_takes u rfl

theorem limit_run (u : Session) (calls : List FeedCall) : (u.run calls).feed.limit = u.feed.limit := by
  induction calls generalizing u with
  | nil => rfl
  | cons call calls ih => exact (ih (u.step call)).trans (limit_step u call)

/-- After any calls the feed is still one of its schema and limit. -/
theorem ready_run {limit : Nat} {f : Feed} (h : Feed.make s limit = .ok f) (calls : List FeedCall) :
    ((start f).run calls).feed.Ready s ∧ ((start f).run calls).feed.limit = limit :=
  ⟨(inv_run (inv_start h) calls).loaded.ready, (limit_run _ calls).trans (Feed.ready_make h).2.1⟩

/-! ### Accepted and refused pages -/

theorem handed_step (h : u.Inv s) {call : FeedCall} (hcall : takes call = true) :
    (u.step call).feed.rows = u.feed.rows ∧
      (u.step call).handed = min (u.handed + 1) u.feed.rows := by
  have hnext := h.handed
  have hle := h.le
  by_cases hlt : u.feed.next < u.feed.rows
  · rw [step_of_takes hcall hlt]
    exact ⟨rfl, (Nat.min_eq_left (hnext ▸ hlt)).symm⟩
  · rw [step_of_takes_none hcall (Nat.not_lt.mp hlt)]
    exact ⟨rfl, by omega⟩

/-- Asking for rows again and again gives the rows that are left and then no more. -/
theorem handed_run (h : u.Inv s) {calls : List FeedCall} (hcalls : ∀ c ∈ calls, takes c = true) :
    (u.run calls).handed = min (u.handed + calls.length) u.feed.rows := by
  induction calls generalizing u with
  | nil => exact (Nat.min_eq_left h.le).symm
  | cons call calls ih =>
    obtain ⟨hcall, hrest⟩ := List.forall_mem_cons.mp hcalls
    obtain ⟨hrows, hhanded⟩ := handed_step h hcall
    have hrun := ih (inv_step h call) hrest
    show ((u.step call).run calls).handed = _
    rw [hrun, hrows, hhanded, List.length_cons]
    omega

/-- What a feed guarantees to its user at any time. -/
structure Safe (s : Schema) (u : Session) : Prop where
  next_le : u.feed.next ≤ u.feed.rows
  handed : u.feed.next = u.handed
  /-- Every cell of an accepted page is read within its tables and the buffer, and its value has the
  storage of the field. -/
  cells : u.accepted = true → ∀ row < u.feed.rows, ∀ (i : Nat) (f : Field), s.fields[i]? = some f →
    (u.feed.view row).InBounds i ∧
      ∃ c, (u.feed.view row).get i = .ok c ∧ ∀ v, c = some v → f.storage? = some v.storage
  /-- So is every row by itself. -/
  toRow : u.accepted = true → ∀ row < u.feed.rows,
    ∃ r, (u.feed.view row).toRow = .ok r ∧ r.schema = s ∧ s.Admits r.slots
  /-- Views are handed out for the rows in order. -/
  nextView : u.accepted = true →
    u.feed.nextView.1 = if u.handed < u.feed.rows then some (u.feed.view u.handed) else none
  /-- Rows of the schema are filled in order. -/
  readRow : u.accepted = true → ∀ r : Row, r.schema = s →
    (u.feed.readRow r).1 = .ok (decide (u.handed < u.feed.rows)) ∧
      (u.handed < u.feed.rows → s.Admits (u.feed.readRow r).2.2.slots)
  /-- As many rows are handed out as the page has, however they are asked for. -/
  exact : ∀ calls : List FeedCall, (∀ c ∈ calls, takes c = true) →
    (u.run calls).handed = min (u.handed + calls.length) u.feed.rows
  /-- A feed without an accepted page hands out nothing. -/
  hidden : u.accepted = false → u.feed.nextView.1 = none ∧ ∀ r, (u.feed.readRow r).1 = .ok false

theorem Inv.safe (hs : s.Finalized) (h : u.Inv s) : u.Safe s := by
  obtain ⟨hready, hroom, hpage, hrows⟩ := h.loaded
  have hnext := h.handed
  have hwidth : ∀ r : Row, r.schema = s → r.width = s.width := fun r hr => hr ▸ r.slots_length
  refine ⟨hnext ▸ h.le, hnext, ?_, ?_, ?_,
    ?_, fun calls => handed_run h, ?_⟩
  · intro ha row hrow i f hf
    obtain ⟨p, hp⟩ := hpage ha
    have hfew := hp.rows_lt hready hroom hf
    rw [hp.rows] at hrow
    rw [Feed.view, hready.schema]
    refine ⟨View.inBounds hp.shows hready.layout hfew hrow hf, ?_⟩
    rw [View.get_eq hp.shows hready.layout row hf]
    exact View.cell_ok hp.shows hs hready.layout hrow hf
  · intro ha row hrow
    obtain ⟨p, hp⟩ := hpage ha
    rw [hp.rows] at hrow
    obtain ⟨r, hr, hschema, hslots⟩ := View.toRow_eq hp.shows hready.layout hrow
    rw [Feed.view, hready.schema]
    exact ⟨r, hr, hschema, hslots ▸ View.admits_row hp.shows hs hready.layout hrow⟩
  · intro ha
    by_cases hlt : u.feed.next < u.feed.rows
    · rw [Feed.nextView_of_lt hlt, if_pos (hnext ▸ hlt), hnext]
    · rw [Feed.nextView_of_le (Nat.not_lt.mp hlt), if_neg (hnext ▸ hlt)]
  · intro ha r hr
    obtain ⟨p, hp⟩ := hpage ha
    by_cases hlt : u.feed.next < u.feed.rows
    · obtain ⟨r', hread, -, hslots⟩ := Feed.readRow_eq hready hp hlt (hwidth r hr)
      rw [hread, decide_eq_true (hnext ▸ hlt)]
      refine ⟨rfl, ?_⟩
      intro _
      rw [hslots]
      exact View.admits_row hp.shows hs hready.layout (hp.rows ▸ hlt)
    · rw [Feed.readRow_of_le (Nat.not_lt.mp hlt), decide_eq_false (hnext ▸ hlt)]
      exact ⟨rfl, fun hlt' => absurd hlt' (hnext ▸ hlt)⟩
  · intro ha
    have hle : u.feed.rows ≤ u.feed.next := hrows ha ▸ Nat.zero_le _
    exact ⟨by rw [Feed.nextView_of_le hle], fun r => by rw [Feed.readRow_of_le hle]⟩

/-- **An accepted page is safe to read and a refused one exposes nothing**, after any calls on a feed of
a finalized schema. -/
theorem safe_run {limit : Nat} {f : Feed} (hs : s.Finalized) (hf : Feed.make s limit = .ok f)
    (calls : List FeedCall) : ((start f).run calls).Safe s :=
  (inv_run (inv_start hf) calls).safe hs

/-- A feed of counters. -/
def counting : Feed := ⟨Schema.counter, [(.uint64, .uint)], 64, [], [.vacant .uint], 0, 0, false⟩

/-- Calls that load a page of two rows, of which the second one has nothing set, and take a row. -/
def oneOfTwo : List FeedCall := [.loadBody [2, 1, 0, 0, 4, 1, 5, 3, 4], .nextView]

theorem safe_run_oneOfTwo : ((start counting).run oneOfTwo).Safe Schema.counter ∧
    ((start counting).run oneOfTwo).accepted = true ∧ ((start counting).run oneOfTwo).handed = 1 := by
  have hfeed : Feed.make Schema.counter 64 = .ok counting := rfl
  exact ⟨safe_run Schema.finalized_counter hfeed oneOfTwo, by decide +kernel, by decide +kernel⟩

end Session
end Columnar
