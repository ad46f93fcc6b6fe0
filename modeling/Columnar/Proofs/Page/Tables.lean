import Mathlib.Data.List.Perm.Subperm
import Columnar.Page
import Columnar.Page.Sections
import Columnar.Proofs.Column.Places

/-!
# The tables of a page

Reading a body into the tables of a feed comes to what the body says.  The tables
need not be fresh: what earlier pages left in them is overwritten for every field
of a page that is accepted, since such a page has a section for every field.

## Main definitions

* `PlacedSection.Shows` — a table shows a section of a page.
* `Page.Complete` — a page has one section for every field, with its rows.
* `Sections.Suit` — there is a table for every field, for values of its storage.

## Main results

* `Page.decode_eq_ok_iff` — what it takes for a body to be accepted.
* `Page.complete_of_decode` — a page that is accepted is complete.
* `Sections.decode_follows` — the tables show the page of the body.
-/

namespace Columnar

/-! ### One section -/

namespace PlacedSection

/-- A table shows what a page holds for a field. -/
structure Shows (buffer : List UInt8) (t : PlacedSection) (s : Section) : Prop where
  presence : Cursor.Shows buffer t.presence s.presence
  cells : t.cells.Shows buffer s.cells

variable {buffer : List UInt8}

/-- Reading the inside of a section into a table fails like reading it, or the table shows it. -/
theorem refill_follows (t : PlacedSection) (index rows : Nat) {payload : Cursor}
    (h : payload.LiesIn buffer) :
    match Page.decodePayload index rows t.cells.storage payload.window with
    | .error e => (t.refill index rows payload).1 = .error e
    | .ok s => ∃ t', t.refill index rows payload = (.ok (), t') ∧ t'.Shows buffer s := by
  have hspan := Cursor.follows_span (Presence.claimedLength rows) payload h
  unfold Page.decodePayload refill
  -- presence bits, then cells, then the tests: each step fails where the other does
  cases hp : Take.bytes (Presence.claimedLength rows) payload.window with
  | error e =>
    rw [hp] at hspan
    obtain ⟨mid, hspan⟩ := hspan
    simp only [hspan, bind, Except.bind]
  | ok r =>
    obtain ⟨presence, rest⟩ := r
    rw [hp] at hspan
    obtain ⟨place, mid, hspan, hmid, rfl, -, hshows⟩ := hspan
    have hcells := t.cells.fills_refill mid hmid
    simp only [hspan, bind, Except.bind]
    cases hc : Cells.decode t.cells.storage mid.window with
    | error e =>
      rw [hc] at hcells
      simp only
      generalize t.cells.refill mid = r at hcells ⊢
      obtain ⟨r, cells⟩ := r
      cases hcells
      rfl
    | ok r =>
      obtain ⟨cells, rest⟩ := r
      rw [hc] at hcells
      obtain ⟨last, placed, hcells, hlast, rfl, -, hshow⟩ := hcells
      simp only [hcells, hshow.length_eq, hlast.bounded.isEmpty_eq, hlast.bounded.length_window]
      by_cases hrows : cells.length ≠ rows
      · simp only [if_pos hrows]
        rfl
      · simp only [if_neg hrows]
        by_cases hend : (!last.window.isEmpty) = true
        · simp only [if_pos hend]
          rfl
        · simp only [if_neg hend]
          exact ⟨_, rfl, hshows, hshow⟩

/-- The table of a field stays one for values of its storage. -/
theorem storage_refill (t : PlacedSection) (index rows : Nat) (payload : Cursor) :
    (t.refill index rows payload).2.cells.storage = t.cells.storage := by
  unfold refill
  split
  · rfl
  · next payload' h =>
    have hcells := PlacedCells.storage_refill t.cells payload'
    generalize t.cells.refill payload' = r at hcells
    obtain ⟨r | c, cells⟩ := r <;> exact hcells

end PlacedSection

/-! ### All sections -/

namespace Page

/-- What a page says about a field: its values are stored in a way, and there is one, and a presence
bit, for each of some number of rows. -/
structure SectionFits (rows : Nat) (storage : Storage) (s : Section) : Prop where
  storage : s.cells.storage = storage
  length : s.cells.length = rows
  presence : s.presence.length = Presence.claimedLength rows

/-- The sections are those of different fields, which are not among the ones seen, and each fits its
field. -/
structure Fits (layout : List (Kind × Storage)) (rows : Nat) (seen : List Nat)
    (sections : List (Nat × Section)) : Prop where
  keys : (sections.map Prod.fst).Nodup
  fresh : ∀ s ∈ sections, s.1 ∉ seen
  each : ∀ s ∈ sections, ∃ kind storage, layout[s.1]? = some (kind, storage) ∧
    SectionFits rows storage s.2

variable {layout : List (Kind × Storage)} {rows : Nat}

theorem storage_of_decode {s : Storage} {bs rest : List UInt8} {cells : Cells}
    (h : Cells.decode s bs = .ok (cells, rest)) : cells.storage = s := by
  cases s <;> obtain ⟨r, -, h⟩ := exists_of_bind h <;> cases h <;> rfl

theorem sectionFits_of_decodePayload {index : Nat} {storage : Storage} {payload : List UInt8}
    {s : Section} (h : decodePayload index rows storage payload = .ok s) :
    SectionFits rows storage s := by
  obtain ⟨⟨presence, mid⟩, hp, h⟩ := exists_of_bind h
  obtain ⟨⟨cells, rest⟩, hc, h⟩ := exists_of_bind h
  have hlen : presence.length = Presence.claimedLength rows := by
    unfold Take.bytes at hp
    split at hp
    · next hle =>
      cases hp
      exact List.length_take_of_le hle
    · cases hp
  by_cases hrows : cells.length = rows
  · by_cases hend : rest.isEmpty = true
    · simp [hrows, hend] at h
      cases h
      exact ⟨storage_of_decode hc, hrows, hlen⟩
    · simp [hrows, hend] at h
      cases h
  · simp [hrows] at h
    cases h

/-- What it takes to read the front of a section: its field is one of the layout's and not seen before,
the kind is that of the field, and the inside comes behind its length. -/
theorem takeFront_eq_ok_iff {seen : List Nat} {bs rest payload : List UInt8} {index : Nat}
    {storage : Storage} :
    takeFront layout seen bs = .ok ((index, storage, payload), rest) ↔
      ∃ kind b more, Take.number bs = .ok (index, b :: more) ∧ layout[index]? = some (kind, storage) ∧
        index ∉ seen ∧ Kind.ofByte? b = some kind ∧ Take.prefixed more = .ok (payload, rest) := by
  constructor
  · intro h
    obtain ⟨⟨i, mid⟩, hnumber, h⟩ := exists_of_bind h
    simp only at h
    split at h
    · cases h
    next kind storage' hl =>
    by_cases hseen : i ∈ seen
    · simp [hseen] at h
      cases h
    simp only [if_neg hseen] at h
    obtain ⟨⟨b, more⟩, hbyte, h⟩ := exists_of_bind h
    simp only at h
    split at h
    · cases h
    next hkind =>
    obtain ⟨⟨p, last⟩, hpayload, h⟩ := exists_of_bind h
    cases h
    cases mid with
    | nil => cases hbyte
    | cons _ _ =>
      cases hbyte
      exact ⟨kind, b, more, hnumber, hl, hseen, Decidable.not_not.mp hkind, hpayload⟩
  · rintro ⟨kind, b, more, hnumber, hl, hseen, hkind, hpayload⟩
    rw [takeFront, hnumber]
    simp only [bind, Except.bind, hl, if_neg hseen, pure, Except.pure, Take.byte_cons, hkind, ne_eq,
      not_true_eq_false, if_false, hpayload]

theorem of_takeFront {seen : List Nat} {bs rest payload : List UInt8} {index : Nat} {storage : Storage}
    (h : takeFront layout seen bs = .ok ((index, storage, payload), rest)) :
    index ∉ seen ∧ ∃ kind, layout[index]? = some (kind, storage) := by
  obtain ⟨kind, -, -, -, hl, hseen, -⟩ := takeFront_eq_ok_iff.mp h
  exact ⟨hseen, kind, hl⟩

theorem takeSection_eq_ok_iff {seen : List Nat} {bs rest : List UInt8} {index : Nat} {s : Section} :
    takeSection layout rows seen bs = .ok ((index, s), rest) ↔
      ∃ storage payload, takeFront layout seen bs = .ok ((index, storage, payload), rest) ∧
        decodePayload index rows storage payload = .ok s := by
  constructor
  · intro h
    obtain ⟨⟨⟨i, storage, payload⟩, mid⟩, hfront, h⟩ := exists_of_bind h
    obtain ⟨t, hpayload, h⟩ := exists_of_bind h
    cases h
    exact ⟨storage, payload, hfront, hpayload⟩
  · rintro ⟨storage, payload, hfront, hpayload⟩
    rw [takeSection, hfront]
    show (decodePayload index rows storage payload >>= _) = _
    rw [hpayload]
    rfl

theorem takeSections_succ_eq_ok_iff {count : Nat} {seen : List Nat} {bs rest : List UInt8}
    {sections : List (Nat × Section)} :
    takeSections layout rows (count + 1) seen bs = .ok (sections, rest) ↔
      ∃ s mid more, sections = s :: more ∧ takeSection layout rows seen bs = .ok (s, mid) ∧
        takeSections layout rows count (s.1 :: seen) mid = .ok (more, rest) := by
  constructor
  · intro h
    obtain ⟨⟨s, mid⟩, hone, h⟩ := exists_of_bind h
    obtain ⟨⟨more, last⟩, hmore, h⟩ := exists_of_bind h
    cases h
    exact ⟨s, mid, more, rfl, hone, hmore⟩
  · rintro ⟨s, mid, more, rfl, hone, hmore⟩
    rw [takeSections, hone]
    show (takeSections layout rows count (s.1 :: seen) mid >>= _) = _
    rw [hmore]
    rfl

/-- Reading sections one after the other gives sections of different fields that fit them. -/
theorem fits_of_takeSections {count : Nat} {seen : List Nat} {bs rest : List UInt8}
    {sections : List (Nat × Section)}
    (h : takeSections layout rows count seen bs = .ok (sections, rest)) :
    sections.length = count ∧ Fits layout rows seen sections := by
  induction count generalizing seen bs sections with
  | zero =>
    cases h
    exact ⟨rfl, List.nodup_nil, fun s hs => absurd hs List.not_mem_nil,
      fun s hs => absurd hs List.not_mem_nil⟩
  | succ count ih =>
    obtain ⟨⟨index, t⟩, mid, more, rfl, hone, hmore⟩ := takeSections_succ_eq_ok_iff.mp h
    obtain ⟨storage, payload, hfront, hpayload⟩ := takeSection_eq_ok_iff.mp hone
    obtain ⟨hseen, kind, hlayout⟩ := of_takeFront hfront
    obtain ⟨hlen, hkeys, hfresh, heach⟩ := ih hmore
    refine ⟨by rw [List.length_cons, hlen], ?_, ?_, ?_⟩
    · rw [List.map_cons, List.nodup_cons]
      refine ⟨?_, hkeys⟩
      intro hmem
      obtain ⟨u, hu, hindex⟩ := List.mem_map.mp hmem
      exact hfresh u hu (hindex ▸ List.mem_cons_self)
    · refine List.forall_mem_cons.mpr ⟨hseen, ?_⟩
      intro u hu hmem
      exact hfresh u hu (List.mem_cons_of_mem _ hmem)
    · exact List.forall_mem_cons.mpr
        ⟨⟨kind, storage, hlayout, sectionFits_of_decodePayload hpayload⟩, heach⟩

/-- As many different fields as there are, are all the fields. -/
theorem perm_range_of_nodup {keys : List Nat} {n : Nat} (hnodup : keys.Nodup)
    (hlt : ∀ k ∈ keys, k < n) (hlen : keys.length = n) : keys.Perm (List.range n) := by
  have hsub : keys ⊆ List.range n := fun k hk => List.mem_range.mpr (hlt k hk)
  exact (List.subperm_of_subset hnodup hsub).perm_of_length_le (by simp [hlen])

theorem mem_of_nodup_of_length {keys : List Nat} {n : Nat} (hnodup : keys.Nodup)
    (hlt : ∀ k ∈ keys, k < n) (hlen : keys.length = n) {i : Nat} (hi : i < n) : i ∈ keys :=
  (perm_range_of_nodup hnodup hlt hlen).mem_iff.mpr (List.mem_range.mpr hi)

theorem lookup_of_mem {κ α : Type} [BEq κ] [LawfulBEq κ] {entries : List (κ × α)}
    (h : (entries.map Prod.fst).Nodup) {i : κ} {a : α} (hmem : (i, a) ∈ entries) :
    entries.lookup i = some a := by
  induction entries with
  | nil => cases hmem
  | cons e entries ih =>
    obtain ⟨k, b⟩ := e
    rw [List.map_cons, List.nodup_cons] at h
    rcases List.mem_cons.mp hmem with heq | hmem
    · cases heq
      exact List.lookup_cons_self
    · have hkey := List.mem_map_of_mem (f := Prod.fst) hmem
      have hne : i ≠ k := fun hik => h.1 (hik ▸ hkey)
      rw [List.lookup_cons, beq_false_of_ne hne]
      exact ih h.2 hmem

theorem mem_of_lookup {κ α : Type} [BEq κ] [LawfulBEq κ] {entries : List (κ × α)} {i : κ} {a : α}
    (h : entries.lookup i = some a) : (i, a) ∈ entries := by
  induction entries with
  | nil => cases h
  | cons e entries ih =>
    obtain ⟨k, b⟩ := e
    rw [List.lookup_cons] at h
    by_cases hik : i = k
    · subst hik
      rw [beq_self_eq_true] at h
      cases h
      exact List.mem_cons_self
    · rw [beq_false_of_ne hik] at h
      exact List.mem_cons_of_mem _ (ih h)

/-- A page has a section for every field, and it fits the field. -/
def Complete (layout : List (Kind × Storage)) (p : Page) : Prop :=
  ∀ i kind storage, layout[i]? = some (kind, storage) →
    ∃ s, p.section? i = some s ∧ SectionFits p.rows storage s

/-- Sections of as many different fields as there are make a complete page. -/
theorem Fits.complete {seen : List Nat} {sections : List (Nat × Section)}
    (h : Fits layout rows seen sections) (hlen : sections.length = layout.length) :
    Complete layout ⟨rows, sections⟩ := by
  intro i kind storage hi
  have hlt : ∀ k ∈ sections.map Prod.fst, k < layout.length := by
    intro k hk
    obtain ⟨s, hs, rfl⟩ := List.mem_map.mp hk
    obtain ⟨kind, storage, hl, -⟩ := h.each s hs
    exact (List.getElem?_eq_some_iff.mp hl).1
  have hlt' := (List.getElem?_eq_some_iff.mp hi).1
  -- the sections are for as many fields as there are, so one of them is for this field
  have hmem := mem_of_nodup_of_length h.keys hlt (by rw [List.length_map, hlen]) hlt'
  obtain ⟨⟨k, s⟩, hs, rfl⟩ := List.mem_map.mp hmem
  obtain ⟨kind', storage', hl, hfits⟩ := h.each _ hs
  rw [hl] at hi
  cases hi
  exact ⟨s, lookup_of_mem h.keys hs, hfits⟩

theorem takeCounts_eq_ok_iff {width count : Nat} {bs rest : List UInt8} :
    takeCounts width bs = .ok ((rows, count), rest) ↔
      ∃ mid, Take.number bs = .ok (rows, mid) ∧ Take.number mid = .ok (count, rest) ∧ count = width := by
  constructor
  · intro h
    obtain ⟨⟨n, mid⟩, hrows, h⟩ := exists_of_bind h
    obtain ⟨⟨m, last⟩, hcount, h⟩ := exists_of_bind h
    simp only at h
    split at h
    · cases h
    · next hm =>
      cases h
      exact ⟨mid, hrows, hcount, Decidable.not_not.mp hm⟩
  · rintro ⟨mid, hrows, hcount, rfl⟩
    rw [takeCounts, hrows]
    simp only [bind, Except.bind, hcount, ne_eq, not_true_eq_false, if_false]
    rfl

theorem of_takeCounts {width count : Nat} {bs rest : List UInt8}
    (h : takeCounts width bs = .ok ((rows, count), rest)) : count = width := by
  obtain ⟨mid, -, -, hcount⟩ := takeCounts_eq_ok_iff.mp h
  exact hcount

/-- What it takes for a body to be accepted: the counts are read, then the sections up to the last
byte, and the limit bounds the rows where there are no sections. -/
theorem decode_eq_ok_iff {limit : Nat} {body : List UInt8} {p : Page} :
    decode layout limit body = .ok p ↔
      ∃ count rest, takeCounts layout.length body = .ok ((p.rows, count), rest) ∧
        takeSections layout p.rows count [] rest = .ok (p.sections, []) ∧
        (count = 0 → p.rows ≤ limit) := by
  constructor
  · intro h
    obtain ⟨⟨⟨rows, count⟩, mid⟩, hcounts, h⟩ := exists_of_bind h
    obtain ⟨⟨sections, last⟩, hsections, h⟩ := exists_of_bind h
    simp only at h
    split at h
    · cases h
    · next hend =>
      split at h
      · cases h
      · next hfew =>
        cases h
        obtain rfl : last = [] := by simpa using hend
        exact ⟨count, mid, hcounts, hsections, fun hzero => Nat.not_lt.mp fun hlt => hfew ⟨hzero, hlt⟩⟩
  · rintro ⟨count, rest, hcounts, hsections, hlimit⟩
    have hfew : ¬ (count = 0 ∧ limit < p.rows) := fun h => Nat.not_lt.mpr (hlimit h.1) h.2
    rw [decode, hcounts]
    show (takeSections layout p.rows count [] rest >>= _) = _
    rw [hsections]
    simp only [bind, Except.bind, List.isEmpty_nil, Bool.not_true, Bool.false_eq_true, if_false,
      if_neg hfew]
    rfl

/-- **A page that is accepted has a section for every field**, each with a value and a presence bit for
every row. -/
theorem complete_of_decode {limit : Nat} {body : List UInt8} {p : Page}
    (h : decode layout limit body = .ok p) : Complete layout p := by
  obtain ⟨count, rest, hcounts, hsections, -⟩ := decode_eq_ok_iff.mp h
  obtain ⟨hlen, hfits⟩ := fits_of_takeSections hsections
  exact hfits.complete (hlen.trans (of_takeCounts hcounts))

end Page

/-! ### Tables and page -/

namespace Sections

variable {buffer : List UInt8} {layout : List (Kind × Storage)} {rows : Nat}

theorem follows_takeFront (layout : List (Kind × Storage)) (seen : List Nat) :
    Cursor.Follows buffer (takeFront layout seen) (Page.takeFront layout seen) fun a b =>
      a.1 = b.1 ∧ a.2.1 = b.2.1 ∧ a.2.2.LiesIn buffer ∧ a.2.2.window = b.2.2 := by
  apply Cursor.follows_number.bind
  rintro index _ rfl
  rcases hl : layout[index]? with _ | ⟨kind, storage⟩
  · simp only [hl]
    exact Cursor.follows_error (.damaged (.unknownSection index)) _
  by_cases hseen : index ∈ seen
  · simp only [hl, if_pos hseen]
    exact Cursor.follows_error (.damaged (.repeatedSection index)) _
  simp only [hl, if_neg hseen]
  apply Cursor.follows_byte.bind
  rintro b _ rfl
  by_cases hkind : Kind.ofByte? b ≠ some kind
  · simp only [if_pos hkind]
    exact Cursor.follows_error (.damaged (.kindByte index b kind)) _
  simp only [if_neg hkind]
  simp only [Take.prefixed, bind_assoc]
  apply Cursor.follows_length.bind
  rintro n _ rfl
  apply (Cursor.follows_sub n).bind
  intro inner bs h
  show Cursor.Follows buffer (pure (index, storage, inner))
    (fun rest => .ok ((index, storage, bs), rest)) _
  exact Cursor.follows_pure ⟨rfl, rfl, h⟩

theorem follows_takeCounts (width : Nat) :
    Cursor.Follows buffer (takeCounts width) (Page.takeCounts width) Eq := by
  apply Cursor.follows_number.bind
  rintro rows _ rfl
  apply Cursor.follows_number.bind
  rintro count _ rfl
  by_cases hwidth : count ≠ width
  · simp only [if_pos hwidth]
    exact Cursor.follows_error (.columnCountMismatch width count) _
  · simp only [if_neg hwidth]
    exact Cursor.follows_pure rfl

/-- There is a table for every field, and it is one for values of the field's storage. -/
def Suit (layout : List (Kind × Storage)) (tables : List PlacedSection) : Prop :=
  tables.map (fun t => t.cells.storage) = layout.map Prod.snd

variable {tables : List PlacedSection}

theorem Suit.length_eq (h : Suit layout tables) : tables.length = layout.length := by
  rw [← List.length_map, h, List.length_map]

theorem Suit.storage_getD (h : Suit layout tables) {index : Nat} {kind : Kind} {storage : Storage}
    (hl : layout[index]? = some (kind, storage)) :
    (tables.getD index (.vacant storage)).cells.storage = storage := by
  have hget := congrArg (fun l => l[index]?) h
  simp only [List.getElem?_map, hl, Option.map_some] at hget
  obtain ⟨t, ht, hstorage⟩ := Option.map_eq_some_iff.mp hget
  rw [List.getD_eq_getElem?_getD, ht]
  exact hstorage

/-- A table may be replaced by another one for values of its storage. -/
theorem Suit.set (h : Suit layout tables) {index : Nat} {d t : PlacedSection}
    (ht : t.cells.storage = (tables.getD index d).cells.storage) : Suit layout (tables.set index t) := by
  rw [Suit, List.map_set, ← h, ht]
  apply List.ext_getElem?
  intro i
  rw [List.getElem?_set]
  split
  · next hi =>
    subst hi
    split
    · next hlt =>
      rw [List.length_map] at hlt
      simp [hlt]
    · next hge => rw [List.getElem?_eq_none (Nat.not_lt.mp hge)]
  · rfl

/-- The tables show sections of a page, and the ones for other fields are as they were. -/
structure Filled (buffer : List UInt8) (sections : List (Nat × Section))
    (before after : List PlacedSection) : Prop where
  length : after.length = before.length
  shows : ∀ s ∈ sections, ∃ t, after[s.1]? = some t ∧ t.Shows buffer s.2
  others : ∀ i, i ∉ sections.map Prod.fst → after[i]? = before[i]?

theorem filled_nil (buffer : List UInt8) (tables : List PlacedSection) :
    Filled buffer [] tables tables :=
  ⟨rfl, fun _ h => absurd h List.not_mem_nil, fun _ _ => rfl⟩

theorem takeOne_follows (layout : List (Kind × Storage)) (rows : Nat) (seen : List Nat)
    {tables : List PlacedSection} (hsuit : Suit layout tables) {c : Cursor} (hc : c.LiesIn buffer) :
    match Page.takeSection layout rows seen c.window with
    | .error e => (takeOne layout rows seen tables c).1 = .error e
    | .ok (s, rest) => ∃ c' t, takeOne layout rows seen tables c = (.ok (s.1, c'), tables.set s.1 t) ∧
        c'.LiesIn buffer ∧ c'.window = rest ∧ s.1 < tables.length ∧ t.Shows buffer s.2 ∧
          Suit layout (tables.set s.1 t) := by
  have hfront := @follows_takeFront buffer layout seen c hc
  unfold Page.takeSection takeOne
  cases hf : Page.takeFront layout seen c.window with
  | error e =>
    rw [hf] at hfront
    obtain ⟨c', hfront⟩ := hfront
    simp only [hfront, bind, Except.bind]
  | ok r =>
    obtain ⟨⟨index, storage, payload⟩, rest⟩ := r
    rw [hf] at hfront
    obtain ⟨⟨index', storage', inner⟩, c', hfront, hc', rfl, -, rfl, rfl, hinner, rfl⟩ := hfront
    simp only [hfront, bind, Except.bind]
    obtain ⟨-, kind, hl⟩ := Page.of_takeFront hf
    have hrefill := (tables.getD index' (.vacant storage')).refill_follows index' rows hinner
    rw [hsuit.storage_getD hl] at hrefill
    cases hp : Page.decodePayload index' rows storage' inner.window with
    | error e =>
      rw [hp] at hrefill
      simp only [hrefill]
      rfl
    | ok s =>
      rw [hp] at hrefill
      obtain ⟨t, hrefill, hshows⟩ := hrefill
      have hlt : index' < layout.length := (List.getElem?_eq_some_iff.mp hl).1
      refine ⟨c', t, ?_, hc', rfl, hsuit.length_eq ▸ hlt, hshows, ?_⟩
      · rw [hrefill]
        rfl
      · have hstorage := (tables.getD index' (.vacant storage')).storage_refill index' rows inner
        rw [hrefill] at hstorage
        exact hsuit.set hstorage

theorem takeAll_follows (layout : List (Kind × Storage)) (rows count : Nat) (seen : List Nat)
    {tables : List PlacedSection} (hsuit : Suit layout tables) {c : Cursor} (hc : c.LiesIn buffer) :
    match Page.takeSections layout rows count seen c.window with
    | .error e => (takeAll layout rows count seen tables c).1 = .error e
    | .ok (sections, rest) => ∃ c' after, takeAll layout rows count seen tables c = (.ok c', after) ∧
        c'.LiesIn buffer ∧ c'.window = rest ∧ Filled buffer sections tables after := by
  -- the tables change from section to section, so they are general in the induction
  induction count generalizing seen tables c with
  | zero => exact ⟨c, tables, rfl, hc, rfl, filled_nil buffer tables⟩
  | succ count ih =>
    have hone := takeOne_follows layout rows seen hsuit hc
    unfold Page.takeSections takeAll
    cases hs : Page.takeSection layout rows seen c.window with
    | error e =>
      rw [hs] at hone
      simp only [bind, Except.bind]
      generalize takeOne layout rows seen tables c = r at hone ⊢
      obtain ⟨r, after⟩ := r
      cases hone
      rfl
    | ok r =>
      obtain ⟨⟨index, s⟩, rest⟩ := r
      rw [hs] at hone
      obtain ⟨mid, t, hone, hmid, rfl, hlt, hshows, hsuit'⟩ := hone
      have hmore := ih (index :: seen) hsuit' hmid
      simp only [hone, bind, Except.bind]
      cases hm : Page.takeSections layout rows count (index :: seen) mid.window with
      | error e =>
        rw [hm] at hmore
        exact hmore
      | ok r =>
        obtain ⟨sections, last⟩ := r
        rw [hm] at hmore
        obtain ⟨c', after, hall, hc', hrest, hfilled⟩ := hmore
        refine ⟨c', after, hall, hc', hrest, ?_, ?_, ?_⟩
        · rw [hfilled.length, List.length_set]
        · refine List.forall_mem_cons.mpr ⟨?_, hfilled.shows⟩
          -- the sections that come after are for other fields
          have hfresh := (Page.fits_of_takeSections hm).2.fresh
          have hnot : index ∉ sections.map Prod.fst := by
            intro hmem
            obtain ⟨u, hu, hindex⟩ := List.mem_map.mp hmem
            exact hfresh u hu (hindex ▸ List.mem_cons_self)
          refine ⟨t, ?_, hshows⟩
          show after[index]? = some t
          rw [hfilled.others index hnot, List.getElem?_set_self hlt]
        · intro i hi
          rw [List.map_cons, List.mem_cons, not_or] at hi
          rw [hfilled.others i hi.2, List.getElem?_set_ne (Ne.symm hi.1)]

/-- The tables show the page of a body: the page is complete, and for every field there is a table
that shows the page's section. -/
structure ShowPage (layout : List (Kind × Storage)) (body : List UInt8) (tables : List PlacedSection)
    (p : Page) : Prop where
  length : tables.length = layout.length
  complete : p.Complete layout
  shows : ∀ i s, p.section? i = some s → ∃ t, tables[i]? = some t ∧ t.Shows body s

/-- **Reading a body into tables comes to what the body says**, whatever the tables held before. -/
theorem decode_follows (layout : List (Kind × Storage)) (limit : Nat) {tables : List PlacedSection}
    (hsuit : Suit layout tables) (body : List UInt8) :
    match Page.decode layout limit body with
    | .error e => (decode layout limit tables body).1 = .error e
    | .ok p => ∃ after, decode layout limit tables body = (.ok p.rows, after) ∧
        ShowPage layout body after p := by
  have hcounts := @follows_takeCounts body layout.length _ (Cursor.liesIn_ofBytes body)
  rw [Cursor.window_ofBytes] at hcounts
  unfold Page.decode decode
  cases hn : Page.takeCounts layout.length body with
  | error e =>
    rw [hn] at hcounts
    obtain ⟨c, hcounts⟩ := hcounts
    simp only [hcounts, bind, Except.bind]
  | ok r =>
    obtain ⟨⟨rows, count⟩, rest⟩ := r
    rw [hn] at hcounts
    obtain ⟨counts, c, hcounts, hc, rfl, -, rfl⟩ := hcounts
    have hall := takeAll_follows layout rows count [] hsuit hc
    simp only [hcounts, bind, Except.bind]
    cases hs : Page.takeSections layout rows count [] c.window with
    | error e =>
      rw [hs] at hall
      simp only
      generalize takeAll layout rows count [] tables c = r at hall ⊢
      obtain ⟨r, after⟩ := r
      cases hall
      rfl
    | ok r =>
      obtain ⟨sections, rest⟩ := r
      rw [hs] at hall
      obtain ⟨last, after, hall, hlast, rfl, hfilled⟩ := hall
      obtain ⟨hcount, hfits⟩ := Page.fits_of_takeSections hs
      simp only [hall, hlast.bounded.isEmpty_eq]
      -- bytes that are left over, and rows that no section bounds, are refused by both
      by_cases hrest : (!last.window.isEmpty) = true
      · simp only [if_pos hrest]
        rfl
      simp only [if_neg hrest]
      by_cases hrows : count = 0 ∧ limit < rows
      · simp only [if_pos hrows]
        rfl
      simp only [if_neg hrows]
      refine ⟨after, rfl, hfilled.length.trans hsuit.length_eq, ?_, ?_⟩
      · exact hfits.complete (hcount.trans (Page.of_takeCounts hn))
      · intro i s hi
        exact hfilled.shows (i, s) (Page.mem_of_lookup hi)

theorem suit_takeOne (h : Suit layout tables) (rows : Nat) (seen : List Nat) (c : Cursor) :
    Suit layout (takeOne layout rows seen tables c).2 := by
  unfold takeOne
  split
  · exact h
  · exact h.set (PlacedSection.storage_refill _ _ _ _)

theorem suit_takeAll (h : Suit layout tables) (rows count : Nat) (seen : List Nat) (c : Cursor) :
    Suit layout (takeAll layout rows count seen tables c).2 := by
  induction count generalizing seen tables c with
  | zero => exact h
  | succ count ih =>
    have hone := suit_takeOne h rows seen c
    unfold takeAll
    split
    · next after hafter => rwa [hafter] at hone
    · next index mid after hafter =>
      rw [hafter] at hone
      exact ih hone (index :: seen) mid

/-- Also after a body was refused there is a table for every field. -/
theorem suit_decode (h : Suit layout tables) (limit : Nat) (body : List UInt8) :
    Suit layout (decode layout limit tables body).2 := by
  unfold decode
  split
  · exact h
  · next rows count c _ =>
    have hall := suit_takeAll h rows count [] c
    split
    · next after hafter => rwa [hafter] at hall
    · next last after hafter => rwa [hafter] at hall

end Sections
end Columnar
