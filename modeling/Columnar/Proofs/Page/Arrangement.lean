import Mathlib.Data.List.Perm.Basic
import Columnar.Proofs.Page.Handout
import Columnar.Proofs.Bytes.Spellings
import Columnar.Proofs.Page.Cost
import Columnar.Proofs.Page.Reloading

/-!
# The order of the sections

A body falls apart into two counts and its sections, however the numbers in it are
spelled, and each section shows where it ends.  It is tagged with the position of its
field, and what is read for a field depends on that section alone, wherever it stands.
So the sections of an accepted body can be rearranged at will.  What cannot be done is
to change the fields that they are for: these are all fields of the schema, each once.

## Main definitions

* `Page.Piece`, `Page.Parts` — a section and a body, taken apart.
* `Page.Parts.Says` — the parts of a body are those of a page.

## Main results

* `Page.decode_bytes_iff`, `Page.exists_parts` — a body is accepted if it has parts
  that are those of a page.
* `Page.Parts.Says.rearranged` — then it is in any other order, as a page that says the same.
* `Session.found_by_tag` — what this means for a feed.
-/

namespace Columnar

/-- What is behind a length is as long as that. -/
theorem Take.number_of_prefixed {text bs rest : List UInt8} (h : prefixed text = .ok (bs, rest)) :
    number text = .ok (bs.length, bs ++ rest) := by
  obtain ⟨⟨n, mid⟩, hlength, h⟩ := exists_of_bind h
  obtain ⟨⟨m, more⟩, hnumber, hlength⟩ := exists_of_bind hlength
  simp only at hlength
  split at hlength
  · next hle =>
    cases hlength
    simp only [bytes, if_pos hle] at h
    cases h
    rw [hnumber, List.take_append_drop, List.length_take_of_le hle]
  · cases hlength

namespace Page

/-! ### Bodies in parts -/

/-- A section as it stands in a body: which field it is for and of which kind, and behind its length
what is inside. -/
structure Piece where
  field : Nat
  kind : UInt8
  payload : List UInt8
  tag : Leb128.Spelling field
  size : Leb128.Spelling payload.length

def Piece.bytes (c : Piece) : List UInt8 := c.tag.bytes ++ c.kind :: (c.size.bytes ++ c.payload)

theorem Piece.bytes_ne_nil (c : Piece) : c.bytes ≠ [] := by
  simp [bytes]

/-- The parts of a body: the number of its rows, the number of its sections, and sections, of which
there may be another number. -/
structure Parts where
  rows : Nat
  count : Nat
  rowsSpelling : Leb128.Spelling rows
  countSpelling : Leb128.Spelling count
  pieces : List Piece

namespace Parts

def bytes (w : Parts) : List UInt8 :=
  w.rowsSpelling.bytes ++ (w.countSpelling.bytes ++ w.pieces.flatMap Piece.bytes)

/-- The fields that the sections are for, in their order. -/
def fields (w : Parts) : List Nat := w.pieces.map Piece.field

/-- The same counts before other sections. -/
def withPieces (w : Parts) (pieces : List Piece) : Parts := { w with pieces }

theorem length_bytes_withPieces {w : Parts} {pieces : List Piece} (h : pieces.Perm w.pieces) :
    (w.withPieces pieces).bytes.length = w.bytes.length := by
  simp only [bytes, withPieces, List.length_append, (h.flatMap_right Piece.bytes).length_eq]

end Parts

variable {layout : List (Kind × Storage)} {rows count limit : Nat} {seen : List Nat}
  {body bs rest left : List UInt8} {c : Piece} {pieces : List Piece} {s : Nat × Section}
  {sections : List (Nat × Section)} {w : Parts} {p : Page}

/-- What is read of a section, if it is for a field that there is, and of its kind. -/
def Piece.Reads (layout : List (Kind × Storage)) (rows : Nat) (c : Piece) (s : Nat × Section) : Prop :=
  s.1 = c.field ∧ ∃ kind storage, layout[c.field]? = some (kind, storage) ∧
    Kind.ofByte? c.kind = some kind ∧ decodePayload c.field rows storage c.payload = .ok s.2

/-- The parts of a body are those of a page: the sections are as many as they are said to be, for as
many different fields, and what is read of them is what the page says. -/
structure Parts.Says (layout : List (Kind × Storage)) (limit : Nat) (w : Parts) (p : Page) : Prop where
  count : w.count = layout.length
  length : w.pieces.length = w.count
  nodup : w.fields.Nodup
  limit : w.count = 0 → w.rows ≤ limit
  rows : p.rows = w.rows
  sections : List.Forall₂ (Piece.Reads layout w.rows) w.pieces p.sections

/-! ### Reading the parts -/

theorem Piece.number_bytes (c : Piece) (rest : List UInt8) : Take.number (c.bytes ++ rest) =
    .ok (c.field, c.kind :: (c.size.bytes ++ (c.payload ++ rest))) := by
  rw [bytes, List.append_assoc, List.cons_append, List.append_assoc]
  exact c.tag.decode_append _

theorem Piece.prefixed_bytes (c : Piece) (rest : List UInt8) :
    Take.prefixed (c.size.bytes ++ (c.payload ++ rest)) = .ok (c.payload, rest) :=
  Take.prefixed_of_number (c.size.decode_append _)

/-- A section is read for what it is, whatever comes after it. -/
theorem takeSection_bytes_iff :
    takeSection layout rows seen (c.bytes ++ rest) = .ok (s, left) ↔
      left = rest ∧ c.field ∉ seen ∧ c.Reads layout rows s := by
  obtain ⟨index, t⟩ := s
  rw [takeSection_eq_ok_iff]
  constructor
  · rintro ⟨storage, payload, hfront, hpayload⟩
    obtain ⟨kind, b, more, hnumber, hl, hseen, hkind, hprefixed⟩ := takeFront_eq_ok_iff.mp hfront
    rw [c.number_bytes] at hnumber
    cases hnumber
    rw [c.prefixed_bytes] at hprefixed
    cases hprefixed
    exact ⟨rfl, hseen, rfl, kind, storage, hl, hkind, hpayload⟩
  · rintro ⟨rfl, hseen, rfl, kind, storage, hl, hkind, hpayload⟩
    refine ⟨storage, c.payload, ?_, hpayload⟩
    exact takeFront_eq_ok_iff.mpr
      ⟨kind, c.kind, _, c.number_bytes left, hl, hseen, hkind, c.prefixed_bytes left⟩

/-- Sections are read one after the other, to the last one, if they are for different fields. -/
theorem takeSections_bytes_iff :
    takeSections layout rows count seen (pieces.flatMap Piece.bytes) = .ok (sections, []) ↔
      pieces.length = count ∧ (∀ c ∈ pieces, c.field ∉ seen) ∧ (pieces.map Piece.field).Nodup ∧
        List.Forall₂ (Piece.Reads layout rows) pieces sections := by
  induction pieces generalizing count seen sections with
  | nil =>
    cases count with
    | zero =>
      constructor
      · intro h
        cases h
        exact ⟨rfl, fun c hc => absurd hc List.not_mem_nil, List.nodup_nil, .nil⟩
      · rintro ⟨-, -, -, hall⟩
        cases hall
        rfl
    | succ count =>
      -- there is nothing left to read another section from
      constructor
      · intro h
        cases h
      · rintro ⟨hlen, -⟩
        cases hlen
  | cons c pieces ih =>
    rw [List.flatMap_cons, List.forall_mem_cons, List.map_cons, List.nodup_cons]
    cases count with
    | zero =>
      -- a section is left over
      constructor
      · intro h
        have hnil := congrArg Prod.snd (Except.ok.inj h)
        exact absurd (List.append_eq_nil_iff.mp hnil).1 c.bytes_ne_nil
      · rintro ⟨hlen, -⟩
        cases hlen
    | succ count =>
      rw [takeSections_succ_eq_ok_iff]
      constructor
      · rintro ⟨s, mid, more, rfl, hone, hmore⟩
        obtain ⟨rfl, hseen, hreads⟩ := takeSection_bytes_iff.mp hone
        obtain ⟨hlen, hfresh, hnodup, hall⟩ := ih.mp hmore
        rw [hreads.1] at hfresh
        refine ⟨congrArg (· + 1) hlen, ⟨hseen, ?_⟩, ⟨?_, hnodup⟩, .cons hreads hall⟩
        · exact fun d hd hmem => hfresh d hd (List.mem_cons_of_mem _ hmem)
        · intro hmem
          obtain ⟨d, hd, hfield⟩ := List.mem_map.mp hmem
          exact hfresh d hd (hfield ▸ List.mem_cons_self)
      · rintro ⟨hlen, ⟨hseen, hfresh⟩, ⟨hnot, hnodup⟩, hall⟩
        cases hall with
        | cons hreads hall =>
          refine ⟨_, _, _, rfl, takeSection_bytes_iff.mpr ⟨rfl, hseen, hreads⟩,
            ih.mpr ⟨Nat.succ.inj hlen, ?_, hnodup, hall⟩⟩
          intro d hd hmem
          rcases List.mem_cons.mp hmem with hsame | hmem
          · exact hnot (hreads.1 ▸ hsame ▸ List.mem_map_of_mem hd)
          · exact hfresh d hd hmem

theorem takeCounts_bytes_iff {width : Nat} :
    takeCounts width w.bytes = .ok ((rows, count), rest) ↔
      rows = w.rows ∧ count = w.count ∧ rest = w.pieces.flatMap Piece.bytes ∧ w.count = width := by
  have hrows : Take.number w.bytes = .ok (w.rows, _) := w.rowsSpelling.decode_append _
  have hcount : Take.number (w.countSpelling.bytes ++ w.pieces.flatMap Piece.bytes) =
      .ok (w.count, _) := w.countSpelling.decode_append _
  rw [takeCounts_eq_ok_iff]
  constructor
  · rintro ⟨mid, hrows', hcount', rfl⟩
    rw [hrows] at hrows'
    cases hrows'
    rw [hcount] at hcount'
    cases hcount'
    exact ⟨rfl, rfl, rfl, rfl⟩
  · rintro ⟨rfl, rfl, rfl, rfl⟩
    exact ⟨_, hrows, hcount, rfl⟩

/-- **A body is accepted if its parts are those of a page.** -/
theorem decode_bytes_iff : decode layout limit w.bytes = .ok p ↔ w.Says layout limit p := by
  rw [decode_eq_ok_iff]
  constructor
  · rintro ⟨count, rest, hcounts, hsections, hlimit⟩
    obtain ⟨hrows, rfl, rfl, hwidth⟩ := takeCounts_bytes_iff.mp hcounts
    obtain ⟨hlen, -, hnodup, hall⟩ := takeSections_bytes_iff.mp hsections
    exact ⟨hwidth, hlen, hnodup, hrows ▸ hlimit, hrows, hrows ▸ hall⟩
  · rintro ⟨hwidth, hlen, hnodup, hlimit, hrows, hall⟩
    refine ⟨w.count, _, takeCounts_bytes_iff.mpr ⟨hrows, rfl, rfl, hwidth⟩, ?_, hrows ▸ hlimit⟩
    exact takeSections_bytes_iff.mpr
      ⟨hlen, fun _ _ hmem => absurd hmem List.not_mem_nil, hnodup, hrows ▸ hall⟩

/-! ### Taking a body apart -/

theorem exists_piece (h : takeSection layout rows seen bs = .ok (s, rest)) :
    ∃ c : Piece, bs = c.bytes ++ rest := by
  obtain ⟨index, t⟩ := s
  obtain ⟨storage, payload, hfront, -⟩ := takeSection_eq_ok_iff.mp h
  obtain ⟨kind, b, more, hnumber, -, -, -, hprefixed⟩ := takeFront_eq_ok_iff.mp hfront
  obtain ⟨tag, rfl⟩ := Leb128.exists_spelling hnumber
  obtain ⟨size, rfl⟩ := Leb128.exists_spelling (Take.number_of_prefixed hprefixed)
  exact ⟨⟨index, b, payload, tag, size⟩, by simp only [Piece.bytes, List.append_assoc, List.cons_append]⟩

theorem exists_pieces (h : takeSections layout rows count seen bs = .ok (sections, rest)) :
    ∃ pieces : List Piece, bs = pieces.flatMap Piece.bytes ++ rest := by
  induction count generalizing seen bs sections with
  | zero =>
    cases h
    exact ⟨[], rfl⟩
  | succ count ih =>
    obtain ⟨s, mid, more, -, hone, hmore⟩ := takeSections_succ_eq_ok_iff.mp h
    obtain ⟨c, rfl⟩ := exists_piece hone
    obtain ⟨pieces, rfl⟩ := ih hmore
    exact ⟨c :: pieces, (List.append_assoc ..).symm⟩

/-- **A body that is accepted falls apart into its parts.** -/
theorem exists_parts (h : decode layout limit body = .ok p) : ∃ w : Parts, w.bytes = body := by
  obtain ⟨count, rest, hcounts, hsections, -⟩ := decode_eq_ok_iff.mp h
  obtain ⟨mid, hrows, hcount, -⟩ := takeCounts_eq_ok_iff.mp hcounts
  obtain ⟨rowsSpelling, rfl⟩ := Leb128.exists_spelling hrows
  obtain ⟨countSpelling, rfl⟩ := Leb128.exists_spelling hcount
  obtain ⟨pieces, rfl⟩ := exists_pieces hsections
  exact ⟨⟨p.rows, count, rowsSpelling, countSpelling, pieces⟩, by rw [Parts.bytes, List.append_nil]⟩

/-! ### Other sections behind the counts -/

theorem lookup_eq_some_iff {α : Type} {entries : List (Nat × α)} (h : (entries.map Prod.fst).Nodup)
    {i : Nat} {a : α} : entries.lookup i = some a ↔ (i, a) ∈ entries :=
  ⟨mem_of_lookup, lookup_of_mem h⟩

theorem lookup_eq_of_perm {α : Type} {entries entries' : List (Nat × α)} (hperm : entries.Perm entries')
    (h : (entries.map Prod.fst).Nodup) (i : Nat) : entries.lookup i = entries'.lookup i := by
  have h' : (entries'.map Prod.fst).Nodup := (hperm.map _).nodup_iff.mp h
  ext a
  rw [lookup_eq_some_iff h, lookup_eq_some_iff h', hperm.mem_iff]

/-- What is read is for the fields that the sections are for. -/
theorem map_fst_of_reads (h : List.Forall₂ (Piece.Reads layout rows) pieces sections) :
    sections.map Prod.fst = pieces.map Piece.field := by
  induction h with
  | nil => rfl
  | cons hreads _ ih => rw [List.map_cons, List.map_cons, hreads.1, ih]

namespace Parts

/-- **There is one section for each field.** -/
theorem Says.perm_range (h : w.Says layout limit p) : w.fields.Perm (List.range layout.length) := by
  apply perm_range_of_nodup h.nodup
  · intro i hi
    obtain ⟨c, hc, rfl⟩ := List.mem_map.mp hi
    obtain ⟨s, -, -, kind, storage, hl, -⟩ := exists_of_forall₂ h.sections hc
    exact (List.getElem?_eq_some_iff.mp hl).1
  · rw [fields, List.length_map, h.length, h.count]

/-- **In any other order the sections are those of a page that says the same.** -/
theorem Says.rearranged (h : w.Says layout limit p) (hperm : pieces.Perm w.pieces) :
    ∃ q, (w.withPieces pieces).Says layout limit q ∧ p.Agree q := by
  obtain ⟨sections, hall, hsections⟩ := List.perm_comp_forall₂ hperm h.sections
  have hkeys : (p.sections.map Prod.fst).Nodup := by
    rw [map_fst_of_reads h.sections]
    exact h.nodup
  refine ⟨⟨w.rows, sections⟩, ⟨h.count, hperm.length_eq.trans h.length, ?_, h.limit, rfl, hall⟩,
    h.rows, lookup_eq_of_perm hsections.symm hkeys⟩
  exact (hperm.map Piece.field).nodup_iff.mpr h.nodup

/-- A section for another field leaves a field without one. -/
theorem Says.not_says_set (h : w.Says layout limit p) {i : Nat} {old : Piece}
    (hold : w.pieces[i]? = some old) (hfield : c.field ≠ old.field) (q : Page) :
    ¬ (w.withPieces (w.pieces.set i c)).Says layout limit q := by
  intro hset
  obtain ⟨hi, hget⟩ := List.getElem?_eq_some_iff.mp hold
  have hbefore : w.fields.Perm (old.field :: (w.pieces.eraseIdx i).map Piece.field) := by
    have hpieces := List.getElem_cons_eraseIdx_perm hi
    rw [hget] at hpieces
    exact (hpieces.map Piece.field).symm
  have hafter : (w.withPieces (w.pieces.set i c)).fields.Perm
      (c.field :: (w.pieces.eraseIdx i).map Piece.field) :=
    (List.set_perm_cons_eraseIdx hi c).map Piece.field
  -- both are all fields, but the old one can neither be the new one nor one of the others
  have hsame := hafter.symm.trans (hset.perm_range.trans (h.perm_range.symm.trans hbefore))
  have hmem := hsame.mem_iff.mpr List.mem_cons_self
  have hnot := (List.nodup_cons.mp (hbefore.nodup_iff.mp h.nodup)).1
  rcases List.mem_cons.mp hmem with heq | hmem
  · exact hfield heq.symm
  · exact hnot hmem

/-- So does leaving one out, whatever the counts say. -/
theorem Says.not_says_eraseIdx (h : w.Says layout limit p) {i : Nat} (hi : i < w.pieces.length)
    {w' : Parts} (hpieces : w'.pieces = w.pieces.eraseIdx i) (limit' : Nat) (q : Page) :
    ¬ w'.Says layout limit' q := by
  intro hless
  have hlen := hless.length.trans (hless.count.trans (h.count.symm.trans h.length.symm))
  rw [hpieces, List.length_eraseIdx_of_lt hi] at hlen
  omega

end Parts
end Page

/-! ### Loading -/

namespace Feed

variable {s : Schema} {f g : Feed} {body body' : List UInt8} {p q : Page}

/-- A body is accepted if it is within the limit and what a buffer can hold, and there is a page of it. -/
theorem loadBody_eq_ok_iff (hf : f.Ready s) :
    (f.loadBody body).1 = .ok () ↔
      body.length ≤ f.limit ∧ body.length ≤ maxBuffer ∧
        ∃ p, Page.decode f.layout f.limit body = .ok p := by
  constructor
  · intro haccepted
    obtain ⟨hlimit, hbuffer, p, hp, -⟩ := page_of_loadBody hf haccepted
    exact ⟨hlimit, hbuffer, p, hp⟩
  · rintro ⟨hlimit, hbuffer, p, hp⟩
    obtain ⟨f', hdecode, -⟩ := decode_of_ok hf hp
    rw [loadBody_of_le hlimit hbuffer, hdecode]

/-- The body is refused, and no row of it is left.  If it is a body that a buffer can hold, it is for
what is wrong with it. -/
def Refuses (f : Feed) (body : List UInt8) : Prop :=
  ∃ e, (f.loadBody body).1 = .error e ∧ (body.length ≤ maxBuffer → e.OfDecoding) ∧
    (f.loadBody body).2.rows = 0

theorem refuses_of_decode (hf : f.Ready s)
    (h : ∀ p, Page.decode f.layout f.limit body ≠ .ok p) : f.Refuses body := by
  by_cases hle : body.length ≤ f.limit
  · by_cases hbuffer : body.length ≤ maxBuffer
    · cases hp : Page.decode f.layout f.limit body with
      | ok p => exact absurd hp (h p)
      | error e =>
        obtain ⟨f', hdecode, -, -, hrows, -⟩ := decode_of_error hf hp
        rw [Refuses, loadBody_of_le hle hbuffer, hdecode]
        exact ⟨e, rfl, fun _ => Page.ofDecoding_of_decode hp, hrows⟩
    · rw [Refuses, loadBody, if_neg (Nat.not_lt.mpr hle), if_pos (Nat.not_le.mp hbuffer)]
      exact ⟨_, rfl, fun hfits => absurd hfits hbuffer, rfl⟩
  · rw [Refuses, loadBody, if_pos (Nat.not_le.mp hle)]
    exact ⟨_, rfl, fun _ => .damaged _, rfl⟩

/-- Bodies of one length whose pages say the same leave two feeds alike. -/
theorem level_loadBody_of_agree (hf : f.Ready s) (hg : g.Ready s) (hlimit : f.limit = g.limit)
    (hlength : body.length = body'.length) (hle : body.length ≤ f.limit)
    (hbuffer : body.length ≤ maxBuffer)
    (hp : Page.decode f.layout f.limit body = .ok p) (hq : Page.decode g.layout g.limit body' = .ok q)
    (hpages : p.Agree q) : Level s (f.loadBody body).2 (g.loadBody body').2 := by
  have hle' : body'.length ≤ g.limit := hlength ▸ hlimit ▸ hle
  obtain ⟨f', hdf, hf', hlf, hbf, hpf, hnf⟩ := decode_of_ok hf hp
  obtain ⟨g', hdg, hg', hlg, hbg, hqg, hng⟩ := decode_of_ok hg hq
  have hmark : (f.decode body).2.terminated = (g.decode body').2.terminated := by simp
  rw [loadBody_of_le hle hbuffer, loadBody_of_le hle' (hlength ▸ hbuffer)]
  rw [hdf, hdg] at hmark ⊢
  refine level_of_holds hf' hg' (hlf.trans (hlimit.trans hlg.symm)) ?_ hmark (hnf.trans hng.symm) hpf
    hqg hpages
  rw [pageLength, pageLength, hbf, hbg, hlength]

end Feed

namespace Session

variable {s : Schema}

/-- **Sections are found by the tag of their field, not by their place.**  A body that is accepted falls
apart into its parts, and however it does, it has one section for each field of the schema.  With its
sections in any other order it is accepted too, by this feed and by any other, and from then on, whatever
is called, nothing tells the feeds apart: they have the same rows with the same values and presence bits.
A body in which a section is replaced by one for another field, or left out whatever the counts are, is
refused. -/
theorem found_by_tag (hs : s.Finalized) (limit : Nat) :
    ∃ fresh, Feed.make s limit = .ok fresh ∧
      ∀ (before : List FeedCall) (body : List UInt8),
        let f := ((start fresh).run before).feed
        (f.loadBody body).1 = .ok () →
        (∃ w : Page.Parts, w.bytes = body) ∧
        ∀ w : Page.Parts, w.bytes = body →
          w.fields.Perm (List.range s.width) ∧
          (∀ pieces, pieces.Perm w.pieces → ∀ before' : List FeedCall,
            let moved := (w.withPieces pieces).bytes
            (((start fresh).run before').feed.loadBody moved).1 = .ok () ∧
            ∀ after : List FeedCall,
              let given := ((start fresh).run (before ++ .loadBody body :: after)).feed
              let rearranged := ((start fresh).run (before' ++ .loadBody moved :: after)).feed
              given.Alike rearranged ∧ ∀ call, given.answer call = rearranged.answer call) ∧
          (∀ (i : Nat) (old c : Page.Piece), w.pieces[i]? = some old → c.field ≠ old.field →
            f.Refuses (w.withPieces (w.pieces.set i c)).bytes) ∧
          ∀ (i : Nat) (w' : Page.Parts), i < w.pieces.length → w'.pieces = w.pieces.eraseIdx i →
            f.Refuses w'.bytes := by
  obtain ⟨fresh, hfresh⟩ := Feed.exists_make hs limit
  refine ⟨fresh, hfresh, ?_⟩
  intro before body f haccepted
  obtain ⟨hf, hlimit⟩ := ready_run hfresh before
  obtain ⟨hle, hbuffer, p, hp⟩ := (Feed.loadBody_eq_ok_iff hf).mp haccepted
  refine ⟨Page.exists_parts hp, ?_⟩
  rintro w rfl
  have hsays := Page.decode_bytes_iff.mp hp
  refine ⟨?_, ?_, ?_, ?_⟩
  · exact Schema.length_layout hf.layout ▸ hsays.perm_range
  · intro pieces hperm before' moved
    obtain ⟨hg, hlimit'⟩ := ready_run hfresh before'
    have hsame := hlimit.trans hlimit'.symm
    obtain ⟨q, hmoved, hpages⟩ := hsays.rearranged hperm
    have hq := Page.decode_bytes_iff.mpr hmoved
    have hlength : moved.length = w.bytes.length := Page.Parts.length_bytes_withPieces hperm
    rw [hf.layout_eq hg, hsame] at hq
    have hlevel := Feed.level_loadBody_of_agree hf hg hsame hlength.symm hle hbuffer hp hq hpages
    refine ⟨(Feed.loadBody_eq_ok_iff hg).mpr ⟨hsame ▸ hlength ▸ hle, hlength ▸ hbuffer, q, hq⟩,
      alike_run hlevel⟩
  · intro i old c hold hfield
    apply Feed.refuses_of_decode hf
    intro q hq
    exact hsays.not_says_set hold hfield q (Page.decode_bytes_iff.mp hq)
  · intro i w' hi hpieces
    apply Feed.refuses_of_decode hf
    intro q hq
    exact hsays.not_says_eraseIdx hi hpieces _ q (Page.decode_bytes_iff.mp hq)

/-- A feed of points with two coordinates. -/
def plotting : Feed where
  schema := {
    name := "point"
    fields := [{ Field.ofKind "x" .uint64 with resolution := some ⟨.uint64, none⟩ },
      { (Field.ofKind "y" .uint64).withDefault (.typed (.uint 7)) with
        resolution := some ⟨.uint64, some (.uint 7)⟩ }] }
  layout := [(.uint64, .uint), (.uint64, .uint)]
  limit := 64
  body := []
  tables := [.vacant .uint, .vacant .uint]
  rows := 0
  next := 0
  terminated := false

theorem finalized_plotting : plotting.schema.Finalized := by
  refine List.forall_mem_cons.mpr ⟨?_, List.forall_mem_singleton.mpr ?_⟩
  · exact ⟨_, .uint, rfl, rfl, fun v hv => by cases hv⟩
  · exact ⟨_, .uint, rfl, rfl, fun v hv => by cases hv; rfl⟩

/-- The first coordinates of two points. -/
def xs : Page.Piece := ⟨0, 0, [1, 5, 3, 4], ⟨[0], rfl⟩, ⟨[4], rfl⟩⟩

/-- The second ones, behind a tag that is longer than it has to be. -/
def ys : Page.Piece := ⟨1, 0, [2, 5, 3, 4], ⟨[129, 0], rfl⟩, ⟨[4], rfl⟩⟩

/-- The two points. -/
def points : Page.Parts := ⟨2, 2, ⟨[2], rfl⟩, ⟨[2], rfl⟩, [xs, ys]⟩

theorem found_by_tag_points :
    Feed.make plotting.schema 64 = .ok plotting ∧
      points.bytes = [2, 2, 0, 0, 4, 1, 5, 3, 4, 129, 0, 0, 4, 2, 5, 3, 4] ∧
      (plotting.loadBody points.bytes).1 = .ok () ∧
      (plotting.loadBody (points.withPieces [ys, xs]).bytes).1 = .ok () ∧
      ((start plotting).run [.loadBody points.bytes]).feed.Alike
        ((start plotting).run [.loadBody (points.withPieces [ys, xs]).bytes]).feed ∧
      plotting.Refuses (points.withPieces [ys, ys]).bytes ∧
      plotting.Refuses (points.withPieces [xs]).bytes := by
  obtain ⟨fresh, hfresh, hfound⟩ := found_by_tag finalized_plotting 64
  have hfeed : Feed.make plotting.schema 64 = .ok plotting := rfl
  obtain rfl : plotting = fresh := Except.ok.inj (hfeed.symm.trans hfresh)
  have haccepted : (plotting.loadBody points.bytes).1 = .ok () := by decide +kernel
  obtain ⟨-, hparts⟩ := hfound [] points.bytes haccepted
  obtain ⟨-, hmoved, hother, hless⟩ := hparts points rfl
  obtain ⟨hswapped, halike⟩ := hmoved [ys, xs] (.swap ..) []
  exact ⟨hfeed, rfl, haccepted, hswapped, (halike []).1, hother 0 xs ys rfl (by decide),
    hless 1 (points.withPieces [xs]) (by decide) rfl⟩

end Session
end Columnar
