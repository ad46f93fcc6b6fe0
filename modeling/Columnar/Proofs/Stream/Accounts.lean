import Columnar.Proofs.Number.Groups
import Columnar.Proofs.Page.Handout
import Columnar.Proofs.Stream.Ledger

/-!
# What is in the sink of a writer

The sink of a writer is empty, or it holds a stream as far as it goes: thirteen bytes
of a header, a frame for each page, and a zero byte once the writer is closed.  Each
frame is the length of a body and the body, which opens with the number of its rows
and gives them back to a feed of the schema.  The rows of the frames and those that
the writer still holds are the rows that it has accepted, in order, and its counters
are the numbers of these rows, of the frames, and of the bytes in the sink.

What the parts of a stream look like is said here of the bytes, without the functions
that write them.

## Main definitions

* `Leb128.AddsUp` — groups of seven bits that add up to a number.
* `Header.Opens` — bytes that open a stream.
* `Page.Carries`, `Writer.Framed` — bytes that carry some rows, the frames of pages.
* `Writer.Accounts` — what sink, draft and counters say about the accepted rows.

## Main results

* `Header.opens_toBytes`, `Writer.framed_frames` — what is written looks like that.
* `Writer.accounts_run` — **sink, draft and counters account for the accepted rows.**
-/

namespace Columnar

/-! ### Numbers -/

namespace Leb128

/-- Groups of seven bits that show where they end and add up to a number, the lowest first. -/
structure AddsUp (text : List UInt8) (n : Nat) : Prop where
  ended : Ended text
  weight : weigh text = n

/-- What is written for a number adds up to it. -/
theorem addsUp_encode (n : Nat) : AddsUp (encode n) n := by
  induction n using Nat.strong_induction_on with
  | _ n ih =>
    by_cases hn : n < 128
    · have hbyte : (UInt8.ofNat n).toNat = n := by
        rw [UInt8.toNat_ofNat']
        omega
      rw [encode_of_lt hn]
      refine ⟨ended_singleton_iff.mpr (UInt8.lt_iff_toNat_lt.mpr ?_), ?_⟩
      · rwa [hbyte]
      · rw [weigh_singleton, hbyte, Nat.mod_eq_of_lt hn]
    · -- the low group goes first, behind a high bit
      have hle := Nat.not_lt.mp hn
      have hrest := ih (n / 128) (by omega)
      have hbyte : (UInt8.ofNat (n % 128 + 128)).toNat = n % 128 + 128 := by
        rw [UInt8.toNat_ofNat']
        omega
      have hsome : encode (n / 128) ≠ [] := List.ne_nil_of_length_pos (one_le_length_encode _)
      rw [encode_of_le hle]
      refine ⟨(ended_cons_iff hsome).mpr ⟨UInt8.le_iff_toNat_le.mpr ?_, hrest.ended⟩, ?_⟩
      · rw [hbyte]
        exact Nat.le_add_left _ _
      · rw [weigh_cons, hrest.weight, hbyte]
        omega

end Leb128

/-! ### Headers -/

theorem getElem?_littleEndian {w k : Nat} (hk : k < w) (n : Nat) :
    (littleEndian w n)[k]? = some (UInt8.ofNat (n / 256 ^ k)) := by
  induction w generalizing k n with
  | zero => exact absurd hk (Nat.not_lt_zero k)
  | succ w ih =>
    cases k with
    | zero => simp [littleEndian]
    | succ k =>
      rw [littleEndian, List.getElem?_cons_succ, ih (Nat.lt_of_succ_lt_succ hk), Nat.div_div_eq_div_mul,
        Nat.pow_succ']

/-- The thirteen bytes that open a stream: four letters, the version, and the fingerprint of the schema
with its lowest byte first. -/
structure Header.Opens (fingerprint : UInt64) (bs : List UInt8) : Prop where
  length : bs.length = 13
  magic : bs.take 4 = [0x53, 0x43, 0x52, 0x54]
  version : bs[4]? = some 2
  fingerprint : ∀ k < 8, bs[5 + k]? = some (UInt8.ofNat (fingerprint.toNat / 256 ^ k))

theorem Header.opens_toBytes (f : UInt64) : Opens f (ofFingerprint f).toBytes where
  length := length_toBytes_ofFingerprint f
  magic := rfl
  version := rfl
  fingerprint := by
    intro k hk
    have hfront : (ofFingerprint f).toBytes = (streamMagic ++ [streamVersion]) ++ Word.toBytes f := rfl
    rw [hfront, List.getElem?_append_right (Nat.le_add_right 5 k)]
    show (Word.toBytes f)[5 + k - 5]? = _
    rw [Nat.add_sub_cancel_left]
    exact getElem?_littleEndian hk f.toNat

/-! ### Frames -/

/-- The body of a page of some rows: it is a matter of these rows alone, opens with how many there are
and with the number of fields, and gives them back to any feed of the schema that accepts so long a
body. -/
structure Page.Carries (s : Schema) (layout : List (Kind × Storage)) (rows : List (List (Option Value)))
    (body : List UInt8) : Prop where
  spelled : body = spell (s.shapes layout) rows
  counts : ∃ count width rest, body = count ++ width ++ rest ∧
    Leb128.AddsUp count rows.length ∧ Leb128.AddsUp width s.width
  reads : s.Finalized → rows.length < 2 ^ 64 → body.length ≤ Feed.maxBuffer →
    ∀ (limit : Nat) (f : Feed), Feed.make s limit = .ok f → body.length ≤ limit →
      (s.width = 0 → rows.length ≤ limit) →
      (f.loadBody body).1 = .ok () ∧ (f.loadBody body).2.drain = ⟨rows.map s.deliver, none⟩

theorem Page.carries_spell {s : Schema} {layout : List (Kind × Storage)} (hl : s.layout = .ok layout)
    {rows : List (List (Option Value))}
    (hrows : ∀ r ∈ rows, r.length = (s.shapes layout).length ∧ Draft.Takes (s.shapes layout) r) :
    Carries s layout rows (spell (s.shapes layout) rows) where
  spelled := rfl
  counts := ⟨_, _, _, rfl, Leb128.addsUp_encode _, length_shapes hl ▸ Leb128.addsUp_encode _⟩
  reads := by
    intro hs hcount hbuffer limit f hf hlimit hfew
    obtain ⟨hready, hsame, -, -⟩ := Feed.ready_make hf
    have hadmits : ∀ r ∈ rows, s.Admits r := fun r hr => (Draft.takes_iff_admits hs hl).mp (hrows r hr)
    obtain ⟨p, hp, hspells⟩ :=
      decode_spell hs hl hadmits hcount (Nat.lt_succ_of_le hbuffer) hfew
    have hlayout : f.layout = layout := Except.ok.inj (hready.layout.symm.trans hl)
    have hp' : decode f.layout f.limit (spell (s.shapes layout) rows) = .ok p := by
      rw [hlayout, hsame]
      exact hp
    obtain ⟨f', hdecode, hready', -, -, hholds, hnext⟩ := Feed.decode_of_ok hready hp'
    rw [Feed.loadBody_of_le (hsame.symm ▸ hlimit) hbuffer, hdecode]
    refine ⟨rfl, ?_⟩
    rw [Feed.drain_eq hready' hholds, hnext, List.drop_zero,
      hspells.allRows hl hl fun r hr => (hadmits r hr).length]

namespace Writer

/-- The frames of some pages: for each the length of a body, and the body. -/
inductive Framed (s : Schema) (layout : List (Kind × Storage)) :
    List (List (List (Option Value))) → List UInt8 → Prop where
  | nil : Framed s layout [] []
  | cons {rows : List (List (Option Value))} {pages : List (List (List (Option Value)))}
      {length body rest : List UInt8} (prefixed : Leb128.AddsUp length body.length)
      (carries : Page.Carries s layout rows body) (later : Framed s layout pages rest) :
      Framed s layout (rows :: pages) (length ++ body ++ rest)

theorem framed_frames {s : Schema} {layout : List (Kind × Storage)} (hl : s.layout = .ok layout)
    {pages : List (List (List (Option Value)))}
    (hpages : ∀ p ∈ pages, ∀ r ∈ p,
      r.length = (s.shapes layout).length ∧ Draft.Takes (s.shapes layout) r) :
    Framed s layout pages (frames (s.shapes layout) pages) := by
  induction pages with
  | nil => exact .nil
  | cons rows pages ih =>
    obtain ⟨hrows, hrest⟩ := List.forall_mem_cons.mp hpages
    rw [frames, List.flatMap_cons]
    exact .cons (Leb128.addsUp_encode _) (Page.carries_spell hl hrows) (ih hrest)

/-! ### Any calls -/

section

variable [TextHash] {s : Schema} {settings : Settings}

/-- What sink, draft and counters of a writer say about the rows that it has accepted. -/
structure Accounts (s : Schema) (layout : List (Kind × Storage)) (limit : Nat)
    (accepted : List (List (Option Value))) (w : Writer Memory) (l : Ledger) : Prop where
  /-- Nothing was written and no row accepted; or the sink holds the header, the frames of the pages,
  and one more zero byte once the writer is closed. -/
  sink : (w.sink.written = [] ∧ accepted = [] ∧ l.pages = [] ∧ w.closed = false) ∨
    ∃ header pages, w.sink.written = header ++ pages ++ (if w.closed then [0] else []) ∧
      Header.Opens s.fingerprint header ∧ Framed s layout l.pages pages
  pages : ∀ p ∈ l.pages, 1 ≤ p.length ∧ p.length ≤ limit
  /-- The rows of the pages and the rows still held are the accepted ones, in order. -/
  rows : l.pages.flatten ++ l.held = accepted
  held : w.draft.Holds l.held
  room : l.held.length < limit
  tally : w.tally = ⟨accepted.length, l.pages.length, w.sink.written.length⟩
  closed : w.closed = true → l.held = [] ∧ ∀ more : List WriterCall,
    (w.run more).sink = w.sink ∧ (w.run more).tally = w.tally

/-- **Sink, draft and counters account for the accepted rows**, after any calls on a writer. -/
theorem accounts_run {w₀ : Writer Memory} (h : Opened s settings w₀) (calls : List WriterCall) :
    ∃ layout, s.layout = .ok layout ∧
      Accounts s layout settings.pageRows (w₀.accepted calls) (w₀.run calls)
        (w₀.follow settings.pageRows .empty calls) := by
  obtain ⟨layout, hl, hstart, hpos⟩ := tracks_start h
  obtain ⟨htracks, hroom⟩ := tracks_run hstart hpos calls
  have hrows := rows_follow w₀ settings.pageRows .empty calls
  generalize w₀.follow settings.pageRows .empty calls = l at htracks hroom hrows
  have hrows : l.rows = w₀.accepted calls := hrows
  refine ⟨layout, hl, ?_, htracks.pages, hrows, htracks.draft, hroom, ?_, ?_⟩
  · by_cases hheader : (w₀.run calls).headerWritten = true
    · refine Or.inr ⟨_, _, htracks.sink hheader, Header.opens_toBytes _, framed_frames hl ?_⟩
      intro p hp r hr
      exact htracks.typed r (List.mem_append_left _ (List.mem_flatten.mpr ⟨p, hp, hr⟩))
    · have hheader' := Bool.eq_false_iff.mpr hheader
      obtain ⟨hopen, hnone, hsink⟩ := htracks.unwritten hheader'
      exact Or.inl ⟨hsink, hrows ▸ hnone, (pages_of_unwritten htracks hheader').1, hopen⟩
  · rw [htracks.tally, hrows]
  · intro hclosed
    exact ⟨htracks.closed hclosed, run_of_closed _ hclosed⟩

end

open scoped Builtin

/-- A flush with nothing to write, two rows with one between them that has no slots, a close, and after
it a row and another close. -/
def openAndShut : List WriterCall :=
  [.flush, .row ((Row.blank Schema.counter).put 0 (some (.uint 3))), .row (Row.blank ⟨"bare", []⟩),
    .row (Row.blank Schema.counter), .close, .row (Row.blank Schema.counter), .close]

theorem accounts_run_counting :
    (counting.results openAndShut).map Except.isOk = [true, true, false, true, true, false, true] ∧
      (counting.run openAndShut).sink.written =
        [0x53, 0x43, 0x52, 0x54, 2] ++ Word.toBytes Schema.counter.fingerprint ++
          [9, 2, 1, 0, 0, 4, 1, 5, 3, 4] ++ [0] ∧
      (counting.run openAndShut).tally = ⟨2, 1, 24⟩ ∧
      counting.follow Settings.small.pageRows .empty openAndShut =
        ⟨[[[some (.uint 3)], [none]]], []⟩ ∧
      ∃ layout, Schema.counter.layout = .ok layout ∧
        Accounts Schema.counter layout Settings.small.pageRows [[some (.uint 3)], [none]]
          (counting.run openAndShut) ⟨[[[some (.uint 3)], [none]]], []⟩ := by
  have haccepted : counting.accepted openAndShut = [[some (.uint 3)], [none]] := by decide +kernel
  have hfollow : counting.follow Settings.small.pageRows .empty openAndShut =
      ⟨[[[some (.uint 3)], [none]]], []⟩ := by decide +kernel
  have haccounts := accounts_run opened_counting openAndShut
  rw [haccepted, hfollow] at haccounts
  exact ⟨by decide +kernel, by decide +kernel, by decide +kernel, hfollow, haccounts⟩

end Writer
end Columnar
