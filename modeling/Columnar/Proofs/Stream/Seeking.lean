import Columnar.Proofs.Page.Cost
import Columnar.Proofs.Stream.Delivery

/-!
# Looking for a row in any stream

The bytes of a stream may be any bytes.  Looking for a row then finds one, or the end
of the stream, or it fails for what is wrong with the bytes, or for the fault that the
source reports; in each case the reader is left in good order.  Under a limit that no
buffer comes up to it can also fail for want of memory.

A row costs at least a byte for each of its cells.  The rows of the page at hand have
been paid for when the page was loaded, so what a reader may still spend is these
rows and the bytes of its source.

## Main definitions

* `Reader.Sound` — a reader in good order, whatever is in its source.
* `Reader.stock` — what a reader may still spend.
* `Reader.Sought` — what looking for a row comes to.

## Main results

* `Reader.sound_make` — a reader that was opened is in good order.
* `Reader.sought_seek` — looking for a row.
-/

namespace Columnar

/-- Reading under a limit failed for what is wrong with the bytes, or for the fault that the source
reports, or for want of memory, if the limit lets longer bodies through than there are buffers for. -/
inductive Failure.OfReading (limit : Nat) (fault : Option IoFault) : Failure → Prop where
  | decoding {e : Failure} (cause : e.OfDecoding) : OfReading limit fault e
  | io {cause : IoFault} (h : fault = some cause) : OfReading limit fault (.io cause)
  | memory (h : Feed.maxBuffer < limit) : OfReading limit fault .beyondMemory

/-! ### Loads -/

namespace Source

theorem endFault_number (src : Source) : src.number.2.endFault = src.endFault := by
  rw [number_eq_scan]
  split
  · rfl
  · rfl
  · rfl
  · split
    · rfl
    · split <;> rfl

theorem ofReading_of_number {src src' : Source} {e : Failure} (limit : Nat)
    (h : src.number = (.error e, src')) : e.OfReading limit src.endFault := by
  rw [number_eq_scan] at h
  split at h
  · cases h
  · cases h
    exact .decoding (.damaged _)
  · cases h
    exact .decoding (.damaged _)
  · split at h
    · next fault hfault =>
      cases h
      exact .io hfault
    · split at h
      · cases h
      · cases h
        exact .decoding (.damaged _)

theorem endFault_read (n : Nat) (src : Source) : (src.read n).2.endFault = src.endFault := by
  unfold read
  split
  · rfl
  · split <;> rfl

theorem endFault_of_faulty {n : Nat} {src src' : Source} {fault : IoFault}
    (h : src.read n = (.faulty fault, src')) : src.endFault = some fault := by
  unfold read at h
  split at h
  · cases h
  · split at h
    · cases h
    · next hfault =>
      cases h
      exact hfault

end Source

namespace Feed

variable {s : Schema} {f : Feed} {src : Source}

/-- What a load can do: it fails before a body is there, or finds the end of the stream, or decodes a
body, which it takes off the source together with its length. -/
inductive Loads (f : Feed) (src : Source) : Except Failure Bool × Feed × Source → Prop where
  | failed {e : Failure} {src' : Source} (fault : src'.endFault = src.endFault)
      (cause : e.OfReading f.limit src.endFault) : Loads f src (.error e, f.cleared, src')
  | ended {src' : Source} (fault : src'.endFault = src.endFault) (mark : Bool) :
      Loads f src (.ok false, { f.cleared with terminated := mark }, src')
  | decoded {src' : Source} {body : List UInt8} (fault : src'.endFault = src.endFault)
      (paid : body.length + src'.bytes.length < src.bytes.length) :
      Loads f src ((f.decode body).1.map fun _ => true, (f.decode body).2, src')

theorem loads (f : Feed) (src : Source) : f.Loads src (f.load src) := by
  have hfault := src.endFault_number
  unfold load
  split
  · next heq =>
    rw [heq] at hfault
    exact .failed hfault (Source.ofReading_of_number f.limit heq)
  · next heq =>
    rw [heq] at hfault
    exact .ended hfault false
  · next heq =>
    rw [heq] at hfault
    exact .ended hfault true
  · next n mid _ heq =>
    rw [heq] at hfault
    have hnumber := Source.length_lt_of_number heq
    split
    · exact .failed hfault (.decoding (.damaged _))
    next hwithin =>
    split
    · next hbeyond =>
      exact .failed hfault (.memory (Nat.lt_of_lt_of_le hbeyond (Nat.not_lt.mp hwithin)))
    have hread := mid.endFault_read n
    split
    · next hn =>
      rw [hn] at hread
      exact .failed (hread.trans hfault) (.decoding (.damaged _))
    · next fault _ hn =>
      rw [hn] at hread
      exact .failed (hread.trans hfault) (.io (hfault.symm.trans (Source.endFault_of_faulty hn)))
    · next body rest hn =>
      rw [hn] at hread
      obtain ⟨rfl, hbytes⟩ := Source.append_of_complete hn
      have hlen := congrArg List.length hbytes
      rw [List.length_append] at hlen
      refine .decoded (hread.trans hfault) ?_
      omega

variable {out : Except Failure Bool × Feed × Source}

theorem Loads.endFault (h : f.Loads src out) : out.2.2.endFault = src.endFault := by
  cases h with
  | failed fault _ => exact fault
  | ended fault _ => exact fault
  | decoded fault _ => exact fault

/-- A body that is decoded is refused for what is wrong with its bytes, or the feed has it. -/
theorem decode_cases (h : f.Ready s) (body : List UInt8) :
    (∃ e, (f.decode body).1 = .error e ∧ e.OfDecoding) ∨
      (f.decode body).1 = .ok () ∧ (f.decode body).2.body = body := by
  cases hp : Page.decode f.layout f.limit body with
  | error e =>
    obtain ⟨f', hdecode, -⟩ := decode_of_error h hp
    rw [hdecode]
    exact Or.inl ⟨e, rfl, Page.ofDecoding_of_decode hp⟩
  | ok p =>
    obtain ⟨f', hdecode, -, -, hbody, -⟩ := decode_of_ok h hp
    rw [hdecode]
    exact Or.inr ⟨rfl, hbody⟩

theorem Loads.cause (h : f.Loads src out) (hready : f.Ready s) {e : Failure} (he : out.1 = .error e) :
    e.OfReading f.limit src.endFault := by
  cases h with
  | failed _ cause =>
    cases he
    exact cause
  | ended _ _ => cases he
  | @decoded src' body _ _ =>
    rcases decode_cases hready body with ⟨e', he', hcause⟩ | ⟨hok, -⟩
    · rw [he'] at he
      cases he
      exact .decoding hcause
    · rw [hok] at he
      cases he

/-- A page that is loaded is taken off the source with its length before it. -/
theorem Loads.paid (h : f.Loads src out) (hready : f.Ready s) (hok : out.1 = .ok true) :
    out.2.1.body.length + out.2.2.bytes.length < src.bytes.length := by
  cases h with
  | failed _ _ => cases hok
  | ended _ _ => cases hok
  | @decoded src' body _ paid =>
    rcases decode_cases hready body with ⟨e', he', -⟩ | ⟨-, hbody⟩
    · rw [he'] at hok
      cases hok
    · rw [hbody]
      exact paid

/-- Where rows cost nothing, there are no more of them than the limit on bodies. -/
theorem Holds.rows_le (hready : f.Ready s) {p : Page} (hp : f.Holds p) (hwidth : s.width = 0) :
    f.rows ≤ f.limit := by
  have hlayout : f.layout = [] :=
    List.length_eq_zero_iff.mp ((Schema.length_layout hready.layout).trans hwidth)
  have hdecoded := hp.decoded
  rw [hlayout] at hdecoded
  rw [hp.rows]
  exact Page.rows_le_of_decode hdecoded

end Feed

/-! ### Headers -/

namespace Header

variable {source : Source}

/-- A header that was read is taken off the source. -/
theorem of_read {header : Header} (h : (read source).1 = .ok header) :
    (read source).2.endFault = source.endFault ∧
      ∃ front, front.length = byteLength ∧ source.bytes = front ++ (read source).2.bytes := by
  have hfault := source.endFault_read byteLength
  unfold read at h ⊢
  split at h
  · next bs rest hread =>
    rw [hread] at hfault
    exact ⟨hfault, bs, Source.append_of_complete hread⟩
  · cases h
  · cases h

end Header

namespace Reader

/-! ### Readers in good order -/

/-- A reader of a schema in good order, whatever is in its source: it knows how many rows its page
has, and there is a page if it has some. -/
structure Sound (r : Reader) (s : Schema) (limit : Nat) (fault : Option IoFault) : Prop where
  ready : r.feed.Ready s
  limit : r.feed.limit = limit
  fault : r.source.endFault = fault
  next_le : r.feed.next ≤ r.feed.rows
  page : 0 < r.feed.rows → ∃ p, r.feed.Holds p

/-- What a reader may still spend: the rows of its page that are left, each with a byte for every
cell, and the bytes of its source. -/
def stock (r : Reader) : Nat := r.schema.width * r.feed.remaining + r.source.bytes.length

variable {s : Schema} {limit : Nat} {fault : Option IoFault} {r : Reader}

/-- What looking for a row comes to.  A row counts from then on.  It is one of the page at hand, unless
another page was loaded. -/
inductive Sought (s : Schema) (limit : Nat) (fault : Option IoFault) (r : Reader) :
    Except Failure Bool × Reader → Prop where
  /-- There is a row at hand. -/
  | row {r' : Reader} (sound : r'.Sound s limit fault) (left : r'.feed.next < r'.feed.rows)
      (paid : r'.stock ≤ r.stock) (finished : r'.finished = r.finished)
      (poisoned : r'.poisoned = r.poisoned) (rows : r'.tally.rows = r.tally.rows + 1)
      (page : r'.feed = r.feed ∧ r'.tally.pages = r.tally.pages ∨ r.tally.pages < r'.tally.pages) :
      Sought s limit fault r (.ok true, r')
  /-- There is none, and there will be none. -/
  | ended {r' : Reader} (sound : r'.Sound s limit fault) (spent : r'.feed.remaining = 0)
      (finished : r'.finished = true) (poisoned : r'.poisoned = r.poisoned)
      (rows : r'.tally.rows = r.tally.rows) : Sought s limit fault r (.ok false, r')
  /-- A page is not there or is refused. -/
  | failed {e : Failure} {r' : Reader} (cause : e.OfReading limit fault) (sound : r'.Sound s limit fault)
      (poisoned : r'.poisoned = true) (rows : r'.tally.rows = r.tally.rows) :
      Sought s limit fault r (.error e, r')

/-- Loading leaves a reader in good order. -/
theorem Sound.load (h : r.Sound s limit fault) {result : Except Failure Bool} {feed : Feed}
    {source : Source} (hload : r.feed.load r.source = (result, feed, source)) (finished poisoned : Bool)
    (tally : Tally) : Sound { r with feed, source, finished, poisoned, tally } s limit fault := by
  obtain ⟨hloaded, hnext⟩ := Feed.loaded_load h.ready r.source
  have hlimit := r.feed.limit_load r.source
  have hloads := r.feed.loads r.source
  rw [hload] at hloaded hnext hlimit hloads
  refine ⟨hloaded.ready, hlimit.trans h.limit, hloads.endFault.trans h.fault, ?_, ?_⟩
  · exact hnext ▸ Nat.zero_le _
  · intro hrows
    -- a load that was not accepted has left no rows
    cases ha : Feed.accepted result with
    | true => exact hloaded.page ha
    | false => exact absurd (hloaded.rows ha) (Nat.ne_of_gt hrows)

theorem Sound.schema (h : r.Sound s limit fault) : r.schema = s := h.ready.schema

/-- The row that a reader keeps for records does not matter. -/
theorem Sound.keeping (h : r.Sound s limit fault) (kept : Option Row) :
    Sound { r with scratch := kept } s limit fault :=
  ⟨h.ready, h.limit, h.fault, h.next_le, h.page⟩

/-- Handing out a row leaves a reader in good order. -/
theorem Sound.advanced (h : r.Sound s limit fault) (hlt : r.feed.next < r.feed.rows) (kept : Option Row) :
    Sound { r with feed := r.feed.advanced, scratch := kept } s limit fault := by
  refine ⟨h.ready.advanced, h.limit, h.fault, hlt, ?_⟩
  intro hrows
  obtain ⟨p, hp⟩ := h.page hrows
  exact ⟨p, hp.advanced⟩

/-- The bytes that a page took off the source pay for its rows. -/
theorem Sound.stock_load (h : r.Sound s limit fault) {feed : Feed} {source : Source}
    (hload : r.feed.load r.source = (.ok true, feed, source)) :
    feed.schema.width * feed.remaining + source.bytes.length ≤ r.source.bytes.length := by
  obtain ⟨hloaded, -⟩ := Feed.loaded_load h.ready r.source
  have hloads := r.feed.loads r.source
  rw [hload] at hloaded hloads
  obtain ⟨p, hp⟩ := hloaded.page rfl
  have hcells : s.width * feed.rows ≤ feed.body.length := hp.cells_le hloaded.ready
  have hpaid : feed.body.length + source.bytes.length < r.source.bytes.length :=
    hloads.paid h.ready rfl
  have hleft : s.width * feed.remaining ≤ s.width * feed.rows :=
    Nat.mul_le_mul_left _ (Nat.sub_le _ _)
  have hschema : feed.schema = s := hloaded.ready.schema
  rw [hschema]
  omega

/-- **Looking for a row** finds one, or the end of the stream, or fails for what is wrong with the
bytes that are left or for the fault of the source. -/
theorem sought_seek (h : r.Sound s limit fault) : Sought s limit fault r r.seek := by
  induction hn : r.source.bytes.length using Nat.strong_induction_on generalizing r with
  | _ n ih =>
    subst hn
    by_cases hrem : r.feed.remaining ≠ 0
    · rw [seek_of_remaining hrem]
      exact .row ⟨h.ready, h.limit, h.fault, h.next_le, h.page⟩ (Nat.lt_of_sub_ne_zero hrem)
        (Nat.le_refl _) rfl rfl rfl (Or.inl ⟨rfl, rfl⟩)
    have hrem := Decidable.not_not.mp hrem
    cases hf : r.finished with
    | true =>
      rw [seek_of_finished hrem hf]
      exact .ended h hrem hf rfl rfl
    | false =>
      rcases hload : r.feed.load r.source with ⟨e | b, feed, source⟩
      · have hloads := r.feed.loads r.source
        rw [hload] at hloads
        rw [seek_of_load_error hrem hf hload]
        exact .failed (h.fault ▸ h.limit ▸ hloads.cause h.ready rfl) (h.load hload _ _ _) rfl rfl
      · cases b with
        | false =>
          obtain ⟨hloaded, hnext⟩ := Feed.loaded_load h.ready r.source
          rw [hload] at hloaded hnext
          rw [seek_of_load_end hrem hf hload]
          refine .ended (h.load hload _ _ _) ?_ rfl rfl rfl
          show feed.rows - feed.next = 0
          rw [hloaded.rows rfl]
          exact Nat.zero_sub _
        | true =>
          rw [seek_of_load_page hrem hf hload]
          have hsound : (r.paged feed source).Sound s limit fault := h.load hload _ _ _
          have hpaid : (r.paged feed source).stock ≤ r.stock :=
            Nat.le_trans (h.stock_load hload) (Nat.le_add_left _ _)
          have hfurther := ih _ (Feed.length_lt_of_load hload) hsound rfl
          -- whatever comes of looking further comes of looking from the start
          generalize (r.paged feed source).seek = found at hfurther
          cases hfurther with
          | row sound left paid finished poisoned rows page =>
            refine .row sound left (Nat.le_trans paid hpaid) finished poisoned rows (Or.inr ?_)
            show r.tally.pages + 1 ≤ _
            rcases page with ⟨-, hpages⟩ | hless
            · exact Nat.le_of_eq hpages.symm
            · exact Nat.le_of_lt hless
          | ended sound spent finished poisoned rows =>
            exact .ended sound spent finished poisoned rows
          | failed cause sound poisoned rows => exact .failed cause sound poisoned rows

/-! ### Opening a stream -/

/-- With settings that a stream can work under and a resolved schema, opening a stream is reading and
checking its header. -/
theorem make_eq (hresolved : s.isResolved = true) {settings : Settings}
    (hsettings : settings.check = .ok ()) (source : Source) :
    make source s settings = do
      let header ← (Header.read source).1
      header.check s.fingerprint
      let feed ← Feed.make s settings.maxPageBytes
      return ⟨(Header.read source).2, header, feed, false, false, none, ⟨0, 0, Header.byteLength⟩⟩ := by
  rw [make, hsettings, hresolved]
  rfl

/-- A stream is only opened with such settings and such a schema. -/
theorem of_make {source : Source} {settings : Settings} (h : make source s settings = .ok r) :
    s.isResolved = true ∧ settings.check = .ok () := by
  rw [make] at h
  cases hsettings : settings.check with
  | error e =>
    rw [hsettings] at h
    cases h
  | ok u =>
    cases hresolved : s.isResolved with
    | false =>
      rw [hsettings, hresolved] at h
      cases h
    | true => exact ⟨rfl, rfl⟩

/-- **A reader that was opened is in good order**, between the header and the first page.  The header is
taken off and counted. -/
theorem sound_make {source : Source} {settings : Settings} (h : make source s settings = .ok r) :
    r.Sound s settings.maxPageBytes source.endFault ∧ r.feed.remaining = 0 ∧ r.finished = false ∧
      r.poisoned = false ∧ r.tally = ⟨0, 0, Header.byteLength⟩ ∧
      ∃ front, front.length = Header.byteLength ∧ source.bytes = front ++ r.source.bytes := by
  obtain ⟨hresolved, hsettings⟩ := of_make h
  rw [make_eq hresolved hsettings] at h
  obtain ⟨header, hheader, h⟩ := exists_of_bind h
  obtain ⟨-, -, h⟩ := exists_of_bind h
  obtain ⟨feed, hfeed, h⟩ := exists_of_bind h
  cases h
  obtain ⟨hready, hlimit, hrows, hnext⟩ := Feed.ready_make hfeed
  obtain ⟨hfault, hfront⟩ := Header.of_read hheader
  refine ⟨⟨hready, hlimit, hfault, ?_, ?_⟩, ?_, rfl, rfl, rfl, hfront⟩
  · exact Nat.le_of_eq (hnext.trans hrows.symm)
  · exact fun hpos => absurd hrows (Nat.ne_of_gt hpos)
  · show feed.rows - feed.next = 0
    rw [hrows, hnext]

end Reader
end Columnar
