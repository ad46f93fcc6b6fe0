import Mathlib.Algebra.GroupWithZero.Nat
import Columnar.Proofs.Bytes.Spellings
import Columnar.Proofs.Stream.Calls

/-!
# Counting what is consumed

A reader does not count the bytes that it takes off its source.  It adds up what they
would come to if every length were spelled as a writer spells it: the header, for each
page the shortest spelling of its length and the body, and one byte for the mark of the
end.  A length may be spelled with more bytes than that, and so may the mark, which is a
length of zero.

So what is counted falls short of what is consumed, by the bytes that the spellings have
too many.  For a stream of which all lengths are spelled shortest, as a writer's are, the
count is exact after every call.

## Main definitions

* `Frame`, `Intake` — a page as it stands in a stream, what a reader has taken off one.
* `Intake.Shortest` — all lengths are spelled as a writer spells them.
* `Reader.Took` — a reader has taken something off a stream, and counted it.

## Main results

* `Feed.frame_of_load`, `Feed.mark_of_load` — what a load takes off a source.
* `Reader.took_run` — **what is counted is what was consumed, but for the bytes that
  spellings have too many.**
* `Reader.not_exact_run` — so the count is not exact for all streams.
-/

namespace Columnar

/-! ### What is taken off a source -/

namespace Source

variable {src src' : Source} {n : Nat}

theorem spelled_of_number (h : src.number = (.ok (some n), src')) :
    ∃ sp : Leb128.Spelling n, src.bytes = sp.bytes ++ src'.bytes := by
  rw [number_eq_scan] at h
  split at h
  · next hscan =>
    cases h
    exact Leb128.exists_spelling (Leb128.decode_eq_ok_iff.mpr hscan)
  · cases h
  · cases h
  · split at h
    · cases h
    · split at h <;> cases h

/-- Without a number there were no bytes. -/
theorem nil_of_number (h : src.number = (.ok none, src')) : src.bytes = [] ∧ src'.bytes = [] := by
  rw [number_eq_scan] at h
  split at h
  · cases h
  · cases h
  · cases h
  · split at h
    · cases h
    · split at h
      · next hempty =>
        cases h
        exact ⟨hempty, hempty⟩
      · cases h

end Source

/-- A page as it stands in a stream: its body, behind its length in whatever spelling. -/
structure Frame where
  body : List UInt8
  length : Leb128.Spelling body.length

def Frame.bytes (f : Frame) : List UInt8 := f.length.bytes ++ f.body

/-- What a reader has taken off a stream: the header, frames, and perhaps the mark of the end, which is
a length of zero. -/
structure Intake where
  header : List UInt8
  frames : List Frame
  mark : Option (Leb128.Spelling 0)

namespace Intake

def bytes (t : Intake) : List UInt8 :=
  t.header ++ t.frames.flatMap Frame.bytes ++ t.mark.elim [] Leb128.Spelling.bytes

/-- How many bytes the lengths have more than their shortest spellings. -/
def excess (t : Intake) : Nat :=
  (t.frames.map fun f => f.length.excess).sum + t.mark.elim 0 Leb128.Spelling.excess

/-- The lengths are spelled as a writer spells them. -/
structure Shortest (t : Intake) : Prop where
  frames : ∀ f ∈ t.frames, f.length.bytes = Leb128.encode f.body.length
  mark : ∀ sp ∈ t.mark, sp.bytes = Leb128.encode 0

/-- What is taken when one more page is. -/
def withFrame (t : Intake) (f : Frame) : Intake := { t with frames := t.frames ++ [f] }

/-- What is taken when the mark of the end is. -/
def withMark (t : Intake) (sp : Leb128.Spelling 0) : Intake := { t with mark := some sp }

variable {t : Intake}

theorem bytes_withFrame (hmark : t.mark = none) (f : Frame) :
    (t.withFrame f).bytes = t.bytes ++ f.bytes := by
  simp [bytes, withFrame, hmark]

theorem excess_withFrame (hmark : t.mark = none) (f : Frame) :
    (t.withFrame f).excess = t.excess + f.length.excess := by
  simp [excess, withFrame, hmark]

theorem bytes_withMark (hmark : t.mark = none) (sp : Leb128.Spelling 0) :
    (t.withMark sp).bytes = t.bytes ++ sp.bytes := by
  simp [bytes, withMark, hmark]

theorem excess_withMark (hmark : t.mark = none) (sp : Leb128.Spelling 0) :
    (t.withMark sp).excess = t.excess + sp.excess := by
  simp [excess, withMark, hmark]

/-- **There are none too many exactly if all lengths are spelled shortest.** -/
theorem excess_eq_zero_iff : t.excess = 0 ↔ t.Shortest := by
  have hframes : (t.frames.map fun f => f.length.excess).sum = 0 ↔
      ∀ f ∈ t.frames, f.length.bytes = Leb128.encode f.body.length := by
    rw [List.sum_eq_zero_iff_forall_eq_nat]
    constructor
    · intro h f hf
      exact Leb128.Spelling.excess_eq_zero_iff.mp (h _ (List.mem_map_of_mem hf))
    · intro h n hn
      obtain ⟨f, hf, rfl⟩ := List.mem_map.mp hn
      exact Leb128.Spelling.excess_eq_zero_iff.mpr (h f hf)
  have hmark : t.mark.elim 0 Leb128.Spelling.excess = 0 ↔
      ∀ sp ∈ t.mark, sp.bytes = Leb128.encode 0 := by
    cases t.mark with
    | none => simp
    | some sp => simp [Leb128.Spelling.excess_eq_zero_iff]
  rw [excess, Nat.add_eq_zero_iff, hframes, hmark]
  exact ⟨fun h => ⟨h.1, h.2⟩, fun h => ⟨h.frames, h.mark⟩⟩

end Intake

theorem Frame.length_bytes (f : Frame) :
    f.bytes.length = Reader.frameLength f.body.length + f.length.excess := by
  rw [bytes, List.length_append, f.length.length_bytes, Reader.frameLength]
  omega

/-! ### Loads -/

namespace Feed

variable {f f' : Feed} {src src' : Source}

/-- **A page that is loaded is taken off with its frame.** -/
theorem frame_of_load (h : f.load src = (.ok true, f', src')) :
    ∃ fr : Frame, src.bytes = fr.bytes ++ src'.bytes ∧ f'.pageLength = fr.body.length := by
  unfold load at h
  split at h
  · cases h
  · cases h
  · cases h
  · next n mid _ hn =>
    obtain ⟨sp, hsp⟩ := Source.spelled_of_number hn
    split at h
    · cases h
    split at h
    · cases h
    split at h
    · cases h
    · cases h
    · next body rest hr =>
      obtain ⟨rfl, hbody⟩ := Source.append_of_complete hr
      simp only [Prod.mk.injEq] at h
      obtain ⟨-, rfl, rfl⟩ := h
      refine ⟨⟨body, sp⟩, ?_, by rw [pageLength, body_decode]⟩
      rw [hsp, hbody, Frame.bytes, List.append_assoc]

/-- **At the end of a stream the mark is taken off**, or there is nothing left. -/
theorem mark_of_load (h : f.load src = (.ok false, f', src')) :
    (f'.terminated = true ∧ ∃ sp : Leb128.Spelling 0, src.bytes = sp.bytes ++ src'.bytes) ∨
      f'.terminated = false ∧ src.bytes = [] ∧ src'.bytes = [] := by
  unfold load at h
  split at h
  · cases h
  · next hn =>
    cases h
    exact Or.inr ⟨rfl, Source.nil_of_number hn⟩
  · next hn =>
    cases h
    exact Or.inl ⟨rfl, Source.spelled_of_number hn⟩
  · split at h
    · cases h
    split at h
    · cases h
    split at h
    · cases h
    · cases h
    · next body rest hr =>
      simp only [Prod.mk.injEq] at h
      obtain ⟨hresult, -, -⟩ := h
      cases hd : (f.decode body).1 with
      | error e =>
        rw [hd] at hresult
        cases hresult
      | ok u =>
        rw [hd] at hresult
        cases hresult

end Feed

namespace Reader

variable {s : Schema} {limit : Nat} {fault : Option IoFault} {r r' : Reader} {bytes : List UInt8}
  {t : Intake}

/-! ### What a reader has taken -/

/-- A reader that is not poisoned has taken something off the bytes of a stream, and has counted it but
for the bytes that lengths have too many. -/
structure Took (r : Reader) (bytes : List UInt8) (t : Intake) : Prop where
  source : bytes = t.bytes ++ r.source.bytes
  header : t.header.length = Header.byteLength
  pages : r.tally.pages = t.frames.length
  counted : r.tally.bytes + t.excess = t.bytes.length
  poisoned : r.poisoned = false
  /-- The mark is taken at the end, -/
  unmarked : r.finished = false → t.mark = none
  /-- which also comes where there are no more bytes. -/
  finished : r.finished = true → t.mark = none → r.source.bytes = []

/-- What a reader has taken shows in what it counts, if it is not poisoned. -/
theorem Took.congr (h : r.Took bytes t) (hsource : r'.source.bytes = r.source.bytes)
    (hpages : r'.tally.pages = r.tally.pages) (hbytes : r'.tally.bytes = r.tally.bytes)
    (hpoisoned : r'.poisoned = r.poisoned) (hfinished : r'.finished = r.finished) : r'.Took bytes t where
  source := hsource ▸ h.source
  header := h.header
  pages := hpages.trans h.pages
  counted := hbytes ▸ h.counted
  poisoned := hpoisoned.trans h.poisoned
  unmarked := fun hf => h.unmarked (hfinished ▸ hf)
  finished := fun hf hmark => hsource ▸ h.finished (hfinished ▸ hf) hmark

theorem Took.paged (h : r.Took bytes t) (hf : r.finished = false) {feed : Feed} {source : Source}
    (hload : r.feed.load r.source = (.ok true, feed, source)) :
    ∃ fr, (r.paged feed source).Took bytes (t.withFrame fr) := by
  obtain ⟨fr, hbytes, hlength⟩ := Feed.frame_of_load hload
  have hmark := h.unmarked hf
  refine ⟨fr, ?_, h.header, ?_, ?_, h.poisoned, fun _ => hmark, fun hfin => ?_⟩
  · rw [Intake.bytes_withFrame hmark, List.append_assoc, h.source, hbytes]
    rfl
  · show r.tally.pages + 1 = (t.frames ++ [fr]).length
    rw [h.pages, List.length_append, List.length_singleton]
  · show r.tally.bytes + frameLength feed.pageLength + _ = _
    rw [Intake.excess_withFrame hmark, Intake.bytes_withFrame hmark, List.length_append, fr.length_bytes,
      hlength]
    have hcounted := h.counted
    omega
  · rw [show (r.paged feed source).finished = r.finished from rfl, hf] at hfin
    cases hfin

theorem Took.ended (h : r.Took bytes t) (hf : r.finished = false) {feed : Feed} {source : Source}
    (hload : r.feed.load r.source = (.ok false, feed, source)) :
    ∃ t', Took { r with
      feed, source
      finished := true
      tally.bytes := r.tally.bytes + if feed.terminated then 1 else 0 } bytes t' := by
  have hmark := h.unmarked hf
  have hcounted := h.counted
  rcases Feed.mark_of_load hload with ⟨hterminated, sp, hbytes⟩ | ⟨hterminated, hnil, hnil'⟩
  · refine ⟨t.withMark sp, ?_, h.header, h.pages, ?_, h.poisoned, fun hfalse => (by cases hfalse),
      fun _ hnone => (by cases hnone)⟩
    · rw [Intake.bytes_withMark hmark, List.append_assoc, h.source, hbytes]
    · have hsize : Leb128.size 0 = 1 := by decide
      rw [Intake.excess_withMark hmark, Intake.bytes_withMark hmark, List.length_append, sp.length_bytes,
        hsize, hterminated]
      simp only [if_true]
      omega
  · refine ⟨t, ?_, h.header, h.pages, ?_, h.poisoned, fun hfalse => (by cases hfalse), fun _ _ => hnil'⟩
    · rw [h.source, hnil, hnil']
    · rw [hterminated]
      exact hcounted

/-- **What looking for a row takes off a source is counted.** -/
theorem Took.seek (h : r.Took bytes t) {found : Bool} (hseek : r.seek = (.ok found, r')) :
    ∃ t', r'.Took bytes t' := by
  induction hn : r.source.bytes.length using Nat.strong_induction_on generalizing r t with
  | _ n ih =>
    subst hn
    by_cases hrem : r.feed.remaining ≠ 0
    · rw [seek_of_remaining hrem] at hseek
      cases hseek
      exact ⟨t, h.congr rfl rfl rfl rfl rfl⟩
    have hrem := Decidable.not_not.mp hrem
    cases hf : r.finished with
    | true =>
      rw [seek_of_finished hrem hf] at hseek
      cases hseek
      exact ⟨t, h⟩
    | false =>
      rcases hload : r.feed.load r.source with ⟨e | b, feed, source⟩
      · rw [seek_of_load_error hrem hf hload] at hseek
        cases hseek
      · cases b with
        | false =>
          rw [seek_of_load_end hrem hf hload] at hseek
          cases hseek
          exact h.ended hf hload
        | true =>
          -- the page is taken off, and what else is comes off the bytes behind it
          rw [seek_of_load_page hrem hf hload] at hseek
          obtain ⟨fr, hpaged⟩ := h.paged hf hload
          exact ih _ (Feed.length_lt_of_load hload) hpaged hseek rfl

/-! ### Any calls -/

/-- A call that does not fail counts what it takes. -/
theorem Took.call (h : r.Took bytes t) (hsound : r.Sound s limit fault) {c : ReaderCall}
    (hc : c.Suits s) (hok : ∀ e, (r.call c).1 ≠ .failed e) : ∃ t', (r.call c).2.Took bytes t' := by
  obtain ⟨kept, hcall⟩ := call_of_seek hsound h.poisoned hc
  rw [hcall] at hok ⊢
  rcases hseek : r.seek with ⟨e | found, r'⟩
  · rw [hseek] at hok
    exact absurd rfl (hok e)
  · obtain ⟨t', ht'⟩ := h.seek hseek
    refine ⟨t', ?_⟩
    cases found <;> exact ht'.congr rfl rfl rfl rfl rfl

theorem Took.run (h : r.Took bytes t) (hsound : r.Sound s limit fault) {calls : List ReaderCall}
    (hok : ∀ e, .failed e ∉ r.replies calls) : ∃ t', (r.run calls).Took bytes t' := by
  induction calls generalizing r t with
  | nil => exact ⟨t, h⟩
  | cons c calls ih =>
    rw [run_cons]
    by_cases hc : c.Suits r.schema
    · rw [replies_cons_of_suits hc] at hok
      obtain ⟨t', ht'⟩ := h.call hsound (hsound.schema ▸ hc) fun e he =>
        hok e (he ▸ List.mem_cons_self)
      exact ih ht' (hsound.call c) fun e he => hok e (List.mem_cons_of_mem _ he)
    · rw [replies_cons_of_not_suits hc] at hok
      refine ih (t := t) ?_ (hsound.call c) hok
      obtain ⟨kept, hkept⟩ := keeps_of_not_suits hc
      rw [hkept]
      exact h.congr rfl rfl rfl rfl rfl

/-- A reader that was opened has taken the header. -/
theorem took_make {source : Source} {settings : Settings} (h : make source s settings = .ok r) :
    ∃ front, r.Took source.bytes ⟨front, [], none⟩ := by
  obtain ⟨-, -, hfinished, hpoisoned, htally, front, hfront, htaken⟩ := sound_make h
  have hbytes : (⟨front, [], none⟩ : Intake).bytes = front := by simp [Intake.bytes]
  refine ⟨front, ?_, hfront, ?_, ?_, hpoisoned, fun _ => rfl, fun hend => ?_⟩
  · rw [hbytes, htaken]
  · rw [htally]
    rfl
  · rw [htally, hbytes, hfront]
    rfl
  · rw [hfinished] at hend
    cases hend

/-- **What is counted is what was consumed, but for the bytes that spellings have too many.**  Whatever
is in a source, and whatever a reader was asked for as long as no call failed, it has taken a header, the
frames of as many pages as it counts, and perhaps the mark of the end, and nothing else is gone from the
source.  It has counted all of that exactly if the lengths are spelled as a writer spells them. -/
theorem took_run {source : Source} {settings : Settings} (h : make source s settings = .ok r)
    {calls : List ReaderCall} (hok : ∀ e, .failed e ∉ r.replies calls) :
    ∃ t, (r.run calls).Took source.bytes t ∧ (r.run calls).tally.bytes ≤ t.bytes.length ∧
      ((r.run calls).tally.bytes = t.bytes.length ↔ t.Shortest) := by
  obtain ⟨front, hstart⟩ := took_make h
  obtain ⟨t, ht⟩ := hstart.run (sound_make h).1 hok
  have hcounted := ht.counted
  refine ⟨t, ht, by omega, ?_⟩
  rw [← Intake.excess_eq_zero_iff]
  omega

/-- The page of one counter behind its length in two bytes where one would do, and the mark of the
end. -/
def roundabout : List UInt8 := [0x88, 0, 1, 1, 0, 0, 3, 1, 3, 3, 0]

/-- A reader of counters that was opened before it. -/
def roundaboutReader : Reader := { counting with source := .ofBytes roundabout }

theorem make_roundabout :
    make (.ofBytes ((Header.ofFingerprint Schema.counter.fingerprint).toBytes ++ roundabout))
      Schema.counter .small = .ok roundaboutReader := by
  rw [make_eq rfl rfl, header_read]
  simp only [bind, Except.bind, check_ofFingerprint]
  rfl

/-- One byte of this stream is consumed and not counted. -/
theorem roundabout_read : roundaboutReader.replies [.view, .next] = [.row, .ended] ∧
    (roundaboutReader.run [.view, .next]).tally = ⟨1, 1, 23⟩ ∧
    (roundaboutReader.run [.view, .next]).source.bytes = [] ∧
    ((Header.ofFingerprint Schema.counter.fingerprint).toBytes ++ roundabout).length = 24 := by
  refine ⟨by decide +kernel, by decide +kernel, by decide +kernel, ?_⟩
  rw [List.length_append, Header.length_toBytes_ofFingerprint]
  rfl

theorem took_run_roundabout : (∀ e, .failed e ∉ roundaboutReader.replies [.view, .next]) ∧
    ∃ t, (roundaboutReader.run [.view, .next]).Took
        ((Header.ofFingerprint Schema.counter.fingerprint).toBytes ++ roundabout) t ∧ ¬ t.Shortest := by
  obtain ⟨hreplies, htally, hleft, hlength⟩ := roundabout_read
  have hok : ∀ e, .failed e ∉ roundaboutReader.replies [.view, .next] := by simp [hreplies]
  obtain ⟨t, ht, -, hexact⟩ := took_run make_roundabout hok
  refine ⟨hok, t, ht, fun hshortest => ?_⟩
  have hbytes := hexact.mpr hshortest
  have hsource := congrArg List.length ht.source
  rw [hleft, List.append_nil, ← hbytes, htally] at hsource
  exact absurd (hlength.symm.trans hsource) (by decide)

/-- **Not all of what is consumed is counted.** -/
theorem not_exact_run : ¬ ∀ (s : Schema) (source : Source) (settings : Settings) (r : Reader)
    (calls : List ReaderCall), s.Finalized → make source s settings = .ok r →
      (∀ e, .failed e ∉ r.replies calls) →
        (r.run calls).tally.bytes + (r.run calls).source.bytes.length = source.bytes.length := by
  intro hexact
  obtain ⟨hreplies, htally, hleft, hlength⟩ := roundabout_read
  have hcounted := hexact _ _ _ roundaboutReader [.view, .next] Schema.finalized_counter make_roundabout
    (by simp [hreplies])
  rw [htally, hleft] at hcounted
  exact absurd (hcounted.trans hlength) (by decide)

end Reader
end Columnar
