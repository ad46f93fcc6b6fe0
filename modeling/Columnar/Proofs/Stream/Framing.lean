import Columnar.Proofs.Page.Reloading
import Columnar.Proofs.Stream.Delivery

/-!
# Pages in a frame and without one

A page comes to a feed by its body alone, or out of a source, behind its length.
Either way has its own check of the limit, and each names a page that is too long in
its own words.  In everything else the frame makes no difference: a framed body is
accepted or refused as the body alone is, and what the feed then shows is the same.
The load takes the frame off the source and nothing else, unless there is no room for
the body in any buffer.

## Main results

* `Feed.level_framed`, `Feed.level_framed_tooLong` — one body loaded in both ways.
* `Session.framed_agrees` — the same after any calls, and with any calls to follow.
-/

namespace Columnar

namespace Feed

variable {s : Schema} {f g : Feed} {body rest : List UInt8} {src : Source}

/-- A body that finds no room in any buffer is not read. -/
theorem load_of_frame_beyond (hlen : body.length < 2 ^ 64) (hwithin : body.length ≤ f.limit)
    (hbeyond : maxBuffer < body.length) (hsrc : src.bytes = Writer.frame body ++ rest) :
    f.load src = (.error .beyondMemory, f.cleared, { src with bytes := body ++ rest }) := by
  obtain ⟨n, hn⟩ := Nat.exists_eq_succ_of_ne_zero (Nat.ne_zero_of_lt hbeyond)
  rw [Writer.frame, List.append_assoc] at hsrc
  rw [load, Source.number_of_encode hlen hsrc]
  rw [hn] at hwithin hbeyond ⊢
  simp only [if_neg (Nat.not_lt.mpr hwithin), if_pos hbeyond]

/-- A framed body within the limit is decoded as the body alone is, and the frame is taken off. -/
theorem level_framed (hf : f.Ready s) (hg : g.Ready s) (hlimit : f.limit = g.limit) (hpos : body ≠ [])
    (hlen : body.length < 2 ^ 64) (hwithin : body.length ≤ f.limit)
    (hsrc : src.bytes = Writer.frame body ++ rest) :
    (f.load src).1 = (g.loadBody body).1.map (fun _ => true) ∧
      (body.length ≤ maxBuffer → (f.load src).2.2 = { src with bytes := rest }) ∧
      Level s (f.load src).2.1 (g.loadBody body).2 := by
  by_cases hbuffer : body.length ≤ maxBuffer
  · obtain ⟨hresult, hlevel⟩ := level_decode hf hg hlimit body
    rw [load_of_frame hpos hbuffer hwithin hsrc, loadBody_of_le (hlimit ▸ hwithin) hbuffer]
    exact ⟨congrArg (Except.map fun _ => true) hresult, fun _ => rfl, hlevel⟩
  · have hbeyond := Nat.not_le.mp hbuffer
    rw [load_of_frame_beyond hlen hwithin hbeyond hsrc, loadBody,
      if_neg (Nat.not_lt.mpr (hlimit ▸ hwithin)), if_pos hbeyond]
    exact ⟨rfl, fun hle => absurd hle hbuffer, level_cleared hf hg hlimit⟩

/-- A body beyond the limit is refused in both ways, and neither feed has a page then. -/
theorem level_framed_tooLong (hf : f.Ready s) (hg : g.Ready s) (hlimit : f.limit = g.limit)
    (hlen : body.length < 2 ^ 64) (hbeyond : f.limit < body.length)
    (hsrc : src.bytes = Writer.frame body ++ rest) :
    (f.load src).1 = .error (.damaged (.pageTooLong body.length f.limit)) ∧
      (g.loadBody body).1 = .error (.damaged .pageTooLarge) ∧
      Level s (f.load src).2.1 (g.loadBody body).2 := by
  rw [load_of_frame_tooLong hlen hbeyond hsrc, loadBody, if_pos (hlimit ▸ hbeyond)]
  exact ⟨rfl, rfl, level_cleared hf hg hlimit⟩

end Feed

namespace Session

variable {s : Schema}

/-- **Loading a page from its frame is loading its body.**  Whatever was done with the two feeds before:
within the limit both loads succeed or both fail with one error, and of the source only the frame is
gone, if there is a buffer for the body; beyond the limit both fail.  After either, and after any further
calls, the feeds have the same rows with the same values and presence bits and answer every call alike.
Of a body it is asked that its length can be written as a 64-bit number, and that it is not empty, as a
length of zero ends a stream. -/
theorem framed_agrees (hs : s.Finalized) (limit : Nat) :
    ∃ fresh, Feed.make s limit = .ok fresh ∧
      ∀ (before before' : List FeedCall) (body rest : List UInt8) (fault : Option IoFault),
        body ≠ [] → body.length < 2 ^ 64 →
        let src : Source := ⟨Leb128.encode body.length ++ (body ++ rest), fault⟩
        let framed := ((start fresh).run before).feed.load src
        let bare := ((start fresh).run before').feed.loadBody body
        (body.length ≤ limit →
          framed.1 = bare.1.map (fun _ => true) ∧
            (body.length ≤ Feed.maxBuffer → framed.2.2 = ⟨rest, fault⟩)) ∧
        (limit < body.length →
          framed.1 = .error (.damaged (.pageTooLong body.length limit)) ∧
            bare.1 = .error (.damaged .pageTooLarge)) ∧
        ∀ after : List FeedCall,
          let loaded := ((start fresh).run (before ++ .load src :: after)).feed
          let given := ((start fresh).run (before' ++ .loadBody body :: after)).feed
          loaded.Alike given ∧ ∀ call, loaded.answer call = given.answer call := by
  obtain ⟨fresh, hfresh⟩ := Feed.exists_make hs limit
  refine ⟨fresh, hfresh, ?_⟩
  intro before before' body rest fault hpos hlen src framed bare
  obtain ⟨hf, hflimit⟩ := ready_run hfresh before
  obtain ⟨hg, hglimit⟩ := ready_run hfresh before'
  have hlimit := hflimit.trans hglimit.symm
  have hsrc : src.bytes = Writer.frame body ++ rest := (List.append_assoc ..).symm
  -- all that comes after follows from the feeds being alike now
  have hlevel : Feed.Level s framed.2.1 bare.2 := by
    by_cases hle : body.length ≤ limit
    · exact (Feed.level_framed hf hg hlimit hpos hlen (hflimit ▸ hle) hsrc).2.2
    · exact (Feed.level_framed_tooLong hf hg hlimit hlen (hflimit ▸ Nat.not_le.mp hle) hsrc).2.2
  refine ⟨?_, ?_, alike_run hlevel⟩
  · intro hle
    obtain ⟨hresult, hrest, -⟩ := Feed.level_framed hf hg hlimit hpos hlen (hflimit ▸ hle) hsrc
    exact ⟨hresult, hrest⟩
  · intro hlt
    obtain ⟨hframed, hbare, -⟩ := Feed.level_framed_tooLong hf hg hlimit hlen (hflimit ▸ hlt) hsrc
    exact ⟨hflimit ▸ hframed, hbare⟩

/-- The page of two rows behind its length on one feed, and by its body on another that has refused a
page before. -/
theorem framed_agrees_counting :
    let body := [2, 1, 0, 0, 4, 1, 5, 3, 4]
    let src : Source := ⟨9 :: body ++ [7, 7], some .sourceUnavailable⟩
    Feed.make Schema.counter 64 = .ok counting ∧
      (((start counting).run [.loadBody [9]]).feed.loadBody body).1 = .ok () ∧
      (counting.load src).1 = .ok true ∧ (counting.load src).2.2 = ⟨[7, 7], some .sourceUnavailable⟩ ∧
      ((start counting).run [.load src]).feed.Alike
        ((start counting).run [.loadBody [9], .loadBody body]).feed := by
  intro body src
  obtain ⟨fresh, hfresh, hagrees⟩ := framed_agrees Schema.finalized_counter 64
  have hfeed : Feed.make Schema.counter 64 = .ok counting := rfl
  obtain rfl : counting = fresh := Except.ok.inj (hfeed.symm.trans hfresh)
  have hsrc : src = ⟨Leb128.encode body.length ++ (body ++ [7, 7]), some .sourceUnavailable⟩ := by
    decide +kernel
  have hbare : (((start counting).run [.loadBody [9]]).feed.loadBody body).1 = .ok () := by decide +kernel
  obtain ⟨hwithin, -, hafter⟩ := hagrees [] [.loadBody [9]] body [7, 7] (some .sourceUnavailable)
    (by decide) (by decide)
  rw [← hsrc] at hwithin hafter
  obtain ⟨hframed, hrest⟩ := hwithin (by decide)
  have hfirst : ((start counting).run []).feed = counting := rfl
  rw [hfirst] at hframed hrest
  rw [hbare] at hframed
  exact ⟨hfeed, hbare, hframed, hrest (by decide), (hafter []).1⟩

end Session
end Columnar
