import Columnar.Proofs.Stream.Delivery

/-!
# Streams that are cut off

Of a stream that is cut off, a reader gives the rows of the frames that are whole.
Whether the rest is missed depends on where the cut is: between two frames, or
behind the last one, nothing tells that there was more, while in the middle of a
length or of a body the stream is damaged.

Two bounds are those of the machine: a page has fewer than `2 ^ 64` rows, and a
stream in memory fewer than `2 ^ 63` bytes.

## Main definitions

* `Writer.IsBoundary` — a cut that leaves no part of a frame.
* `Reader.Salvages` — what reading the first bytes of a stream has to come to.

## Main results

* `Feed.load_torn` — a frame that is cut off is refused.
* `Reader.salvages_take` — the whole frames are read, and a torn one is noticed.
-/

namespace Columnar

theorem Source.number_torn {n k : Nat} (hn : n < 2 ^ 64) (hpos : 0 < k)
    (hk : k < (Leb128.encode n).length) :
    (ofBytes ((Leb128.encode n).take k)).number =
      (.error (.damaged .streamEndsInVarint), ofBytes []) := by
  have hne : (Leb128.encode n).take k ≠ [] := by
    intro hnil
    have hlen := congrArg List.length hnil
    rw [List.length_take_of_le (Nat.le_of_lt hk)] at hlen
    exact Nat.ne_of_gt hpos hlen
  rw [number_eq_scan, ofBytes]
  simp only [Leb128.scan_take hn hk, if_neg hne]
  rfl

namespace Feed

/-- What is wrong with the first bytes of a frame: they end in the length, or in the body. -/
def tear (body : List UInt8) (k : Nat) : Damage :=
  if k < (Leb128.encode body.length).length then .streamEndsInVarint else .streamEndsInPage

/-- **A frame that is cut off is refused.** -/
theorem load_torn {f : Feed} {body : List UInt8} (hbuffer : body.length ≤ maxBuffer)
    (hlimit : body.length ≤ f.limit) {k : Nat} (hpos : 0 < k) (hk : k < (Writer.frame body).length) :
    f.load (.ofBytes ((Writer.frame body).take k)) =
      (.error (.damaged (tear body k)), f.cleared, .ofBytes []) := by
  have hlen := Nat.lt_of_le_of_lt hbuffer maxBuffer_lt
  rw [Writer.frame, List.length_append] at hk
  by_cases hnumber : k < (Leb128.encode body.length).length
  · rw [Writer.frame, List.take_append_of_le_length (Nat.le_of_lt hnumber), load,
      Source.number_torn hlen hpos hnumber, tear, if_pos hnumber]
  · have hle := Nat.not_lt.mp hnumber
    obtain ⟨j, rfl⟩ := Nat.exists_eq_add_of_le hle
    -- the length is whole, so the body is not
    have hj : j < body.length := by omega
    have hshort : (body.take j).length < body.length := by
      rw [List.length_take_of_le (Nat.le_of_lt hj)]
      exact hj
    obtain ⟨n, hn⟩ := Nat.exists_eq_succ_of_ne_zero (Nat.ne_zero_of_lt hj)
    rw [Writer.frame, List.take_length_add_append, load, Source.number_encode hlen, tear,
      if_neg hnumber]
    rw [hn] at hlimit hbuffer hshort ⊢
    simp only [if_neg (Nat.not_lt.mpr hlimit), if_neg (Nat.not_lt.mpr hbuffer),
      Source.read_of_short hshort]

end Feed

namespace Writer

variable {s : Schema} {shapes : List Lane.Shape} {pages : List (List (List (Option Value)))}

theorem frames_append (shapes : List Lane.Shape) (before after : List (List (List (Option Value)))) :
    frames shapes (before ++ after) = frames shapes before ++ frames shapes after := by
  simp [frames]

/-- The frames that lie wholly within some bytes are the first ones. -/
theorem exists_whole (shapes : List Lane.Shape) (pages : List (List (List (Option Value)))) (k : Nat) :
    ∃ n ≤ pages.length, ∀ j ≤ pages.length, (frames shapes (pages.take j)).length ≤ k ↔ j ≤ n := by
  induction pages generalizing k with
  | nil => exact ⟨0, Nat.le_refl 0, fun j hj => ⟨fun _ => hj, fun _ => by simp [frames]⟩⟩
  | cons p pages ih =>
    have hfirst : ∀ j, (frames shapes ((p :: pages).take (j + 1))).length =
        (frame (Page.spell shapes p)).length + (frames shapes (pages.take j)).length := by
      intro j
      rw [List.take_succ_cons, frames, List.flatMap_cons, List.length_append]
      rfl
    -- a frame that does not fit keeps all later ones out
    by_cases hfits : (frame (Page.spell shapes p)).length ≤ k
    · obtain ⟨n, hn, hall⟩ := ih (k - (frame (Page.spell shapes p)).length)
      refine ⟨n + 1, Nat.succ_le_succ hn, ?_⟩
      intro j hj
      cases j with
      | zero => exact ⟨fun _ => Nat.zero_le _, fun _ => Nat.zero_le k⟩
      | succ j =>
        have hrest := hall j (Nat.le_of_succ_le_succ hj)
        rw [hfirst]
        omega
    · refine ⟨0, Nat.zero_le _, ?_⟩
      intro j hj
      cases j with
      | zero => exact ⟨fun _ => Nat.le_refl 0, fun _ => Nat.zero_le k⟩
      | succ j =>
        rw [hfirst]
        omega

theorem length_frames_take_le (shapes : List Lane.Shape) (pages : List (List (List (Option Value))))
    {j n : Nat} (h : j ≤ n) :
    (frames shapes (pages.take j)).length ≤ (frames shapes (pages.take n)).length := by
  rw [← List.take_append_drop j (pages.take n), List.take_take, Nat.min_eq_left h, frames_append,
    List.length_append]
  exact Nat.le_add_right _ _

/-- The length of the header and the frames of the first pages. -/
def reach (s : Schema) (shapes : List Lane.Shape) (pages : List (List (List (Option Value)))) (n : Nat) :
    Nat :=
  (spell s shapes (pages.take n)).length

theorem reach_eq (s : Schema) (shapes : List Lane.Shape) (pages : List (List (List (Option Value))))
    (n : Nat) : reach s shapes pages n = Header.byteLength + (frames shapes (pages.take n)).length := by
  rw [reach, spell, List.length_append, Header.length_toBytes_ofFingerprint]

/-- A cut behind the header or a frame, or no cut at all. -/
def IsBoundary (s : Schema) (shapes : List Lane.Shape) (pages : List (List (List (Option Value))))
    (k : Nat) : Prop :=
  (∃ n ≤ pages.length, k = reach s shapes pages n) ∨ reach s shapes pages pages.length < k

theorem isBoundary_iff {n m k : Nat} (hn : n ≤ pages.length)
    (hreach : ∀ j ≤ pages.length, reach s shapes pages j ≤ k ↔ j ≤ n)
    (hk : k = reach s shapes pages n + m) : IsBoundary s shapes pages k ↔ n = pages.length ∨ m = 0 := by
  constructor
  · rintro (⟨j, hj, hkj⟩ | hwhole)
    · have hle := length_frames_take_le shapes pages ((hreach j hj).mp (Nat.le_of_eq hkj.symm))
      rw [reach_eq] at hk hkj
      exact Or.inr (by omega)
    · have hle := (hreach _ (Nat.le_refl _)).mp (Nat.le_of_lt hwhole)
      exact Or.inl (Nat.le_antisymm hn hle)
  · intro h
    by_cases hm : m = 0
    · exact Or.inl ⟨n, hn, by rw [hk, hm, Nat.add_zero]⟩
    · have hall := h.resolve_right hm
      refine Or.inr ?_
      rw [hk, hall]
      exact Nat.lt_add_of_pos_right (Nat.pos_of_ne_zero hm)

end Writer

namespace Reader

variable {s : Schema} {shapes : List Lane.Shape} {layout : List (Kind × Storage)} {limit : Nat}
  {pages : List (List (List (Option Value)))} {r : Reader} {row : Row} {k : Nat}

/-- What reading the first bytes of a stream has to come to: the rows of the pages whose frames are
wholly there, and then the end or a failure. -/
structure Salvages (s : Schema) (shapes : List Lane.Shape) (pages : List (List (List (Option Value))))
    (k : Nat) (o : Outcome) : Prop where
  rows : ∃ n ≤ pages.length, (∀ j ≤ pages.length, Writer.reach s shapes pages j ≤ k ↔ j ≤ n) ∧
    o.rows = (pages.take n).flatten.map s.deliver
  clean : Writer.IsBoundary s shapes pages k → o.failure = none
  torn : ¬ Writer.IsBoundary s shapes pages k → ∃ d, o.failure = some (.damaged d)

/-- What comes of a cut within the first frame, or behind the last one. -/
def remnant (shapes : List Lane.Shape) (m : Nat) : List (List (List (Option Value))) → Outcome
  | [] => .done
  | p :: _ => if m = 0 then .done else .failed (.damaged (Feed.tear (Page.spell shapes p) m))

theorem rows_remnant (shapes : List Lane.Shape) (m : Nat) (pages : List (List (List (Option Value)))) :
    (remnant shapes m pages).rows = [] := by
  unfold remnant
  split
  · rfl
  · split <;> rfl

theorem remnant_of_clean {m : Nat} (h : pages = [] ∨ m = 0) : remnant shapes m pages = .done := by
  unfold remnant
  split
  · rfl
  · next p later => rw [if_pos (h.resolve_left (List.cons_ne_nil p later))]

theorem remnant_of_torn {m : Nat} (h : ¬ (pages = [] ∨ m = 0)) :
    ∃ d, remnant shapes m pages = .failed (.damaged d) := by
  obtain ⟨hpages, hm⟩ := not_or.mp h
  unfold remnant
  split
  · exact absurd rfl hpages
  · exact ⟨_, if_neg hm⟩

theorem drain_remnant (hpages : ∀ p ∈ pages, Page.Written s shapes p ∧ Page.Within s shapes limit p)
    {m : Nat} (hm : ∀ p ∈ pages.head?, m < (Writer.frame (Page.spell shapes p)).length)
    (h : r.Between s limit ((Writer.frames shapes pages ++ [0]).take m)) (hrow : row.Suits s) :
    r.drain row = remnant shapes m pages := by
  cases m with
  | zero =>
    rw [List.take_zero] at h
    rw [drain_nil h hrow]
    cases pages <;> rfl
  | succ m =>
    cases pages with
    | nil => exact drain_mark h hrow
    | cons p pages =>
      obtain ⟨⟨hwritten, hwithin⟩, -⟩ := List.forall_mem_cons.mp hpages
      have hcut := hm p rfl
      rw [Writer.frames, List.flatMap_cons, List.append_assoc,
        List.take_append_of_le_length (Nat.le_of_lt hcut)] at h
      have hload := Feed.load_torn (Nat.le_of_lt_succ hwritten.length) (h.limit.symm ▸ hwithin.1)
        (Nat.succ_pos m) hcut
      exact drain_of_load_error h hrow hload

/-- Before the first bytes of some frames and the mark of the end, a reader gives what they hold. -/
theorem drain_salvages (hs : s.Finalized) (hl : s.layout = .ok layout)
    (hpages : ∀ p ∈ pages, Page.Written s (s.shapes layout) p ∧ Page.Within s (s.shapes layout) limit p)
    (h : r.Between s limit ((Writer.frames (s.shapes layout) pages ++ [0]).take k)) (hrow : row.Suits s) :
    Salvages s (s.shapes layout) pages (Header.byteLength + k) (r.drain row) := by
  obtain ⟨n, hn, hwhole⟩ := Writer.exists_whole (s.shapes layout) pages k
  have hreach : ∀ j ≤ pages.length,
      Writer.reach s (s.shapes layout) pages j ≤ Header.byteLength + k ↔ j ≤ n := by
    intro j hj
    rw [Writer.reach_eq, ← hwhole j hj]
    omega
  obtain ⟨m, hm⟩ := Nat.exists_eq_add_of_le ((hwhole n hn).mpr (Nat.le_refl n))
  have hk : Header.byteLength + k = Writer.reach s (s.shapes layout) pages n + m := by
    rw [Writer.reach_eq, hm]
    omega
  -- the whole frames come first, and the cut is in the next one
  have happend := Writer.frames_append (s.shapes layout) (pages.take n) (pages.drop n)
  rw [List.take_append_drop] at happend
  rw [happend, List.append_assoc, hm, List.take_length_add_append] at h
  -- the next frame is not among the whole ones
  have hcut : ∀ p ∈ (pages.drop n).head?,
      m < (Writer.frame (Page.spell (s.shapes layout) p)).length := by
    intro p hp
    rw [List.head?_drop] at hp
    have hlt := (List.getElem?_eq_some_iff.mp hp).1
    have hmore := mt (hwhole (n + 1) hlt).mp (Nat.not_succ_le_self n)
    rw [List.take_add_one, hp, Writer.frames_append, List.length_append] at hmore
    have hone : Writer.frames (s.shapes layout) (some p).toList =
        Writer.frame (Page.spell (s.shapes layout) p) := by simp [Writer.frames]
    rw [hone] at hmore
    omega
  have hdrain := drain_frames hs hl h (fun p hp => hpages p (List.mem_of_mem_take hp))
    (fun r' h' row' hrow' => drain_remnant (fun p hp => hpages p (List.mem_of_mem_drop hp)) hcut h'
      hrow') hrow
  have hboundary := Writer.isBoundary_iff hn hreach hk
  have hnil : n = pages.length ↔ pages.drop n = [] := by
    rw [List.drop_eq_nil_iff]
    omega
  rw [hnil] at hboundary
  rw [hdrain]
  refine ⟨⟨n, hn, hreach, ?_⟩, ?_, ?_⟩
  · rw [Outcome.after, rows_remnant, List.append_nil]
  · intro hclean
    rw [remnant_of_clean (hboundary.mp hclean)]
    rfl
  · intro htorn
    obtain ⟨d, hd⟩ := @remnant_of_torn (s.shapes layout) _ m (mt hboundary.mpr htorn)
    exact ⟨d, by rw [hd]; rfl⟩

section

variable [TextHash]

/-- **Of a stream that is cut off the whole frames are read, and a torn one is noticed**, whatever calls
the writer got before it was closed. -/
theorem salvages_take (hs : s.Finalized) (hl : s.layout = .ok layout) {ws rs : Settings}
    {w₀ : Writer Memory} (hw : Writer.Opened s ws w₀) (hrows : ws.pageRows < 2 ^ 64)
    (hrs : rs.check = .ok ()) (calls : List WriterCall)
    (hlen : (w₀.run (calls ++ [.close])).sink.written.length < 2 ^ 63)
    (hwithin : ∀ p ∈ (w₀.follow ws.pageRows .empty (calls ++ [.close])).pages,
      Page.Within s (s.shapes layout) rs.maxPageBytes p) (k : Nat) :
    (w₀.follow ws.pageRows .empty (calls ++ [.close])).pages.flatten = w₀.accepted calls ∧
      (k < Header.byteLength →
        Reader.make (.ofBytes ((w₀.run (calls ++ [.close])).sink.written.take k)) s rs =
          .error (.damaged .headerTruncated)) ∧
      (Header.byteLength ≤ k →
        ∃ r, Reader.make (.ofBytes ((w₀.run (calls ++ [.close])).sink.written.take k)) s rs = .ok r ∧
          ∀ row : Row, row.Suits s → Salvages s (s.shapes layout)
            (w₀.follow ws.pageRows .empty (calls ++ [.close])).pages k (r.drain row)) := by
  obtain ⟨layout', hl', htracks, hclosed, hclose⟩ := Writer.tracks_closed hw calls
  obtain rfl := Except.ok.inj (hl.symm.trans hl')
  have hledger := Writer.rows_follow w₀ ws.pageRows .empty (calls ++ [.close])
  generalize w₀.follow ws.pageRows .empty (calls ++ [.close]) = l at htracks hwithin hledger
  have hsink := htracks.sink_of_closed hclosed
  have hwritten := htracks.written hs hl hclosed hrows hlen
  refine ⟨?_, ?_, ?_⟩
  · rw [Ledger.rows, htracks.closed hclosed, List.append_nil, Writer.accepted_concat] at hledger
    rw [hledger, hclose]
    exact List.append_nil _
  · intro hshort
    refine make_of_short hs hrs ?_
    rw [List.length_take]
    exact Nat.lt_of_le_of_lt (Nat.min_le_left _ _) hshort
  · intro hlong
    obtain ⟨m, rfl⟩ := Nat.exists_eq_add_of_le hlong
    obtain ⟨r, hr, hbetween⟩ := make_of_header hs hrs
      ((Writer.frames (s.shapes layout) l.pages ++ [0]).take m)
    refine ⟨r, ?_, fun row hrow =>
      drain_salvages hs hl (fun p hp => ⟨hwritten p hp, hwithin p hp⟩) hbetween hrow⟩
    rw [hsink, Writer.spell, List.append_assoc, ← Header.length_toBytes_ofFingerprint s.fingerprint,
      List.take_length_add_append]
    exact hr

end

open scoped Builtin

/-- Calls that write a row, which goes into a page of its own, and another one. -/
def rowTwice : List WriterCall :=
  [.row (Row.blank Schema.counter), .flush, .row (Row.blank Schema.counter)]

theorem salvages_take_rowTwice : ∃ r, Reader.make (.ofBytes
      ((Writer.counting.run (rowTwice ++ [.close])).sink.written.take 30)) Schema.counter .small = .ok r ∧
    (r.drain (Row.blank Schema.counter)).rows = [[some (.uint 7)]] := by
  have hl : Schema.counter.layout = .ok [(.uint64, .uint)] := rfl
  have hsettings : Settings.small.check = .ok () := rfl
  obtain ⟨-, -, hlong⟩ := salvages_take Schema.finalized_counter hl Writer.opened_counting (by decide)
    hsettings rowTwice (by decide +kernel) (by decide +kernel) 30
  obtain ⟨r, hr, hdrain⟩ := hlong (by decide)
  have hsuits : (Row.blank Schema.counter).Suits Schema.counter := Row.suits_of_schema rfl
  obtain ⟨n, -, hreach, hrows⟩ := (hdrain _ hsuits).rows
  have hone := (hreach 1 (by decide +kernel)).mp (by decide +kernel)
  have htwo := mt (hreach 2 (by decide +kernel)).mpr (by decide +kernel)
  obtain rfl : n = 1 := by omega
  refine ⟨r, hr, hrows.trans ?_⟩
  decide +kernel

end Reader
end Columnar
