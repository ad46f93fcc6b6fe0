import Columnar.Proofs.Page.History

/-!
# Full drafts

A draft that has as many rows as its limit refuses values and rows.  It does not
refuse presence bits: one is taken for every field that has none in the open row.  No
row can be sealed after that, so the page cannot be had until the bit is abandoned or
the draft is reset.  That is all the harm: whatever calls come before a reset, the
sealed rows stay, and whenever no presence bit is open the page is theirs.

Whether a draft is full is no state of its own but a comparison that each call makes
or does not make.  So it is first said what a call can make of a sheet, and at which
number of rows; the rest is read off that.

## Main definitions

* `Sheet.Passes` — what a call can make of a sheet.
* `Draft.Shut` — a draft takes nothing and keeps its page.
* `Draft.AtLimit` — what a full draft takes, and what of it stays.

## Main results

* `Draft.Tracks.passes` — a call makes of a sheet one of these things.
* `Draft.atLimit_of_full` — **a full draft refuses all but presence bits, and its rows
  stay until a reset.**
* `Draft.not_shut_of_full` — so a full draft is not shut.
-/

namespace Columnar

namespace Sheet

/-- The open cells have at most presence bits. -/
def Valueless (sh : Sheet) : Prop := ∀ c ∈ sh.cells, c.value = none

/-- What a call can make of the sheet of a draft with some limit: nothing; one more part of the open
row; one more row; the open row abandoned; or no rows. -/
inductive Passes (limit : Nat) (sh : Sheet) : DraftCall → Sheet → Prop
  | stays {c : DraftCall} (not_reset : c ≠ .reset) : Passes limit sh c sh
  | value {i : Nat} {v : Value} {p : Option Bool} (not_full : sh.sealed.length < limit)
      (missing : sh.cells[i]? = some ⟨none, p⟩) :
      Passes limit sh (.value i v) { sh with cells := sh.cells.set i ⟨some v, p⟩ }
  | presence {i : Nat} {b : Bool} {w : Option Value} (missing : sh.cells[i]? = some ⟨w, none⟩) :
      Passes limit sh (.presence i b) { sh with cells := sh.cells.set i ⟨w, some b⟩ }
  | seals {c : DraftCall} (row : List (Value × Bool)) (not_full : sh.sealed.length < limit) :
      Passes limit sh c (sh.withRow row)
  | abandons {c : DraftCall} (not_reset : c ≠ .reset) : Passes limit sh c sh.abandoned
  | resets : Passes limit sh .reset (blank sh.cells.length)

variable {limit : Nat} {sh sh' : Sheet} {c : DraftCall}

theorem Idle.valueless (h : sh.Idle) : sh.Valueless := by
  intro c hc
  rw [h c hc]
  rfl

theorem idle_replicate (rows : List (List (Value × Bool))) (n : Nat) :
    (⟨rows, List.replicate n .blank⟩ : Sheet).Idle := fun _ hc => List.eq_of_mem_replicate hc

/-- A full sheet has no values among its open cells. -/
theorem Passes.valueless (h : sh.Passes limit c sh') (hv : limit ≤ sh.sealed.length → sh.Valueless) :
    limit ≤ sh'.sealed.length → sh'.Valueless := by
  intro hfull
  cases h with
  | stays => exact hv hfull
  | value not_full => exact absurd hfull (Nat.not_le_of_lt not_full)
  | presence missing =>
    intro k hk
    rcases List.mem_or_eq_of_mem_set hk with hold | rfl
    · exact hv hfull k hold
    · have hw := hv hfull _ (List.mem_of_getElem? missing)
      exact hw
  | seals => exact (idle_replicate _ _).valueless
  | abandons => exact (idle_replicate _ _).valueless
  | resets => exact (idle_replicate _ _).valueless

/-- The rows of a full sheet stay until a reset. -/
theorem Passes.sealed_eq (h : sh.Passes limit c sh') (hfull : limit ≤ sh.sealed.length)
    (hc : c ≠ .reset) : sh'.sealed = sh.sealed := by
  cases h with
  | stays | value | presence | abandons => rfl
  | seals _ not_full => exact absurd hfull (Nat.not_le_of_lt not_full)
  | resets => exact absurd rfl hc

/-- The call that fills a sheet leaves no row open. -/
theorem Passes.idle_of_fills (h : sh.Passes limit c sh') (hlt : sh.sealed.length < limit)
    (hfull : limit ≤ sh'.sealed.length) : sh'.Idle := by
  cases h with
  | stays | value | presence => exact absurd hfull (Nat.not_le_of_lt hlt)
  | seals | abandons | resets => exact idle_replicate _ _

/-- On a full sheet only presence bits open a row. -/
theorem Passes.idle (h : sh.Passes limit c sh') (hfull : limit ≤ sh.sealed.length) (hidle : sh.Idle)
    (hc : ∀ i b, c ≠ .presence i b) : sh'.Idle := by
  cases h with
  | stays => exact hidle
  | value not_full => exact absurd hfull (Nat.not_le_of_lt not_full)
  | @presence i b => exact absurd rfl (hc i b)
  | seals | abandons | resets => exact idle_replicate _ _

end Sheet

namespace Draft

variable {d d' : Draft} {sh : Sheet}

/-- Rows are sealed only while the draft is not full. -/
theorem sealRow_of_full (h : d.isFull = true) : d.sealRow = .error .pageFull := if_pos h

variable [TextHash]

theorem appendValue_of_full (h : d.isFull = true) (i : Nat) (v : Value) :
    d.appendValue i v = .error .pageFull := if_pos h

theorem appendRow_of_full (h : d.isFull = true) (r : Row) : d.appendRow r =
    (.error (if r.width ≠ d.lanes.length then .columnCountMismatch d.lanes.length r.width
      else .pageFull), d) := by
  rw [appendRow]
  by_cases hwidth : r.width ≠ d.lanes.length
  · rw [if_pos hwidth, if_pos hwidth]
  · rw [if_neg hwidth, if_neg hwidth, if_pos h]

theorem Tracks.isFull_iff (h : d.Tracks sh) : d.isFull = true ↔ d.limit ≤ sh.sealed.length := by
  rw [isFull, h.rows, decide_eq_true_iff]

theorem Tracks.lt_limit (h : d.Tracks sh) (hfull : ¬ d.isFull = true) : sh.sealed.length < d.limit :=
  Nat.lt_of_not_le fun hle => hfull (h.isFull_iff.mpr hle)

/-- **A call makes one of these things of a sheet.** -/
theorem Tracks.passes (h : d.Tracks sh) (c : DraftCall) :
    sh.Passes d.limit c (sh.after d.shapes c (d.step c).1) := by
  cases c with
  | value i v =>
    rw [Draft.step]
    cases hv : d.appendValue i v with
    | error e => exact .stays (by simp)
    | ok d' =>
      have hfull : ¬ d.isFull = true := fun hfull => by
        rw [appendValue_of_full hfull] at hv
        cases hv
      obtain ⟨p, hc, -⟩ := h.appendValue hv
      show sh.Passes _ _ { sh with cells := sh.cells.modify i _ }
      rw [modify_eq_set hc]
      exact .value (h.lt_limit hfull) hc
  | presence i b =>
    rw [Draft.step]
    cases hb : d.recordPresence i b with
    | error e => exact .stays (by simp)
    | ok d' =>
      obtain ⟨w, hc, -⟩ := h.recordPresence hb
      show sh.Passes _ _ { sh with cells := sh.cells.modify i _ }
      rw [modify_eq_set hc]
      exact .presence hc
  | sealRow =>
    rw [Draft.step]
    cases hd : d.sealRow with
    | error e => exact .stays (by simp)
    | ok d' =>
      have hfull : ¬ d.isFull = true := fun hfull => by
        rw [sealRow_of_full hfull] at hd
        cases hd
      exact .seals _ (h.lt_limit hfull)
  | abortRow => exact .abandons (by simp)
  | row r =>
    rw [Draft.step]
    cases hd : d.appendRow r with
    | mk result d' =>
      cases result with
      | ok u =>
        have hfull : ¬ d.isFull = true := fun hfull => by
          rw [appendRow_of_full hfull] at hd
          cases hd
        exact .seals _ (h.lt_limit hfull)
      | error e =>
        show sh.Passes _ _ (if e.turnsAway then sh else sh.abandoned)
        cases e.turnsAway with
        | true => exact .stays (by simp)
        | false => exact .abandons (by simp)
  | encode =>
    rw [Draft.step]
    cases d.encode <;> exact .stays (by simp)
  | reset => exact .resets

/-! ### Histories -/

theorem follow_append (d : Draft) (sh : Sheet) (calls more : List DraftCall) :
    d.follow sh (calls ++ more) = (d.run calls).follow (d.follow sh calls) more := by
  induction calls generalizing d sh with
  | nil => rfl
  | cons c calls ih => exact ih _ _

theorem run_append (d : Draft) (calls more : List DraftCall) :
    d.run (calls ++ more) = (d.run calls).run more := List.foldl_append

/-- Whatever the calls, a full draft has no values in its open row. -/
theorem Tracks.valueless_follow (h : d.Tracks sh) (hv : d.limit ≤ sh.sealed.length → sh.Valueless)
    (calls : List DraftCall) (hfull : d.limit ≤ (d.follow sh calls).sealed.length) :
    (d.follow sh calls).Valueless := by
  induction calls generalizing d sh with
  | nil => exact hv hfull
  | cons c calls ih =>
    have hlimit : (d.step c).2.limit = d.limit := (d.alike_step c).limit
    refine ih (h.step c) ?_ (hlimit ▸ hfull)
    rw [hlimit]
    exact (h.passes c).valueless hv

/-- A full draft stays full until a reset. -/
theorem Tracks.isFull_step (h : d.Tracks sh) (hfull : d.isFull = true) {c : DraftCall}
    (hc : c ≠ .reset) : (d.step c).2.isFull = true := by
  rw [(h.step c).isFull_iff, (h.passes c).sealed_eq (h.isFull_iff.mp hfull) hc, (d.alike_step c).limit]
  exact h.isFull_iff.mp hfull

/-- Its rows stay until a reset. -/
theorem Tracks.sealed_follow (h : d.Tracks sh) (hfull : d.isFull = true) {more : List DraftCall}
    (hmore : .reset ∉ more) : (d.follow sh more).sealed = sh.sealed := by
  induction more generalizing d sh with
  | nil => rfl
  | cons c more ih =>
    have hc : c ≠ .reset := (List.ne_of_not_mem_cons hmore).symm
    have hsealed := (h.passes c).sealed_eq (h.isFull_iff.mp hfull) hc
    exact (ih (h.step c) (h.isFull_step hfull hc) (List.not_mem_of_not_mem_cons hmore)).trans hsealed

/-- And no row is opened without a presence bit. -/
theorem Tracks.idle_follow (h : d.Tracks sh) (hfull : d.isFull = true) (hidle : sh.Idle)
    {more : List DraftCall} (hmore : .reset ∉ more) (hbits : ∀ i b, .presence i b ∉ more) :
    (d.follow sh more).Idle := by
  induction more generalizing d sh with
  | nil => exact hidle
  | cons c more ih =>
    have hc : c ≠ .reset := (List.ne_of_not_mem_cons hmore).symm
    have hbit : ∀ i b, c ≠ .presence i b := fun i b hb => hbits i b (hb ▸ List.mem_cons_self)
    have hstill := (h.passes c).idle (h.isFull_iff.mp hfull) hidle hbit
    exact ih (h.step c) (h.isFull_step hfull hc) hstill (List.not_mem_of_not_mem_cons hmore)
      fun i b hb => hbits i b (List.mem_cons_of_mem _ hb)

/-- Abandoning what is open leaves nothing open. -/
theorem idle_sheet_abortRow (d : Draft) (calls : List DraftCall) :
    (d.sheet (calls ++ [.abortRow])).Idle := by
  rw [sheet, follow_append]
  exact Sheet.idle_replicate _ _

/-- A presence bit is taken for the fields that have none in the open row. -/
theorem Tracks.recordPresence_iff (h : d.Tracks sh) (i : Nat) (b : Bool) :
    (∃ d', d.recordPresence i b = .ok d') ↔ ∃ c, sh.cells[i]? = some c ∧ c.presence = none := by
  constructor
  · rintro ⟨d', hb⟩
    obtain ⟨w, hc, -⟩ := h.recordPresence hb
    exact ⟨_, hc, rfl⟩
  · rintro ⟨c, hc, hnone⟩
    have hlt : i < d.lanes.length := h.width ▸ (List.getElem?_eq_some_iff.mp hc).1
    have hl : d.lanes[i]? = some d.lanes[i] := List.getElem?_eq_getElem hlt
    obtain ⟨c', hc', hshows, hcount⟩ := h.exists_cell hl
    obtain rfl : c = c' := Option.some.inj (hc.symm.trans hc')
    have hlen : d.lanes[i].presence.length = d.rows := by
      rw [hshows.length_presence, hnone, hcount]
      rfl
    rw [recordPresence_eq, hl]
    simp only
    rw [if_neg (not_not.mpr hlen)]
    exact ⟨_, rfl⟩

/-! ### What stays of a full draft -/

/-- What a full draft that some calls have led to takes, and what of it stays. -/
structure AtLimit (d : Draft) (calls : List DraftCall) : Prop where
  /-- Values are refused, whatever they are. -/
  value : ∀ i v, (d.run calls).step (.value i v) = (.error .pageFull, d.run calls)
  /-- So is sealing a row. -/
  sealRow : (d.run calls).step .sealRow = (.error .pageFull, d.run calls)
  /-- So are rows as a whole, among which those of another width are told apart first. -/
  row : ∀ r, (d.run calls).step (.row r) = (.error (if r.width ≠ (d.run calls).lanes.length then
    .columnCountMismatch (d.run calls).lanes.length r.width else .pageFull), d.run calls)
  /-- Presence bits are taken, one for each field that has none in the open row. -/
  presence : ∀ i b, ((d.run calls).step (.presence i b)).1 = .ok [] ↔
    ∃ c, (d.sheet calls).cells[i]? = some c ∧ c.presence = none
  /-- They are all that is open. -/
  valueless : (d.sheet calls).Valueless
  /-- The call that filled the draft left none. -/
  fills : ∀ before c, calls = before ++ [c] → (d.run before).isFull = false → (d.sheet calls).Idle
  /-- Until a reset there is none without such a call. -/
  steady : (d.sheet calls).Idle → ∀ more, .reset ∉ more → (∀ i b, .presence i b ∉ more) →
    (d.sheet (calls ++ more)).Idle
  /-- An abandoned row leaves none. -/
  aborts : (d.sheet (calls ++ [.abortRow])).Idle
  /-- Until a reset the rows stay, and whenever no presence bit is open the page is theirs; in between it
  cannot be had. -/
  page : ∃ body, ∀ more, .reset ∉ more →
    (d.sheet (calls ++ more)).sealed = (d.sheet calls).sealed ∧
      ((d.sheet (calls ++ more)).Idle → (d.run (calls ++ more)).encode = .ok body) ∧
      (¬ (d.sheet (calls ++ more)).Idle → (d.run (calls ++ more)).encode = .error (.misuse .rowOpen))

theorem atLimit_of_tracks (h : d.Tracks (.blank d.lanes.length)) {calls : List DraftCall}
    (hfull : (d.run calls).isFull = true) : d.AtLimit calls where
  value := fun i v => by rw [Draft.step, appendValue_of_full hfull, orKept]
  sealRow := by rw [Draft.step, sealRow_of_full hfull, orKept]
  row := fun r => by
    rw [Draft.step, appendRow_of_full hfull]
    rfl
  presence := by
    intro i b
    refine Iff.trans ?_ ((h.run calls).recordPresence_iff i b)
    rw [Draft.step]
    cases (d.run calls).recordPresence i b <;> simp [orKept]
  valueless := by
    refine h.valueless_follow (fun _ => (Sheet.idle_replicate _ _).valueless) calls ?_
    rw [← (d.alike_run calls).limit]
    exact (h.run calls).isFull_iff.mp hfull
  fills := by
    rintro before c rfl hbefore
    have htracks : (d.run before).Tracks (d.sheet before) := h.run before
    have hsheet : d.sheet (before ++ [c]) =
        (d.sheet before).after (d.run before).shapes c ((d.run before).step c).1 := d.follow_append _ _ _
    rw [hsheet]
    refine (htracks.passes c).idle_of_fills (htracks.lt_limit (Bool.eq_false_iff.mp hbefore)) ?_
    rw [← ((d.run before).alike_step c).limit, ← (htracks.step c).isFull_iff]
    rwa [run_append] at hfull
  steady := by
    intro hidle more hmore hbits
    rw [sheet, follow_append]
    exact (h.run calls).idle_follow hfull hidle hmore hbits
  aborts := d.idle_sheet_abortRow calls
  page := by
    have hsealed : ∀ more, .reset ∉ more → (d.sheet (calls ++ more)).sealed = (d.sheet calls).sealed := by
      intro more hmore
      rw [sheet, follow_append]
      exact (h.run calls).sealed_follow hfull hmore
    -- the page is what there would be if the open row were abandoned
    have hidle := d.idle_sheet_abortRow calls
    obtain ⟨body, hbody⟩ := (h.run _).exists_encode hidle
    refine ⟨body, fun more hmore => ⟨hsealed more hmore, fun hmoreIdle => ?_, fun hopen => ?_⟩⟩
    · rw [← hbody]
      refine (h.run _).encode_eq (h.run _) (d.alike_run_run _ _) ?_ hidle hmoreIdle
      exact (hsealed more hmore).trans (hsealed [.abortRow] (by simp)).symm
    · exact (h.run _).encode_of_not_idle hopen

/-- **A full draft refuses all but presence bits, and its rows stay until a reset**, for every schema that
has drafts, every limit, and all calls that may have filled it. -/
theorem atLimit_of_full {s : Schema} {limit : Nat} (hd : make s limit = .ok d) {calls : List DraftCall}
    (hfull : (d.run calls).rows = limit) : d.AtLimit calls := by
  obtain ⟨-, -, hlimit, -⟩ := of_make hd
  have hreached : (d.run calls).limit = (d.run calls).rows :=
    (d.alike_run calls).limit.trans (hlimit.trans hfull.symm)
  refine atLimit_of_tracks (tracks_make hd) ?_
  exact decide_eq_true_iff.mpr (Nat.le_of_eq hreached)

/-- The call adds to the draft: a value, a presence bit, the end of a row, or a row as a whole. -/
def adds : DraftCall → Bool
  | .value .. | .presence .. | .sealRow | .row _ => true
  | .abortRow | .encode | .reset => false

/-- The draft refuses whatever would add to it, stays as it is, and gives one page until a reset. -/
structure Shut (d : Draft) : Prop where
  refuses : ∀ c, adds c = true → (∃ e, (d.step c).1 = .error e) ∧ (d.step c).2 = d
  page : ∃ body, ∀ more, .reset ∉ more → (d.run more).encode = .ok body

end Draft

/-! ### A full draft is not shut -/

namespace Draft

open scoped Builtin

/-- A draft of one counter. -/
def single : Draft := ⟨Schema.counter, 1, 0, emptyLanes Schema.counter [(.uint64, .uint)]⟩

/-- The row that fills it, and a presence bit after that. -/
def overfilling : List DraftCall := [.row (Row.blank Schema.counter), .presence 0 true]

theorem atLimit_of_full_single : make Schema.counter 1 = .ok single ∧
    (single.run overfilling).rows = 1 ∧ single.AtLimit overfilling := by
  have hmake : make Schema.counter 1 = .ok single := rfl
  have hrows : (single.run overfilling).rows = 1 := by decide +kernel
  exact ⟨hmake, hrows, atLimit_of_full hmake hrows⟩

/-- **A full draft is not shut**: it takes a presence bit, and cannot be encoded then. -/
theorem not_shut_of_full : ¬ ∀ (s : Schema) (limit : Nat) (d : Draft) (calls : List DraftCall),
    s.Finalized → 0 < s.width → make s limit = .ok d → (d.run calls).rows = limit →
      (d.run calls).Shut := by
  intro hshut
  have hfull := hshut Schema.counter 1 single [.row (Row.blank Schema.counter)] Schema.finalized_counter
    (by decide) rfl (by decide +kernel)
  obtain ⟨body, hbody⟩ := hfull.page
  have hopen := hbody [.presence 0 true] (by simp)
  have hrefused : ((single.run [.row (Row.blank Schema.counter)]).run [.presence 0 true]).encode =
      .error (.misuse .rowOpen) := by decide +kernel
  rw [hrefused] at hopen
  cases hopen

end Draft
end Columnar
