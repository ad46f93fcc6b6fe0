import Columnar.Proofs.Bytes.Follow

/-!
# Windows that nothing leaves

Cursors on one buffer are used in any order, and each can have smaller windows cut off
of it, which are cursors like it.  Positions are those of the whole buffer, and a length or
count that is read may promise whatever it likes: no cursor gets past the end of the window
that it was made for, and none sees a byte outside of it.

A cursor holds what it is asked for against the distance to its end, and moves only if that
is enough.  So a call moves it on in its window, by what it took off; if the cursor has named
a place or cut off a window, that is the place that it has moved past, and what it names lies
behind what it has named before.  All that a call looks at is the distance to the end and
the bytes on the way there, so it comes to the same on any other buffer that has these bytes
somewhere, except for the places.

## Main definitions

* `Cursor.Call`, `Cursor.Answer`, `Cursor.ask` — what can be asked of a cursor.
* `Cursor.Advances`, `Cursor.Rests`, `Cursor.Local` — a reader moves on in the window, stays
  where it is when it fails, and comes to the same on the same bytes elsewhere.
* `Cursor.Held` — a cursor in use, with the window that it was made for and the places that
  it has named.
* `Cursor.step`, `Cursor.after`, `Cursor.answers` — calls on the cursors in use.
* `Cursor.Confined` — a cursor stays in its window and sees nothing else.

## Main results

* `Cursor.moves_ask`, `Cursor.rests_ask`, `Cursor.local_ask` — what one call does.
* `Cursor.sound_step`, `Cursor.sound_after` — cursors in use stay in order.
* `Cursor.given_step`, `Cursor.given_after` — windows come from where they were cut off.
* `Cursor.alike_step`, `Cursor.answers_alike` — the same bytes give the same answers elsewhere.
* `Cursor.confined_after` — **nothing leaves its window.**
-/

namespace Columnar

namespace Span

/-- Where a place ends. -/
def stop (p : Span) : Nat := p.offset + p.length

/-- The place as much further on. -/
def movedBy (d : Nat) (p : Span) : Span := ⟨p.offset + d, p.length⟩

end Span

namespace Cursor

/-- What can be asked of a cursor. -/
inductive Call where
  | position
  | left
  | isEmpty
  | byte
  | number
  | signed
  | word
  | length
  /-- Whether what is left can hold `n` things of a width. -/
  | count (n width : Nat)
  | bytes (n : Nat)
  | span (n : Nat)
  | sub (n : Nat)

/-- What is seen of an answer.  Of a window that is cut off this is its place. -/
inductive Answer where
  | position (offset : Nat)
  | flag (b : Bool)
  | byte (b : UInt8)
  | number (n : Nat)
  | signed (v : Int64)
  | word (w : UInt64)
  | bytes (bs : List UInt8)
  | span (place : Span)
  | window (place : Span)

/-- The place that an answer names. -/
def Answer.place? : Answer → Option Span
  | span place => some place
  | window place => some place
  | _ => none

/-- What a call comes to: what is seen of it, and the cursor on the window that it has cut off. -/
def ask : Call → Read (Answer × Option Cursor)
  | .position => do return (.position (← get).position, none)
  | .left => do return (.number (← get).left, none)
  | .isEmpty => do return (.flag (← get).isEmpty, none)
  | .byte => do return (.byte (← byte), none)
  | .number => do return (.number (← number), none)
  | .signed => do return (.signed (← signed), none)
  | .word => do return (.word (← word), none)
  | .length => do return (.number (← length), none)
  | .count n width => do
    fits n width
    return (.number n, none)
  | .bytes n => do return (.bytes (← bytes n), none)
  | .span n => do return (.span (← span n), none)
  | .sub n => do
    let inner ← sub n
    return (.window inner.ahead, some inner)

section Results

variable {α : Type}

/-- What a reader gives. -/
def outcome : EStateM.Result Failure Cursor α → Except Failure α
  | .ok a _ => .ok a
  | .error e _ => .error e

/-- Where the cursor stands after it. -/
def standing : EStateM.Result Failure Cursor α → Cursor
  | .ok _ c => c
  | .error _ c => c

end Results

/-! ### Readers move on in the window -/

section Advancing

variable {α β : Type}

/-- A reader moves a cursor on by some of the bytes that are left, also when it fails. -/
def Advances (p : Read α) : Prop :=
  ∀ c : Cursor, c.Bounded → ∃ n, n ≤ c.left ∧ standing (p c) = c.onward n

theorem onward_onward (c : Cursor) (m n : Nat) : (c.onward m).onward n = c.onward (m + n) := by
  simp only [onward, Nat.add_assoc]

theorem left_onward (c : Cursor) (n : Nat) : (c.onward n).left = c.left - n :=
  Nat.sub_add_eq c.stop c.position n

theorem advances_of_still {p : Read α} (h : ∀ c, standing (p c) = c) : Advances p :=
  fun c _ => ⟨0, Nat.zero_le _, h c⟩

theorem Advances.bind {p : Read α} {more : α → Read β} (h : Advances p) (hmore : ∀ a, Advances (more a)) :
    Advances (p >>= more) := by
  intro c hc
  obtain ⟨m, hm, hstands⟩ := h c hc
  cases hp : p c with
  | error e c' =>
    rw [hp] at hstands
    rw [bind_of_error hp]
    exact ⟨m, hm, hstands⟩
  | ok a c' =>
    rw [hp] at hstands
    obtain rfl : c' = c.onward m := hstands
    obtain ⟨n, hn, hstands⟩ := hmore a (c.onward m) (hc.onward hm)
    rw [left_onward] at hn
    rw [bind_of_ok hp]
    exact ⟨m + n, by omega, hstands.trans (onward_onward c m n)⟩

theorem advances_byte : Advances byte := by
  intro c hc
  cases hw : c.window with
  | nil => exact ⟨0, Nat.zero_le _, by rw [byte_of_nil hc hw]; rfl⟩
  | cons b rest =>
    have hone : 1 ≤ c.left := by
      rw [← hc.length_window, hw]
      exact Nat.le_add_left 1 rest.length
    exact ⟨1, hone, by rw [byte_of_cons hc hw]; rfl⟩

theorem advances_number : Advances number := by
  intro c hc
  unfold number
  cases Leb128.decode c.window with
  | error e => exact ⟨0, Nat.zero_le _, rfl⟩
  | ok r =>
    refine ⟨c.window.length - r.2.length, ?_, rfl⟩
    rw [← hc.length_window]
    exact Nat.sub_le _ _

/-- Readers of the next `n` bytes move past them, or stay. -/
theorem advances_front {p : Read α} {n : Nat} (hlt : ∀ c : Cursor, c.left < n → standing (p c) = c)
    (hle : ∀ c : Cursor, n ≤ c.left → standing (p c) = c.onward n) : Advances p := by
  intro c _
  rcases Nat.lt_or_ge c.left n with hn | hn
  · exact ⟨0, Nat.zero_le _, hlt c hn⟩
  · exact ⟨n, hn, hle c hn⟩

theorem advances_bytes (n : Nat) : Advances (bytes n) :=
  advances_front (fun _ h => by rw [bytes_of_lt h]; rfl) fun _ h => by rw [bytes_of_le h]; rfl

theorem advances_holds (n : Nat) : Advances (holds n) := by
  apply advances_of_still
  intro c
  rcases Nat.lt_or_ge c.left n with hn | hn
  · rw [holds_of_lt hn]; rfl
  · rw [holds_of_le hn]; rfl

theorem advances_fits (count width : Nat) : Advances (fits count width) := by
  apply advances_of_still
  intro c
  rcases Nat.lt_or_ge c.left (min (count * width) (2 ^ 64 - 1)) with hn | hn
  · rw [fits_of_lt hn]; rfl
  · rw [fits_of_le hn]; rfl

end Advancing

/-! ### Readers stay where they are when they fail -/

section Resting

variable {α β : Type}

/-- A reader that fails leaves the cursor where it stood. -/
def Rests (p : Read α) : Prop := ∀ c e c', p c = .error e c' → c' = c

/-- A reader behind which only comes what does not fail. -/
theorem Rests.bind {p : Read α} {more : α → Read β} (h : Rests p)
    (hmore : ∀ a c e c', more a c ≠ .error e c') : Rests (p >>= more) := by
  intro c e c' hfails
  cases hp : p c with
  | error e' c'' =>
    rw [bind_of_error hp] at hfails
    cases hfails
    exact h c _ _ hp
  | ok a c'' =>
    rw [bind_of_ok hp] at hfails
    exact absurd hfails (hmore a c'' e c')

/-- A reader whose result is only put into another form. -/
theorem Rests.map {p : Read α} (h : Rests p) (f : α → β) : Rests (p >>= fun a => pure (f a)) :=
  h.bind fun _ _ _ _ => nofun

theorem rests_byte : Rests byte := by
  intro c e c' h
  unfold byte at h
  split at h <;> cases h
  rfl

theorem rests_number : Rests number := by
  intro c e c' h
  unfold number at h
  split at h <;> cases h
  rfl

theorem rests_span (n : Nat) : Rests (span n) := by
  intro c e c' h
  unfold span at h
  split at h <;> cases h
  rfl

theorem rests_bytes (n : Nat) : Rests (bytes n) := (rests_span n).bind fun _ _ _ _ => nofun

theorem rests_sub (n : Nat) : Rests (sub n) := (rests_span n).bind fun _ _ _ _ => nofun

theorem rests_fits (count width : Nat) : Rests (fits count width) := by
  intro c e c' h
  rcases Nat.lt_or_ge c.left (min (count * width) (2 ^ 64 - 1)) with hn | hn
  · rw [fits_of_lt hn] at h
    cases h
    rfl
  · rw [fits_of_le hn] at h
    cases h

/-- A length that is refused has been read: the cursor stands behind it. -/
theorem of_length_error {c c' : Cursor} {e : Failure} (h : length c = .error e c') :
    c' = c ∨ ∃ n, number c = .ok n c' := by
  unfold length at h
  cases hn : number c with
  | error e' c'' =>
    rw [bind_of_error hn] at h
    cases h
    exact Or.inl (rests_number c _ _ hn)
  | ok n c'' =>
    rw [bind_of_ok hn] at h
    rcases Nat.lt_or_ge c''.left n with hlt | hle
    · rw [bind_of_error (holds_of_lt hlt)] at h
      cases h
      exact Or.inr ⟨n, rfl⟩
    · rw [bind_of_ok (holds_of_le hle)] at h
      cases h

/-- **After a failure the cursor stands where it stood, or behind the length that was refused.** -/
theorem rests_ask {c : Cursor} {k : Call} {e : Failure} (h : outcome (ask k c) = .error e) :
    standing (ask k c) = c ∨ k = .length ∧ ∃ n, number c = .ok n (standing (ask k c)) := by
  have hrests : ∀ {p : Read (Answer × Option Cursor)}, Rests p → outcome (p c) = .error e →
      standing (p c) = c := by
    intro p hp hfails
    cases hr : p c with
    | ok a c' => rw [hr] at hfails; cases hfails
    | error e' c' => exact hp c e' c' hr
  cases k with
  | position => cases h
  | left => cases h
  | isEmpty => cases h
  | byte => exact Or.inl (hrests (rests_byte.map _) h)
  | number => exact Or.inl (hrests (rests_number.map _) h)
  | signed => exact Or.inl (hrests ((rests_number.map _).map _) h)
  | word => exact Or.inl (hrests (((rests_bytes 8).map _).map _) h)
  | count n width => exact Or.inl (hrests ((rests_fits n width).map _) h)
  | bytes n => exact Or.inl (hrests ((rests_bytes n).map _) h)
  | span n => exact Or.inl (hrests ((rests_span n).map _) h)
  | sub n => exact Or.inl (hrests ((rests_sub n).map _) h)
  | length =>
    cases hr : length c with
    | ok n c' =>
      rw [ask, bind_of_ok hr] at h
      cases h
    | error e' c' =>
      rw [ask, bind_of_error hr]
      exact (of_length_error hr).imp id fun hn => ⟨rfl, hn⟩

end Resting

/-! ### What one call does -/

variable {c : Cursor} {n : Nat}

theorem advances_pure {α : Type} (a : α) : Advances (pure a : Read α) := advances_of_still fun _ => rfl

theorem Advances.map {α β : Type} {p : Read α} (h : Advances p) (f : α → β) :
    Advances (p >>= fun a => pure (f a)) := h.bind fun _ => advances_pure _

/-- What a call can do to a cursor: it moves on in its window, and what the answer names is what it has
moved past. -/
structure Moves (c : Cursor) (r : EStateM.Result Failure Cursor (Answer × Option Cursor)) : Prop where
  onward : ∃ n, n ≤ c.left ∧ standing r = c.onward n
  names : ∀ a place, outcome r = .ok a → a.1.place? = some place →
    place.offset = c.position ∧ place.stop = (standing r).position
  /-- A window that is cut off holds the next bytes, and the answer names it. -/
  cuts : ∀ a inner, outcome r = .ok a → a.2 = some inner →
    ∃ n, n ≤ c.left ∧ inner = c.cut n ∧ a.1.place? = some ⟨c.position, n⟩

/-- Calls whose answers name no place. -/
theorem Advances.moves {α : Type} {p : Read α} (h : Advances p) (hc : c.Bounded) {answer : α → Answer}
    (hanswer : ∀ a, (answer a).place? = none) : Moves c ((p >>= fun a => pure (answer a, none)) c) where
  onward := h.map _ c hc
  names := by
    intro a place ha hplace
    cases hr : p c with
    | error e c' => rw [bind_of_error hr] at ha; cases ha
    | ok b c' =>
      rw [bind_of_ok hr] at ha
      cases ha
      rw [hanswer b] at hplace
      cases hplace
  cuts := by
    intro a inner ha hinner
    cases hr : p c with
    | error e c' => rw [bind_of_error hr] at ha; cases ha
    | ok b c' =>
      rw [bind_of_ok hr] at ha
      cases ha
      cases hinner

theorem moves_error (e : Failure) : Moves c (.error e c) where
  onward := ⟨0, Nat.zero_le _, rfl⟩
  names := nofun
  cuts := nofun

theorem moves_span (n : Nat) : Moves c (ask (.span n) c) := by
  rcases Nat.lt_or_ge c.left n with hlt | hle
  · rw [ask, bind_of_error (span_of_lt hlt)]
    exact moves_error _
  · rw [ask, bind_of_ok (span_of_le hle)]
    refine ⟨⟨n, hle, rfl⟩, ?_, ?_⟩
    · intro a place ha hplace
      cases ha
      cases hplace
      exact ⟨rfl, rfl⟩
    · intro a inner ha hinner
      cases ha
      cases hinner

theorem moves_sub (n : Nat) : Moves c (ask (.sub n) c) := by
  have hahead : (c.cut n).ahead = ⟨c.position, n⟩ := congrArg (Span.mk c.position) (left_cut c n)
  rcases Nat.lt_or_ge c.left n with hlt | hle
  · rw [ask, bind_of_error (sub_of_lt hlt)]
    exact moves_error _
  · rw [ask, bind_of_ok (sub_of_le hle)]
    refine ⟨⟨n, hle, rfl⟩, ?_, ?_⟩
    · intro a place ha hplace
      cases ha
      rw [Answer.place?, hahead] at hplace
      cases hplace
      exact ⟨rfl, rfl⟩
    · intro a inner ha hinner
      cases ha
      cases hinner
      exact ⟨n, hle, rfl, congrArg some hahead⟩

/-- **What one call does.** -/
theorem moves_ask (hc : c.Bounded) (k : Call) : Moves c (ask k c) := by
  cases k with
  | span n => exact moves_span n
  | sub n => exact moves_sub n
  | position => exact (advances_of_still (p := get) fun _ => rfl).moves hc fun _ => rfl
  | left => exact (advances_of_still (p := get) fun _ => rfl).moves hc fun _ => rfl
  | isEmpty => exact (advances_of_still (p := get) fun _ => rfl).moves hc fun _ => rfl
  | byte => exact advances_byte.moves hc fun _ => rfl
  | number => exact advances_number.moves hc fun _ => rfl
  | signed => exact (advances_number.map _).moves hc fun _ => rfl
  | word => exact ((advances_bytes 8).map _).moves hc fun _ => rfl
  | length => exact (advances_number.bind fun n => (advances_holds n).map _).moves hc fun _ => rfl
  | count n width => exact (advances_fits n width).moves hc fun _ => rfl
  | bytes n => exact (advances_bytes n).moves hc fun _ => rfl

/-! ### The same bytes elsewhere -/

/-- Two cursors with the same bytes left, the second one in another buffer and as much further on. -/
structure Alike (d : Nat) (c c' : Cursor) : Prop where
  bounded : c.Bounded
  bounded' : c'.Bounded
  position : c'.position = c.position + d
  window : c'.window = c.window

variable {d : Nat} {c' : Cursor}

theorem Alike.left_eq (h : Alike d c c') : c'.left = c.left := by
  rw [← h.bounded.length_window, ← h.bounded'.length_window, h.window]

theorem Alike.onward (h : Alike d c c') (hn : n ≤ c.left) : Alike d (c.onward n) (c'.onward n) where
  bounded := h.bounded.onward hn
  bounded' := h.bounded'.onward (h.left_eq ▸ hn)
  position := by
    show c'.position + n = c.position + n + d
    rw [h.position, Nat.add_right_comm]
  window := by rw [window_onward, window_onward, h.window]

theorem Alike.cut (h : Alike d c c') (hn : n ≤ c.left) : Alike d (c.cut n) (c'.cut n) where
  bounded := h.bounded.cut hn
  bounded' := h.bounded'.cut (h.left_eq ▸ hn)
  position := h.position
  window := by rw [window_cut hn, window_cut (h.left_eq ▸ hn), h.window]

theorem Alike.ahead (h : Alike d c c') : c'.ahead = c.ahead.movedBy d := by
  rw [Cursor.ahead, h.position, h.left_eq]
  rfl

section Locality

variable {α β : Type} {R : α → α → Prop} {R' : β → β → Prop}

/-- Two readers came to the same: to related results, or to one failure. -/
inductive Agree (d : Nat) (R : α → α → Prop) :
    EStateM.Result Failure Cursor α → EStateM.Result Failure Cursor α → Prop where
  | ok {a a' : α} {c c' : Cursor} (related : R a a') (alike : Alike d c c') :
    Agree d R (.ok a c) (.ok a' c')
  | error {c c' : Cursor} (e : Failure) (alike : Alike d c c') : Agree d R (.error e c) (.error e c')

/-- A reader comes to the same on the same bytes elsewhere. -/
def Local (d : Nat) (R : α → α → Prop) (p : Read α) : Prop := ∀ c c', Alike d c c' → Agree d R (p c) (p c')

theorem Local.bind {p : Read α} {more : α → Read β} (h : Local d R p)
    (hmore : ∀ a a', R a a' → ∀ c c', Alike d c c' → Agree d R' (more a c) (more a' c')) :
    Local d R' (p >>= more) := by
  intro c c' hc
  have hagree := h c c' hc
  generalize hr : p c = r, hr' : p c' = r' at hagree
  cases hagree with
  | ok related alike =>
    rw [bind_of_ok hr, bind_of_ok hr']
    exact hmore _ _ related _ _ alike
  | error e alike =>
    rw [bind_of_error hr, bind_of_error hr']
    exact .error e alike

/-- A reader whose result is the same elsewhere, in another form. -/
theorem Local.map {p : Read α} (h : Local d Eq p) (f : α → β) : Local d Eq (p >>= fun a => pure (f a)) :=
  h.bind fun _ _ heq _ _ hc => .ok (congrArg f heq) hc

theorem local_byte : Local d Eq byte := by
  intro c c' hc
  cases hw : c.window with
  | nil =>
    rw [byte_of_nil hc.bounded hw, byte_of_nil hc.bounded' (hc.window.trans hw)]
    exact .error _ hc
  | cons b rest =>
    have hone : 1 ≤ c.left := by
      rw [← hc.bounded.length_window, hw]
      exact Nat.le_add_left 1 rest.length
    rw [byte_of_cons hc.bounded hw, byte_of_cons hc.bounded' (hc.window.trans hw)]
    exact .ok rfl (hc.onward hone)

theorem local_number : Local d Eq number := by
  intro c c' hc
  unfold number
  rw [hc.window]
  cases Leb128.decode c.window with
  | error e => exact .error e hc
  | ok r =>
    refine .ok rfl (hc.onward ?_)
    rw [← hc.bounded.length_window]
    exact Nat.sub_le _ _

theorem local_bytes (n : Nat) : Local d Eq (bytes n) := by
  intro c c' hc
  rcases Nat.lt_or_ge c.left n with hlt | hle
  · rw [bytes_of_lt hlt, bytes_of_lt (hc.left_eq ▸ hlt)]
    exact .error _ hc
  · rw [bytes_of_le hle, bytes_of_le (hc.left_eq ▸ hle), hc.window]
    exact .ok rfl (hc.onward hle)

theorem local_span (n : Nat) : Local d (fun p p' => p' = p.movedBy d) (span n) := by
  intro c c' hc
  rcases Nat.lt_or_ge c.left n with hlt | hle
  · rw [span_of_lt hlt, span_of_lt (hc.left_eq ▸ hlt)]
    exact .error _ hc
  · rw [span_of_le hle, span_of_le (hc.left_eq ▸ hle), hc.position]
    exact .ok rfl (hc.onward hle)

theorem local_sub (n : Nat) : Local d (Alike d) (sub n) := by
  intro c c' hc
  rcases Nat.lt_or_ge c.left n with hlt | hle
  · rw [sub_of_lt hlt, sub_of_lt (hc.left_eq ▸ hlt)]
    exact .error _ hc
  · rw [sub_of_le hle, sub_of_le (hc.left_eq ▸ hle)]
    exact .ok (hc.cut hle) (hc.onward hle)

theorem local_holds (n : Nat) : Local d Eq (holds n) := by
  intro c c' hc
  rcases Nat.lt_or_ge c.left n with hlt | hle
  · rw [holds_of_lt hlt, holds_of_lt (hc.left_eq ▸ hlt), hc.left_eq]
    exact .error _ hc
  · rw [holds_of_le hle, holds_of_le (hc.left_eq ▸ hle)]
    exact .ok rfl hc

theorem local_fits (count width : Nat) : Local d Eq (fits count width) := by
  intro c c' hc
  rcases Nat.lt_or_ge c.left (min (count * width) (2 ^ 64 - 1)) with hlt | hle
  · rw [fits_of_lt hlt, fits_of_lt (hc.left_eq ▸ hlt), hc.left_eq]
    exact .error _ hc
  · rw [fits_of_le hle, fits_of_le (hc.left_eq ▸ hle)]
    exact .ok rfl hc

end Locality

/-- The answer with the places that it names as much further on. -/
def Answer.movedBy (d : Nat) : Answer → Answer
  | position offset => position (offset + d)
  | span place => span (place.movedBy d)
  | window place => window (place.movedBy d)
  | other => other

theorem Answer.place?_movedBy (d : Nat) (a : Answer) :
    (a.movedBy d).place? = a.place?.map (Span.movedBy d) := by
  cases a <;> rfl

/-- What two calls come to: the same answer but for the places, and cursors on the same bytes. -/
structure AlikeAnswers (d : Nat) (a a' : Answer × Option Cursor) : Prop where
  answer : a'.1 = a.1.movedBy d
  window : Option.Rel (Alike d) a.2 a'.2

/-- Calls whose answers name no place. -/
theorem Local.ask {α : Type} {p : Read α} (h : Local d Eq p) {answer : α → Answer}
    (hanswer : ∀ a, (answer a).movedBy d = answer a) :
    Local d (AlikeAnswers d) (p >>= fun a => pure (answer a, none)) := by
  refine h.bind ?_
  rintro a _ rfl c c' hc
  exact .ok ⟨(hanswer a).symm, .none⟩ hc

/-- **A call comes to the same on the same bytes elsewhere**, with the places as much further on. -/
theorem local_ask (d : Nat) (k : Call) : Local d (AlikeAnswers d) (ask k) := by
  cases k with
  | position =>
    intro c c' hc
    exact .ok ⟨congrArg Answer.position hc.position, .none⟩ hc
  | left =>
    intro c c' hc
    exact .ok ⟨congrArg Answer.number hc.left_eq, .none⟩ hc
  | isEmpty =>
    intro c c' hc
    have hempty : c'.isEmpty = c.isEmpty := by
      rw [hc.bounded.isEmpty_eq, hc.bounded'.isEmpty_eq, hc.window]
    exact .ok ⟨congrArg Answer.flag hempty, .none⟩ hc
  | byte => exact local_byte.ask fun _ => rfl
  | number => exact local_number.ask fun _ => rfl
  | signed => exact (local_number.map _).ask fun _ => rfl
  | word => exact ((local_bytes 8).map _).ask fun _ => rfl
  | bytes n => exact (local_bytes n).ask fun _ => rfl
  | count n width => exact (local_fits n width).ask fun _ => rfl
  | length =>
    have hlength : Local d Eq length :=
      local_number.bind fun n n' heq => heq ▸ (local_holds n).map fun _ => n
    exact hlength.ask fun _ => rfl
  | span n =>
    refine (local_span n).bind ?_
    rintro p _ rfl c c' hc
    exact .ok ⟨rfl, .none⟩ hc
  | sub n =>
    refine (local_sub n).bind ?_
    intro inner inner' hinner c c' hc
    exact .ok ⟨congrArg Answer.window hinner.ahead, .some hinner⟩ hc

/-! ### Cursors in use -/

/-- A cursor in use. -/
structure Held where
  cursor : Cursor
  /-- The place of the window that it was made for. -/
  window : Span
  /-- The places that it has named, the latest first. -/
  named : List Span

/-- A cursor that has not been used yet. -/
def hold (c : Cursor) : Held := ⟨c, c.ahead, []⟩

/-- The place that a call has named, if it came to an answer that does. -/
def namedBy : Except Failure (Answer × Option Cursor) → Option Span
  | .ok a => a.1.place?
  | .error _ => none

/-- The cursor in use that a call has made. -/
def cutOff : Except Failure (Answer × Option Cursor) → List Held
  | .ok (_, some inner) => [hold inner]
  | _ => []

def Held.asked (x : Held) (k : Call) : Held where
  cursor := standing (ask k x.cursor)
  window := x.window
  named := (namedBy (outcome (ask k x.cursor))).toList ++ x.named

/-- What is seen of a call on one of the cursors in use. -/
def answer (xs : List Held) (e : Nat × Call) : Option (Except Failure Answer) :=
  xs[e.1]?.map fun x => (outcome (ask e.2 x.cursor)).map Prod.fst

/-- The cursors in use after a call on one of them.  A window that was cut off comes behind the others. -/
def step (xs : List Held) (e : Nat × Call) : List Held :=
  match xs[e.1]? with
  | none => xs
  | some x => xs.set e.1 (x.asked e.2) ++ cutOff (outcome (ask e.2 x.cursor))

/-- The cursors in use after some calls. -/
def after (xs : List Held) (es : List (Nat × Call)) : List Held := es.foldl step xs

/-- What is seen of some calls, one after the other. -/
def answers : List Held → List (Nat × Call) → List (Option (Except Failure Answer))
  | _, [] => []
  | xs, e :: es => answer xs e :: answers (step xs e) es

/-! ### They stay in order -/

/-- A cursor in use is in order: it stands in its window, whose end has not moved, and what it has named
lies in the window before it, each place behind those that were named earlier. -/
structure Held.Sound (buffer : List UInt8) (x : Held) : Prop where
  lies : x.cursor.LiesIn buffer
  begins : x.window.offset ≤ x.cursor.position
  ends : x.cursor.stop = x.window.stop
  inside : ∀ p ∈ x.named, x.window.offset ≤ p.offset ∧ p.stop ≤ x.cursor.position
  apart : x.named.Pairwise fun later earlier => earlier.stop ≤ later.offset

variable {buffer : List UInt8} {x : Held} {xs : List Held}

theorem sound_hold (h : c.LiesIn buffer) : (hold c).Sound buffer where
  lies := h
  begins := Nat.le_refl _
  ends := (Nat.add_sub_of_le h.bounded.position).symm
  inside := nofun
  apart := .nil

theorem Held.Sound.asked (h : x.Sound buffer) (k : Call) : (x.asked k).Sound buffer := by
  obtain ⟨⟨n, hn, hmoved⟩, hnames, -⟩ := moves_ask h.lies.bounded k
  have honward : x.cursor.position ≤ (standing (ask k x.cursor)).position := by
    rw [hmoved]
    exact Nat.le_add_right _ _
  -- what is named lies between the position before the call and the one after it
  have hnew : ∀ p, namedBy (outcome (ask k x.cursor)) = some p →
      p.offset = x.cursor.position ∧ p.stop = (standing (ask k x.cursor)).position := by
    intro p hp
    cases hr : outcome (ask k x.cursor) with
    | error e => rw [hr] at hp; cases hp
    | ok a =>
      rw [hr] at hp
      exact hnames a p hr hp
  refine ⟨?_, Nat.le_trans h.begins honward, ?_, ?_, ?_⟩
  · show (standing (ask k x.cursor)).LiesIn buffer
    rw [hmoved]
    exact h.lies.onward hn
  · show (standing (ask k x.cursor)).stop = x.window.stop
    rw [hmoved]
    exact h.ends
  · intro p hp
    rcases List.mem_append.mp hp with hp | hp
    · obtain ⟨hoffset, hstop⟩ := hnew p (Option.mem_toList.mp hp)
      exact ⟨hoffset ▸ h.begins, Nat.le_of_eq hstop⟩
    · obtain ⟨hle, hstop⟩ := h.inside p hp
      exact ⟨hle, Nat.le_trans hstop honward⟩
  · refine List.pairwise_append.mpr ⟨?_, h.apart, ?_⟩
    · cases namedBy (outcome (ask k x.cursor)) with
      | none => exact .nil
      | some p => exact List.pairwise_singleton _ _
    · intro p hp earlier hearlier
      rw [(hnew p (Option.mem_toList.mp hp)).1]
      exact (h.inside earlier hearlier).2

/-- What a call has cut off: a window of the cursor, which the answer names. -/
theorem of_mem_cutOff (hc : c.Bounded) (k : Call) {y : Held} (hy : y ∈ cutOff (outcome (ask k c))) :
    ∃ n, n ≤ c.left ∧ y = hold (c.cut n) ∧ namedBy (outcome (ask k c)) = some y.window := by
  have hcuts := (moves_ask hc k).cuts
  cases hr : outcome (ask k c) with
  | error e => rw [hr] at hy; cases hy
  | ok a =>
    obtain ⟨a, made⟩ := a
    rw [hr] at hy
    cases made with
    | none => cases hy
    | some inner =>
      obtain ⟨n, hn, rfl, hplace⟩ := hcuts _ inner hr rfl
      obtain rfl := List.mem_singleton.mp hy
      have hahead : (c.cut n).ahead = ⟨c.position, n⟩ := congrArg (Span.mk c.position) (left_cut c n)
      exact ⟨n, hn, rfl, hplace.trans (congrArg some hahead.symm)⟩

/-- A window that is cut off lies in the buffer like the one that it was cut off. -/
theorem Held.Sound.cutOff (h : x.Sound buffer) (k : Call) :
    ∀ y ∈ cutOff (outcome (ask k x.cursor)), y.Sound buffer := by
  intro y hy
  obtain ⟨n, hn, rfl, -⟩ := of_mem_cutOff h.lies.bounded k hy
  exact sound_hold ⟨h.lies.buffer, h.lies.bounded.cut hn⟩

theorem sound_step (h : ∀ x ∈ xs, x.Sound buffer) (e : Nat × Call) : ∀ x ∈ step xs e, x.Sound buffer := by
  unfold step
  cases hx : xs[e.1]? with
  | none => exact h
  | some x =>
    have hsound := h x (List.mem_of_getElem? hx)
    intro y hy
    rcases List.mem_append.mp hy with hy | hy
    · rcases List.mem_or_eq_of_mem_set hy with hy | rfl
      · exact h y hy
      · exact hsound.asked e.2
    · exact hsound.cutOff e.2 y hy

theorem sound_after (h : ∀ x ∈ xs, x.Sound buffer) (es : List (Nat × Call)) :
    ∀ x ∈ after xs es, x.Sound buffer := by
  induction es generalizing xs with
  | nil => exact h
  | cons e es ih => exact ih (sound_step h e)

/-- The window of a cursor in use is the whole buffer, or one of them has named it. -/
def Held.Given (buffer : List UInt8) (xs : List Held) (x : Held) : Prop :=
  x.window = ⟨0, buffer.length⟩ ∨ ∃ y ∈ xs, x.window ∈ y.named

/-- A cursor in use is found again after a call, with the same window and with what it has named. -/
theorem exists_mem_step (hx : x ∈ xs) (e : Nat × Call) :
    ∃ y ∈ step xs e, y.window = x.window ∧ ∀ p ∈ x.named, p ∈ y.named := by
  unfold step
  cases he : xs[e.1]? with
  | none => exact ⟨x, hx, rfl, fun p hp => hp⟩
  | some z =>
    obtain ⟨i, hi⟩ := List.mem_iff_getElem?.mp hx
    obtain ⟨hlt, hget⟩ := List.getElem?_eq_some_iff.mp hi
    by_cases hie : i = e.1
    · subst hie
      obtain rfl : x = z := Option.some.inj (hi.symm.trans he)
      exact ⟨x.asked e.2, List.mem_append_left _ (List.mem_set hlt _), rfl,
        fun p hp => List.mem_append_right _ hp⟩
    · have hkept : (xs.set e.1 (z.asked e.2))[i]? = some x := by
        rw [List.getElem?_set_ne (Ne.symm hie), hi]
      exact ⟨x, List.mem_append_left _ (List.mem_of_getElem? hkept), rfl, fun p hp => hp⟩

theorem given_step (hsound : ∀ x ∈ xs, x.Sound buffer) (h : ∀ x ∈ xs, x.Given buffer xs) (e : Nat × Call) :
    ∀ x ∈ step xs e, x.Given buffer (step xs e) := by
  -- what has a window of before has it from where it had it
  have hkeep : ∀ x ∈ xs, ∀ y : Held, y.window = x.window → y.Given buffer (step xs e) := by
    intro x hx y hy
    rcases h x hx with hwhole | ⟨z, hz, hnamed⟩
    · exact Or.inl (hy.trans hwhole)
    · obtain ⟨z', hz', -, hmore⟩ := exists_mem_step hz e
      exact Or.inr ⟨z', hz', hy ▸ hmore _ hnamed⟩
  intro y hy
  cases he : xs[e.1]? with
  | none =>
    rw [step, he] at hy
    exact hkeep y hy y rfl
  | some x =>
    have hx := List.mem_of_getElem? he
    have hstep : step xs e = xs.set e.1 (x.asked e.2) ++ Cursor.cutOff (outcome (ask e.2 x.cursor)) := by
      rw [step, he]
    rw [hstep] at hy
    rcases List.mem_append.mp hy with hold | hnew
    · rcases List.mem_or_eq_of_mem_set hold with hold | rfl
      · exact hkeep y hold y rfl
      · exact hkeep x hx _ rfl
    · -- a window that was cut off has been named by the cursor that it was cut off
      obtain ⟨-, -, -, hnamed⟩ := of_mem_cutOff (hsound x hx).lies.bounded e.2 hnew
      refine Or.inr ⟨x.asked e.2, ?_, List.mem_append_left _ (Option.mem_toList.mpr hnamed)⟩
      rw [hstep]
      exact List.mem_append_left _ (List.mem_set (List.getElem?_eq_some_iff.mp he).1 _)

theorem given_after (hsound : ∀ x ∈ xs, x.Sound buffer) (h : ∀ x ∈ xs, x.Given buffer xs)
    (es : List (Nat × Call)) : ∀ x ∈ after xs es, x.Given buffer (after xs es) := by
  induction es generalizing xs with
  | nil => exact h
  | cons e es ih => exact ih (sound_step hsound e) (given_step hsound h e)

/-! ### Cursors in use elsewhere -/

/-- Two cursors in use on the same bytes, with all places of the second one as much further on. -/
structure Held.Alike (d : Nat) (x y : Held) : Prop where
  cursor : Cursor.Alike d x.cursor y.cursor
  window : y.window = x.window.movedBy d
  named : y.named = x.named.map (Span.movedBy d)

variable {y : Held} {ys : List Held}

theorem alike_hold (h : Alike d c c') : (hold c).Alike d (hold c') := ⟨h, h.ahead, rfl⟩

/-- Calls on both come to alike answers, cursors and windows. -/
theorem Held.Alike.asked (h : x.Alike d y) (k : Call) :
    (x.asked k).Alike d (y.asked k) ∧
      (outcome (ask k y.cursor)).map Prod.fst =
        ((outcome (ask k x.cursor)).map Prod.fst).map (Answer.movedBy d) ∧
      List.Forall₂ (Held.Alike d) (cutOff (outcome (ask k x.cursor)))
        (cutOff (outcome (ask k y.cursor))) := by
  have hagree := local_ask d k _ _ h.cursor
  simp only [Held.asked, standing, outcome]
  generalize ask k x.cursor = r, ask k y.cursor = r' at hagree ⊢
  cases hagree with
  | error e alike => exact ⟨⟨alike, h.window, h.named⟩, rfl, .nil⟩
  | ok related alike =>
    rename_i a a' c c'
    obtain ⟨hanswer, hwindow⟩ := related
    refine ⟨⟨alike, h.window, ?_⟩, congrArg Except.ok hanswer, ?_⟩
    · have hplace : a'.1.place? = a.1.place?.map (Span.movedBy d) := by
        rw [hanswer, Answer.place?_movedBy]
      simp only [namedBy, hplace, h.named, List.map_append]
      cases a.1.place? <;> rfl
    · obtain ⟨b, made⟩ := a
      obtain ⟨b', made'⟩ := a'
      cases hwindow with
      | none => exact .nil
      | some hinner => exact .cons (alike_hold hinner) .nil

theorem forall₂_getElem? {α β : Type} {R : α → β → Prop} {as : List α} {bs : List β}
    (h : List.Forall₂ R as bs) (i : Nat) : Option.Rel R as[i]? bs[i]? := by
  induction h generalizing i with
  | nil => exact .none
  | cons hfirst _ ih =>
    cases i with
    | zero => exact .some hfirst
    | succ i => exact ih i

theorem alike_step (h : List.Forall₂ (Held.Alike d) xs ys) (e : Nat × Call) :
    answer ys e = (answer xs e).map (Except.map (Answer.movedBy d)) ∧
      List.Forall₂ (Held.Alike d) (step xs e) (step ys e) := by
  have hget := forall₂_getElem? h e.1
  unfold answer step
  generalize xs[e.1]? = x, ys[e.1]? = y at hget ⊢
  cases hget with
  | none => exact ⟨rfl, h⟩
  | some hxy =>
    obtain ⟨hasked, hanswer, hcut⟩ := hxy.asked e.2
    exact ⟨congrArg some hanswer, List.rel_append (forall₂_set h hasked e.1) hcut⟩

/-- **Cursors on the same bytes elsewhere give the same answers to all calls.** -/
theorem answers_alike (h : List.Forall₂ (Held.Alike d) xs ys) (es : List (Nat × Call)) :
    answers ys es = (answers xs es).map (Option.map (Except.map (Answer.movedBy d))) := by
  induction es generalizing xs ys with
  | nil => rfl
  | cons e es ih =>
    obtain ⟨hanswer, hstep⟩ := alike_step h e
    rw [answers, answers, List.map_cons, hanswer, ih hstep]

/-! ### Nothing leaves its window -/

/-- One of the cursors in use on a buffer stays in the window that it was made for, and sees nothing else of
the buffer. -/
structure Confined (buffer : List UInt8) (xs : List Held) (x : Held) : Prop where
  lies : x.cursor.buffer = buffer
  position : x.cursor.position ≤ x.cursor.stop
  stop : x.cursor.stop ≤ buffer.length
  /-- It has not left the window that it was made for, whose end has not moved. -/
  window : x.window.offset ≤ x.cursor.position ∧ x.cursor.stop = x.window.stop
  /-- The window is the whole buffer, or one of the cursors has named it. -/
  given : x.Given buffer xs
  /-- What the cursor has named lies in its window, -/
  inside : ∀ p ∈ x.named, x.window.offset ≤ p.offset ∧ p.stop ≤ x.cursor.position
  /-- no two places have a byte in common, -/
  apart : x.named.Pairwise fun later earlier => earlier.stop ≤ later.offset
  /-- and at a place that it names next are the bytes that it would give. -/
  shows : ∀ n p, outcome (span n x.cursor) = .ok p →
    p.Within buffer ∧ outcome (bytes n x.cursor) = .ok (p.slice buffer)
  /-- Whatever it and the windows cut off of it are asked, the answers are those to a cursor on the bytes
  between its position and the end of its window alone, with places that are as much further on. -/
  determined : ∀ es, answers [hold x.cursor] es =
    (answers [hold (ofBytes (x.cursor.ahead.slice buffer))] es).map
      (Option.map (Except.map (Answer.movedBy x.cursor.position)))
  /-- After a failure it stands where it stood, or behind the number that was no length. -/
  failure : ∀ k e, outcome (ask k x.cursor) = .error e → standing (ask k x.cursor) = x.cursor ∨
    k = .length ∧ ∃ n, number x.cursor = .ok n (standing (ask k x.cursor))

theorem Held.Sound.confined (h : x.Sound buffer) (hgiven : x.Given buffer xs) : Confined buffer xs x := by
  obtain ⟨hbuffer, hbounded⟩ := h.lies
  refine ⟨hbuffer, hbounded.position, hbuffer ▸ hbounded.stop, ⟨h.begins, h.ends⟩, hgiven, h.inside, h.apart,
    ?_, ?_, fun k e => rests_ask⟩
  · intro n p hp
    rcases Nat.lt_or_ge x.cursor.left n with hlt | hle
    · rw [span_of_lt hlt] at hp
      cases hp
    · rw [span_of_le hle] at hp
      cases hp
      obtain ⟨hwithin, hslice⟩ := h.lies.shows hle
      rw [bytes_of_le hle, hslice]
      exact ⟨hwithin, rfl⟩
  · intro es
    have hwindow : x.cursor.window = (ofBytes (x.cursor.ahead.slice buffer)).window := by
      rw [window_ofBytes, Cursor.window, hbuffer]
    have halike : Cursor.Alike x.cursor.position (ofBytes (x.cursor.ahead.slice buffer)) x.cursor :=
      ⟨bounded_ofBytes _, hbounded, (Nat.zero_add _).symm, hwindow⟩
    exact answers_alike (.cons (alike_hold halike) .nil) es

/-- **Nothing leaves its window**, whatever cursors on a buffer are asked. -/
theorem confined_after {buffer : List UInt8} {es : List (Nat × Call)} {x : Held}
    (hx : x ∈ after [hold (ofBytes buffer)] es) :
    Confined buffer (after [hold (ofBytes buffer)] es) x := by
  have hsound : ∀ x ∈ [hold (ofBytes buffer)], x.Sound buffer := by
    intro x hx
    rw [List.mem_singleton.mp hx]
    exact sound_hold (liesIn_ofBytes buffer)
  have hgiven : ∀ x ∈ [hold (ofBytes buffer)], x.Given buffer [hold (ofBytes buffer)] := by
    intro x hx
    rw [List.mem_singleton.mp hx]
    exact Or.inl rfl
  exact (sound_after hsound es x hx).confined (given_after hsound hgiven es x hx)

/-- A byte, a text behind its length, a length that promises too much, and a byte. -/
def crowded : List UInt8 := [9, 2, 104, 105, 200, 1, 7]

/-- The first byte, a window for the next five, all that is in it and more, and the last byte. -/
def crowdedCalls : List (Nat × Call) :=
  [(0, .byte), (0, .sub 5), (1, .length), (1, .span 2), (1, .length), (1, .byte), (0, .byte)]

/-- The window has been read to its end, the refused length included, and the text was found in it. -/
theorem confined_after_crowded :
    ⟨⟨crowded, 6, 6⟩, ⟨1, 5⟩, [⟨2, 2⟩]⟩ ∈ after [hold (ofBytes crowded)] crowdedCalls ∧
      Confined crowded (after [hold (ofBytes crowded)] crowdedCalls)
        ⟨⟨crowded, 6, 6⟩, ⟨1, 5⟩, [⟨2, 2⟩]⟩ := by
  have hafter : after [hold (ofBytes crowded)] crowdedCalls =
      [⟨⟨crowded, 7, 7⟩, ⟨0, 7⟩, [⟨1, 5⟩]⟩, ⟨⟨crowded, 6, 6⟩, ⟨1, 5⟩, [⟨2, 2⟩]⟩] := rfl
  have hx : ⟨⟨crowded, 6, 6⟩, ⟨1, 5⟩, [⟨2, 2⟩]⟩ ∈ after [hold (ofBytes crowded)] crowdedCalls := by
    rw [hafter]
    exact List.mem_cons_of_mem _ List.mem_cons_self
  exact ⟨hx, confined_after hx⟩

end Cursor
end Columnar
