import Mathlib.Data.List.Forall2
import Columnar.Bytes.Cursor

/-!
# Cursors follow readers

A page is read twice in this development: as bytes, which tells what the page
says, and through cursors, which note places in the buffer.  The second `Follows`
the first: it fails when the first fails, with the same failure, and else it stands
in front of the same rest with a result that is related to the first one's.  Where
the result goes into a table, and a failure leaves part of it there, it `Fills` the
table after the first.

Each reader of a cursor follows the reader of bytes of its name.  A cursor whose
window is in the buffer stays there, and what it tests by its position and its end
is what the other tests by the number of bytes that are left.

## Main definitions

* `Cursor.LiesIn` — a cursor is one on a buffer.
* `Cursor.Follows` — a reader of places does what a reader of bytes does.
* `Cursor.Fills` — a reader into a table does what a reader of bytes does.

## Main results

* `Cursor.follows_byte`, `Cursor.follows_number`, `Cursor.follows_front` — what moves
  a cursor follows what takes bytes off.
* `Cursor.Follows.bind` — following is composed the way readers are.
* `Cursor.fills_gather` — members are gathered as they are read one by one.
-/

namespace Columnar

/-- A chain of steps that succeeds has succeeded at the first one. -/
theorem exists_of_bind {ε α β : Type} {x : Except ε α} {f : α → Except ε β} {b : β}
    (h : (x >>= f) = .ok b) : ∃ a, x = .ok a ∧ f a = .ok b := by
  cases x with
  | error e => cases h
  | ok a => exact ⟨a, rfl, h⟩

/-- Related lists with related members at one place replaced. -/
theorem forall₂_set {α β : Type} {R : α → β → Prop} {as : List α} {bs : List β}
    (h : List.Forall₂ R as bs) {a : α} {b : β} (hab : R a b) (i : Nat) :
    List.Forall₂ R (as.set i a) (bs.set i b) := by
  induction h generalizing i with
  | nil => exact .nil
  | cons hfirst hrest ih =>
    cases i with
    | zero => exact .cons hab hrest
    | succ i => exact .cons hfirst (ih i)

namespace Take

variable {α β : Type}

/-- A number shows where it ends: what comes after it can be any bytes. -/
theorem exists_front_of_scanWithin {room : Nat} {bs rest : List UInt8} {n : Nat}
    (h : Leb128.scanWithin room bs = .number n rest) :
    ∃ front, bs = front ++ rest ∧
      ∀ other, Leb128.scanWithin room (front ++ other) = .number n other := by
  induction room generalizing bs n with
  | zero => cases h
  | succ room ih =>
    cases bs with
    | nil => cases h
    | cons b bs =>
      rcases Leb128.scanWithin_cons_eq_number_iff.mp h with ⟨hlast, hsmall, hn, rfl⟩ | ⟨hmore, m, hm, hn⟩
      · exact ⟨[b], rfl, fun other =>
          Leb128.scanWithin_cons_eq_number_iff.mpr (Or.inl ⟨hlast, hsmall, hn, rfl⟩)⟩
      · obtain ⟨front, rfl, hfront⟩ := ih hm
        exact ⟨b :: front, rfl, fun other =>
          Leb128.scanWithin_cons_eq_number_iff.mpr (Or.inr ⟨hmore, m, hfront other, hn⟩)⟩

/-- What a number leaves is an end of what it was read from. -/
theorem suffix_of_number {bs rest : List UInt8} {n : Nat} (h : number bs = .ok (n, rest)) :
    rest <:+ bs := by
  obtain ⟨front, rfl, -⟩ := exists_front_of_scanWithin (Leb128.decode_eq_ok_iff.mp h)
  exact List.suffix_append front rest

/-- What each thing read satisfies, all of them do. -/
theorem forall_of_times {one : List UInt8 → Except Failure (α × List UInt8)} {Q : α → Prop}
    (h : ∀ bs a rest, one bs = .ok (a, rest) → Q a) {n : Nat} {bs : List UInt8} {as : List α}
    {rest : List UInt8} (hok : times one n bs = .ok (as, rest)) : as.length = n ∧ ∀ a ∈ as, Q a := by
  induction n generalizing bs as rest with
  | zero =>
    cases hok
    exact ⟨rfl, fun a ha => absurd ha List.not_mem_nil⟩
  | succ n ih =>
    obtain ⟨⟨a, mid⟩, hone, hok⟩ := exists_of_bind hok
    obtain ⟨⟨as', rest'⟩, hmore, hok⟩ := exists_of_bind hok
    cases hok
    obtain ⟨hlen, hall⟩ := ih hmore
    refine ⟨by rw [List.length_cons, hlen], ?_⟩
    exact List.forall_mem_cons.mpr ⟨h _ _ _ hone, hall⟩

end Take

namespace Cursor

variable {α β γ δ : Type} {buffer : List UInt8}

/-- A cursor is one on a buffer. -/
structure LiesIn (c : Cursor) (buffer : List UInt8) : Prop where
  buffer : c.buffer = buffer
  bounded : c.Bounded

theorem liesIn_ofBytes (bs : List UInt8) : (ofBytes bs).LiesIn bs := ⟨rfl, bounded_ofBytes bs⟩

theorem LiesIn.onward {c : Cursor} (h : c.LiesIn buffer) {n : Nat} (hn : n ≤ c.left) :
    (c.onward n).LiesIn buffer := ⟨h.buffer, h.bounded.onward hn⟩

/-- A reader of places does on a piece of the buffer what a reader of bytes does on the bytes there, and
moves on in its window. -/
def Follows (buffer : List UInt8) (place : Read α) (value : List UInt8 → Except Failure (β × List UInt8))
    (R : α → β → Prop) : Prop :=
  ∀ c : Cursor, c.LiesIn buffer → match value c.window with
    | .error e => ∃ c', place c = .error e c'
    | .ok (b, rest) => ∃ a c', place c = .ok a c' ∧ c'.LiesIn buffer ∧ c'.window = rest ∧
        c'.stop = c.stop ∧ R a b

theorem follows_pure {R : α → β → Prop} {a : α} {b : β} (h : R a b) :
    Follows buffer (pure a) (fun bs => .ok (b, bs)) R :=
  fun c hc => ⟨a, c, rfl, hc, rfl, rfl, h⟩

theorem follows_error (e : Failure) (R : α → β → Prop) :
    Follows buffer (throw e) (fun _ => .error e) R := fun c _ => ⟨c, rfl⟩

theorem Follows.bind {p : Read α} {v : List UInt8 → Except Failure (β × List UInt8)} {R : α → β → Prop}
    {more : α → Read γ} {more' : β × List UInt8 → Except Failure (δ × List UInt8)} {R' : γ → δ → Prop}
    (h : Follows buffer p v R)
    (hmore : ∀ a b, R a b → Follows buffer (more a) (fun bs => more' (b, bs)) R') :
    Follows buffer (p >>= more) (fun bs => v bs >>= more') R' := by
  intro c hc
  have hfollow := h c hc
  cases hv : v c.window with
  | error e =>
    -- both fail in the first step, with one failure
    rw [hv] at hfollow
    obtain ⟨c', hp⟩ := hfollow
    simp only [hv]
    exact ⟨c', bind_of_error hp⟩
  | ok r =>
    obtain ⟨b, rest⟩ := r
    rw [hv] at hfollow
    obtain ⟨a, c', hp, hc', rfl, hstop, hab⟩ := hfollow
    simp only [hv, bind_of_ok hp, ← hstop]
    exact hmore a b hab c' hc'

theorem follows_byte : Follows buffer byte Take.byte Eq := by
  intro c hc
  cases hw : c.window with
  | nil => exact ⟨c, byte_of_nil hc.bounded hw⟩
  | cons b rest =>
    have hone : 1 ≤ c.left := by
      rw [← hc.bounded.length_window, hw]
      exact Nat.le_add_left 1 rest.length
    refine ⟨b, c.onward 1, byte_of_cons hc.bounded hw, hc.onward hone, ?_, rfl, rfl⟩
    rw [window_onward, hw]
    rfl

theorem follows_number : Follows buffer number Take.number Eq := by
  intro c hc
  unfold number Take.number
  cases hr : Leb128.decode c.window with
  | error e => exact ⟨c, rfl⟩
  | ok r =>
    obtain ⟨n, rest⟩ := r
    obtain ⟨front, hfront⟩ := Take.suffix_of_number hr
    have hlength : c.window.length - rest.length = front.length := by
      rw [← hfront, List.length_append, Nat.add_sub_cancel_right]
    have hle : front.length ≤ c.left := by
      rw [← hc.bounded.length_window, ← hfront, List.length_append]
      exact Nat.le_add_right _ _
    simp only [hlength]
    refine ⟨n, c.onward front.length, rfl, hc.onward hle, ?_, rfl, rfl⟩
    rw [window_onward, ← hfront, List.drop_left]

theorem follows_signed : Follows buffer signed Take.signed Eq :=
  follows_number.bind fun _ _ h => h ▸ follows_pure rfl

/-- A place and the bytes that are there. -/
structure Shows (buffer : List UInt8) (p : Span) (bs : List UInt8) : Prop where
  within : p.Within buffer
  slice : p.slice buffer = bs

/-- The next bytes are those at the place where they start. -/
theorem LiesIn.shows {c : Cursor} (h : c.LiesIn buffer) {n : Nat} (hn : n ≤ c.left) :
    Shows buffer ⟨c.position, n⟩ (c.window.take n) where
  within := h.buffer ▸ (h.bounded.cut hn).stop
  slice := h.buffer ▸ slice_front hn

/-- Readers of the next `n` bytes read what is there, or not enough is left. -/
theorem follows_front {p : Read α} {n : Nat} {R : α → List UInt8 → Prop}
    (hlt : ∀ c : Cursor, c.left < n → p c = .error (.damaged .pageEnds) c)
    (hle : ∀ c : Cursor, c.LiesIn buffer → n ≤ c.left →
      ∃ a, p c = .ok a (c.onward n) ∧ R a (c.window.take n)) :
    Follows buffer p (Take.bytes n) R := by
  intro c hc
  have hlength := hc.bounded.length_window
  by_cases hn : n ≤ c.left
  · obtain ⟨a, hp, hR⟩ := hle c hc hn
    simp only [Take.bytes, hlength, if_pos hn]
    exact ⟨a, c.onward n, hp, hc.onward hn, window_onward c n, rfl, hR⟩
  · simp only [Take.bytes, hlength, if_neg hn]
    exact ⟨c, hlt c (Nat.not_le.mp hn)⟩

theorem follows_span (n : Nat) : Follows buffer (span n) (Take.bytes n) (Shows buffer) :=
  follows_front (fun _ => span_of_lt) fun _ hc hn => ⟨_, span_of_le hn, hc.shows hn⟩

theorem follows_bytes (n : Nat) : Follows buffer (bytes n) (Take.bytes n) Eq :=
  follows_front (fun _ => bytes_of_lt) fun _ _ hn => ⟨_, bytes_of_le hn, rfl⟩

/-- A window of its own is one on the same buffer. -/
theorem follows_sub (n : Nat) :
    Follows buffer (sub n) (Take.bytes n) fun inner bs => inner.LiesIn buffer ∧ inner.window = bs :=
  follows_front (fun _ => sub_of_lt) fun _ hc hn =>
    ⟨_, sub_of_le hn, ⟨hc.buffer, hc.bounded.cut hn⟩, window_cut hn⟩

/-- A reader of the bytes at a place of the buffer, which are the same wherever the cursor stands. -/
theorem Follows.behindBytesAt {place : Span} {more : List UInt8 → Read α}
    {v : List UInt8 → Except Failure (β × List UInt8)} {R : α → β → Prop}
    (h : Follows buffer (more (place.slice buffer)) v R) : Follows buffer (bytesAt place >>= more) v R := by
  rintro c ⟨rfl, hbounded⟩
  exact h c ⟨rfl, hbounded⟩

theorem follows_word : Follows buffer word Take.word Eq :=
  (follows_bytes 8).bind fun _ _ h => h ▸ follows_pure rfl

theorem follows_length : Follows buffer length Take.length Eq := by
  apply follows_number.bind
  rintro n _ rfl c hc
  have hlength := hc.bounded.length_window
  by_cases hn : n ≤ c.left
  · simp only [hlength, if_pos hn, bind_of_ok (holds_of_le hn)]
    exact ⟨n, c, rfl, hc, rfl, rfl, rfl⟩
  · simp only [hlength, if_neg hn, bind_of_error (holds_of_lt (Nat.not_le.mp hn))]
    exact ⟨c, rfl⟩

/-- A test of what is left that takes nothing off. -/
theorem Follows.behindFits {p : Read α} {v : List UInt8 → Except Failure (β × List UInt8)}
    {R : α → β → Prop} (h : Follows buffer p v R) (count width : Nat) :
    Follows buffer (fits count width >>= fun _ => p)
      (fun bs => Take.fits count width bs >>= fun _ => v bs) R := by
  intro c hc
  have hlength := hc.bounded.length_window
  by_cases hn : min (count * width) (2 ^ 64 - 1) ≤ c.left
  · simp only [Take.fits, hlength, if_pos hn, bind_of_ok (fits_of_le hn)]
    exact h c hc
  · simp only [Take.fits, hlength, if_neg hn, bind_of_error (fits_of_lt (Nat.not_le.mp hn))]
    exact ⟨c, rfl⟩

theorem follows_count (width : Nat) : Follows buffer (count width) (Take.count width) Eq :=
  follows_number.bind fun n _ h => h ▸ (follows_pure rfl).behindFits n width

theorem follows_prefixed : Follows buffer prefixed Take.prefixed (Shows buffer) :=
  follows_length.bind fun n _ h => h ▸ follows_span n

/-! ### Readers into tables -/

/-- A reader into a table does on a piece of the buffer what a reader of bytes does on the bytes there.
What the table holds after a failure is left open. -/
def Fills (buffer : List UInt8) (fill : Cursor → Except Failure Cursor × α)
    (value : List UInt8 → Except Failure (β × List UInt8)) (R : α → β → Prop) : Prop :=
  ∀ c : Cursor, c.LiesIn buffer → match value c.window with
    | .error e => (fill c).1 = .error e
    | .ok (b, rest) => ∃ c' a, fill c = (.ok c', a) ∧ c'.LiesIn buffer ∧ c'.window = rest ∧
        c'.stop = c.stop ∧ R a b

/-- The table and the result in another form. -/
theorem Fills.map {fill : Cursor → Except Failure Cursor × α}
    {v : List UInt8 → Except Failure (β × List UInt8)} {R : α → β → Prop} {R' : γ → δ → Prop}
    (h : Fills buffer fill v R) {f : α → γ} {g : β → δ} (hR : ∀ a b, R a b → R' (f a) (g b)) :
    Fills buffer (fun c => (fill c).map id f) (fun bs => v bs >>= fun r => .ok (g r.1, r.2)) R' := by
  intro c hc
  have hfill := h c hc
  cases hv : v c.window with
  | error e =>
    rw [hv] at hfill
    simp only [hv]
    exact hfill
  | ok r =>
    obtain ⟨b, rest⟩ := r
    rw [hv] at hfill
    obtain ⟨c', a, hc', hlies, hrest, hstop, hab⟩ := hfill
    simp only [hv]
    exact ⟨c', f a, by rw [hc']; rfl, hlies, hrest, hstop, hR a b hab⟩

/-- The same behind something else that is read first. -/
theorem Follows.fills {p : Read α}
    {v : List UInt8 → Except Failure (β × List UInt8)} {R : α → β → Prop} {start : γ}
    {fill : α → Cursor → Except Failure Cursor × γ}
    {more : β × List UInt8 → Except Failure (δ × List UInt8)} {R' : γ → δ → Prop}
    (h : Follows buffer p v R)
    (hmore : ∀ a b, R a b → Fills buffer (fill a) (fun bs => more (b, bs)) R') :
    Fills buffer (fun c => match p c with
      | .error e _ => (.error e, start)
      | .ok a c => fill a c) (fun bs => v bs >>= more) R' := by
  intro c hc
  have hfollow := h c hc
  cases hv : v c.window with
  | error e =>
    rw [hv] at hfollow
    obtain ⟨c', hp⟩ := hfollow
    simp only [hv, hp]
    rfl
  | ok r =>
    obtain ⟨b, rest⟩ := r
    rw [hv] at hfollow
    obtain ⟨a, c', hp, hc', rfl, hstop, hab⟩ := hfollow
    simp only [hv, hp, ← hstop]
    exact hmore a b hab c' hc'

/-- One table and then another; `k` is what there is if the first one breaks off. -/
theorem Fills.andThen {fill : Cursor → Except Failure Cursor × α}
    {v : List UInt8 → Except Failure (β × List UInt8)} {R : α → β → Prop} {k : α → γ}
    {next : α → Cursor → Except Failure Cursor × γ}
    {more : β → List UInt8 → Except Failure (δ × List UInt8)} {R' : γ → δ → Prop}
    (h : Fills buffer fill v R)
    (hmore : ∀ a b, R a b → Fills buffer (next a) (more b) R') :
    Fills buffer (fun c => match fill c with
      | (.error e, a) => (.error e, k a)
      | (.ok c, a) => next a c) (fun bs => v bs >>= fun r => more r.1 r.2) R' := by
  intro c hc
  have hfill := h c hc
  cases hv : v c.window with
  | error e =>
    rw [hv] at hfill
    simp only [hv]
    generalize fill c = r at hfill
    obtain ⟨r, a⟩ := r
    have hfill : r = .error e := hfill
    rw [hfill]
    rfl
  | ok r =>
    obtain ⟨b, rest⟩ := r
    rw [hv] at hfill
    obtain ⟨c', a, hfill, hc', rfl, hstop, hab⟩ := hfill
    simp only [hv, hfill, ← hstop]
    exact hmore a b hab c' hc'

/-- What the reader of bytes ensures of its results holds of the related tables. -/
theorem Fills.ensure {fill : Cursor → Except Failure Cursor × α}
    {v : List UInt8 → Except Failure (β × List UInt8)} {R : α → β → Prop} {Q : β → Prop}
    (h : Fills buffer fill v R) (hq : ∀ bs b rest, v bs = .ok (b, rest) → Q b) :
    Fills buffer fill v fun a b => R a b ∧ Q b := by
  intro c hc
  have hfill := h c hc
  cases hv : v c.window with
  | error e => rwa [hv] at hfill
  | ok r =>
    obtain ⟨b, rest⟩ := r
    rw [hv] at hfill
    obtain ⟨c', a, hfill, hc', hrest, hstop, hab⟩ := hfill
    exact ⟨c', a, hfill, hc', hrest, hstop, hab, hq _ _ _ hv⟩

/-- Members that are gathered behind a head. -/
theorem fills_gatherBehind {η : Type} {head : Read η} {v : List UInt8 → Except Failure (η × List UInt8)}
    (hhead : Follows buffer head v Eq) {size : η → Nat} {one : η → Array α → Read α} {got : Array α}
    {more : η × List UInt8 → Except Failure (β × List UInt8)} {R : Array α → β → Prop}
    (h : ∀ x, Fills buffer (gather (one x) (size x) got) (fun bs => more (x, bs)) R) :
    Fills buffer (gatherBehind head size one got) (fun bs => v bs >>= more) R :=
  hhead.fills fun x _ hx => hx ▸ h x

/-- **Members are gathered as they are read one by one**, behind those that are there. -/
theorem fills_gather {one : Array α → Read α}
    {v : List UInt8 → Except Failure (β × List UInt8)} {R : α → β → Prop}
    (h : ∀ got, Follows buffer (one got) v R) (n : Nat) (got : Array α) :
    Fills buffer (gather one n got) (Take.times v n) fun all bs =>
      ∃ as : List α, all = got ++ as ∧ List.Forall₂ R as bs := by
  induction n generalizing got with
  | zero => exact fun c hc => ⟨c, got, rfl, hc, rfl, rfl, [], by simp, .nil⟩
  | succ n ih =>
    refine (h got).fills fun a b hab => ?_
    refine (ih (got.push a)).map (f := id) (g := fun bs => b :: bs) ?_
    rintro all bs ⟨as, rfl, has⟩
    exact ⟨a :: as, by simp, .cons hab has⟩

/-- Members that do not depend on those before them, behind their number. -/
theorem fills_counted {one : Read α} {v : List UInt8 → Except Failure (β × List UInt8)}
    {R : α → β → Prop} (h : Follows buffer one v R) (width : Nat) :
    Fills buffer (gatherBehind (count width) id (fun _ _ => one) #[])
      (fun bs => Take.count width bs >>= fun r => Take.times v r.1 r.2) fun all bs =>
        ∃ as : List α, all = as.toArray ∧ List.Forall₂ R as bs := by
  refine fills_gatherBehind (follows_count width) fun n => ?_
  simpa using fills_gather (fun _ => h) n #[]

/-- Members that are the same in the table. -/
theorem Fills.eq {fill : Cursor → Except Failure Cursor × Array α}
    {v : List UInt8 → Except Failure (List α × List UInt8)}
    (h : Fills buffer fill v fun all bs => ∃ as : List α, all = as.toArray ∧ List.Forall₂ Eq as bs) :
    Fills buffer fill v fun all bs => all = bs.toArray := by
  intro c hc
  have hfill := h c hc
  cases hv : v c.window with
  | error e => rwa [hv] at hfill
  | ok r =>
    obtain ⟨bs, rest⟩ := r
    rw [hv] at hfill
    obtain ⟨c', all, hc', hlies, hrest, hstop, as, rfl, has⟩ := hfill
    rw [List.forall₂_eq_eq_eq] at has
    exact ⟨c', _, hc', hlies, hrest, hstop, congrArg _ has⟩

end Cursor
end Columnar
