import Columnar.Proofs.Page.Feed

/-!
# Pages after other pages

A feed reads every page into the tables that it has, and a page that is refused
midway leaves parts of itself in them.  None of that can be seen again: the next
load gives a used feed what it gives a new one, and from then on the two cannot be
told apart.

## Main definitions

* `Page.Agree` — two pages say the same.
* `View.sight` — all that can be asked of a view.
* `Feed.answer` — what a call on a feed gives.
* `Feed.Alike` — two feeds have the same rows, with the same values and presence bits.

## Main results

* `Feed.level_answer`, `Session.level_run` — alike feeds give the same answers and
  stay alike.
* `Session.forgets` — a load makes a feed forget all calls before it.
-/

namespace Columnar

/-! ### Pages that say the same -/

namespace Page

/-- Two pages have as many rows, and the same section for every field. -/
structure Agree (p q : Page) : Prop where
  rows : p.rows = q.rows
  sections : ∀ i, p.section? i = q.section? i

variable {p q : Page}

theorem Agree.refl (p : Page) : p.Agree p := ⟨rfl, fun _ => rfl⟩

theorem Agree.isSet_eq (h : p.Agree q) (row i : Nat) : p.isSet row i = q.isSet row i := by
  simp only [isSet, h.sections]

theorem Agree.cell_eq (h : p.Agree q) (s : Schema) (row i : Nat) : p.cell s row i = q.cell s row i := by
  simp only [cell, h.sections]

end Page

/-! ### What can be seen of a view -/

/-- All that can be asked of a view. -/
structure Sight where
  width : Nat
  isSet : Nat → Bool
  get : Nat → Except Failure (Option Value)
  getByName : String → Except Failure (Option Value)
  toRow : Except Failure Row

namespace View

/-- What a view gives when it is asked. -/
def sight (v : View) : Sight := ⟨v.width, v.isSet, v.get, v.getByName, v.toRow⟩

/-- Names and whole rows are looked up through the single cells. -/
theorem sight_congr {v w : View} (hschema : v.schema = w.schema) (hwidth : v.width = w.width)
    (hset : ∀ i, v.isSet i = w.isSet i) (hget : ∀ i, v.get i = w.get i) : v.sight = w.sight := by
  have hcell : v.get = w.get := funext hget
  have hname : v.getByName = w.getByName := by
    funext name
    simp only [getByName, hschema, hcell]
  have hrow : v.toRow = w.toRow := by
    simp only [toRow, hschema, hcell]
  rw [sight, sight, hwidth, funext hset, hcell, hname, hrow]

variable {s : Schema} {layout : List (Kind × Storage)} {body body' : List UInt8} {p q : Page}
  {tables tables' : List PlacedSection}

theorem isSet_of_width_le {v : View} {i : Nat} (h : v.width ≤ i) : v.isSet i = false := by
  simp only [isSet, List.getElem?_eq_none h]

theorem get_of_width_le {v : View} {i : Nat} (h : v.width ≤ i) :
    v.get i = .error (.outOfRange .field i v.width) := by
  simp only [get, List.getElem?_eq_none h]

theorem width_eq (h : Sections.ShowPage layout body tables p) (hl : s.layout = .ok layout) (row : Nat) :
    (⟨s, body, tables, row⟩ : View).width = s.width := h.length.trans (Schema.length_layout hl)

/-- Tables that show pages which say the same give the same presence bits. -/
theorem isSet_eq_isSet (h : Sections.ShowPage layout body tables p)
    (h' : Sections.ShowPage layout body' tables' q) (hpages : p.Agree q) (hl : s.layout = .ok layout)
    (row i : Nat) :
    (⟨s, body, tables, row⟩ : View).isSet i = (⟨s, body', tables', row⟩ : View).isSet i := by
  by_cases hi : i < s.fields.length
  · have hf := List.getElem?_eq_getElem hi
    rw [isSet_eq h hl row hf, isSet_eq h' hl row hf, hpages.isSet_eq]
  · have hle : s.width ≤ i := Nat.not_lt.mp hi
    rw [isSet_of_width_le (width_eq h hl row ▸ hle), isSet_of_width_le (width_eq h' hl row ▸ hle)]

/-- They give the same cells. -/
theorem get_eq_get (h : Sections.ShowPage layout body tables p)
    (h' : Sections.ShowPage layout body' tables' q) (hpages : p.Agree q) (hl : s.layout = .ok layout)
    (row i : Nat) :
    (⟨s, body, tables, row⟩ : View).get i = (⟨s, body', tables', row⟩ : View).get i := by
  by_cases hi : i < s.fields.length
  · have hf := List.getElem?_eq_getElem hi
    rw [get_eq h hl row hf, get_eq h' hl row hf, hpages.cell_eq]
  · have hle : s.width ≤ i := Nat.not_lt.mp hi
    rw [get_of_width_le (width_eq h hl row ▸ hle), get_of_width_le (width_eq h' hl row ▸ hle),
      width_eq h hl row, width_eq h' hl row]

end View

/-! ### Feeds that look alike -/

/-- What a call on a feed gives. -/
inductive FeedAnswer where
  /-- Whether there was a page in the source, and the rest of the source. -/
  | loaded (result : Except Failure Bool) (rest : Source)
  | accepted (result : Except Failure Unit)
  | view (sight : Option Sight)
  /-- Whether there was a row, and the given row after it. -/
  | row (result : Except Failure Bool) (r : Row)

namespace Feed

/-- What a call gives, the feed itself apart. -/
def answer (f : Feed) : FeedCall → FeedAnswer
  | .load src => .loaded (f.load src).1 (f.load src).2.2
  | .loadBody body => .accepted (f.loadBody body).1
  | .nextView => .view (f.nextView.1.map View.sight)
  | .readRow r => .row (f.readRow r).1 (f.readRow r).2.2

/-- Two feeds that show the same rows. -/
structure Alike (f g : Feed) : Prop where
  schema : f.schema = g.schema
  limit : f.limit = g.limit
  pageLength : f.pageLength = g.pageLength
  terminated : f.terminated = g.terminated
  rows : f.rows = g.rows
  /-- They have come to the same row. -/
  next : f.next = g.next
  width : ∀ row < f.rows, (f.view row).width = (g.view row).width
  isSet : ∀ row < f.rows, ∀ i, (f.view row).isSet i = (g.view row).isSet i
  get : ∀ row < f.rows, ∀ i, (f.view row).get i = (g.view row).get i

/-- Alike feeds of a schema.  What is in their tables may differ where no row shows it. -/
structure Level (s : Schema) (f g : Feed) : Prop where
  left : f.Ready s
  right : g.Ready s
  alike : f.Alike g

variable {s : Schema} {f g : Feed}

theorem Alike.sight (h : f.Alike g) {row : Nat} (hrow : row < f.rows) :
    (f.view row).sight = (g.view row).sight :=
  View.sight_congr h.schema (h.width row hrow) (h.isSet row hrow) (h.get row hrow)

/-- Alike feeds have a row left at the same time. -/
theorem Alike.lt_iff (h : f.Alike g) : f.next < f.rows ↔ g.next < g.rows := by rw [h.next, h.rows]

theorem Alike.le_iff (h : f.Alike g) : f.rows ≤ f.next ↔ g.rows ≤ g.next := by rw [h.next, h.rows]

theorem Ready.layout_eq (hf : f.Ready s) (hg : g.Ready s) : f.layout = g.layout :=
  Except.ok.inj (hf.layout.symm.trans hg.layout)

/-- Feeds without rows are alike, whatever their tables hold. -/
theorem level_of_rows_eq_zero (hf : f.Ready s) (hg : g.Ready s) (hlimit : f.limit = g.limit)
    (hlength : f.pageLength = g.pageLength) (hterminated : f.terminated = g.terminated)
    (hrows : f.rows = 0 ∧ g.rows = 0) (hnext : f.next = 0 ∧ g.next = 0) : Level s f g where
  left := hf
  right := hg
  alike := by
    have hnone : ∀ {P : Nat → Prop}, ∀ row < f.rows, P row := by
      intro P row hrow
      omega
    exact ⟨hf.schema.trans hg.schema.symm, hlimit, hlength, hterminated, by omega, by omega,
      hnone, hnone, hnone⟩

/-- Feeds whose pages say the same are alike, whatever else their tables hold. -/
theorem level_of_holds (hf : f.Ready s) (hg : g.Ready s) (hlimit : f.limit = g.limit)
    (hlength : f.pageLength = g.pageLength) (hterminated : f.terminated = g.terminated)
    (hnext : f.next = g.next) {p q : Page} (hpf : f.Holds p) (hqg : g.Holds q) (hpages : p.Agree q) :
    Level s f g where
  left := hf
  right := hg
  alike := by
    have hshowf := hpf.shows
    have hshowg := hqg.shows
    rw [← hf.layout_eq hg] at hshowg
    have hviewf : ∀ row, f.view row = ⟨s, f.body, f.tables, row⟩ := by
      intro row
      rw [view, hf.schema]
    have hviewg : ∀ row, g.view row = ⟨s, g.body, g.tables, row⟩ := by
      intro row
      rw [view, hg.schema]
    refine ⟨hf.schema.trans hg.schema.symm, hlimit, hlength, hterminated,
      hpf.rows.trans (hpages.rows.trans hqg.rows.symm), hnext, ?_, ?_, ?_⟩
    · intro row _
      rw [hviewf, hviewg, View.width_eq hshowf hf.layout, View.width_eq hshowg hf.layout]
    · intro row _ i
      rw [hviewf, hviewg]
      exact View.isSet_eq_isSet hshowf hshowg hpages hf.layout row i
    · intro row _ i
      rw [hviewf, hviewg]
      exact View.get_eq_get hshowf hshowg hpages hf.layout row i

theorem level_cleared (hf : f.Ready s) (hg : g.Ready s) (hlimit : f.limit = g.limit) :
    Level s f.cleared g.cleared :=
  level_of_rows_eq_zero hf.cleared hg.cleared hlimit rfl rfl ⟨rfl, rfl⟩ ⟨rfl, rfl⟩

@[simp] theorem terminated_decode (f : Feed) (body : List UInt8) :
    (f.decode body).2.terminated = false := by
  unfold decode
  split <;> rfl

/-! ### Loading -/

/-- **Reading a body gives two feeds the same page or the same failure**, whatever their tables held. -/
theorem level_decode (hf : f.Ready s) (hg : g.Ready s) (hlimit : f.limit = g.limit)
    (body : List UInt8) :
    (f.decode body).1 = (g.decode body).1 ∧ Level s (f.decode body).2 (g.decode body).2 := by
  have hlayout := hf.layout_eq hg
  have hbody : (f.decode body).2.body = (g.decode body).2.body := by simp
  have hmark : (f.decode body).2.terminated = (g.decode body).2.terminated := by simp
  have hlimit' : (f.decode body).2.limit = (g.decode body).2.limit := by
    rw [limit_decode, limit_decode, hlimit]
  cases hp : Page.decode f.layout f.limit body with
  | error e =>
    obtain ⟨f', hdf, hf', -, hrf, hnf⟩ := decode_of_error hf hp
    rw [hlayout, hlimit] at hp
    obtain ⟨g', hdg, hg', -, hrg, hng⟩ := decode_of_error hg hp
    rw [hdf, hdg] at hbody hmark hlimit' ⊢
    exact ⟨rfl, level_of_rows_eq_zero hf' hg' hlimit' (congrArg List.length hbody) hmark
      ⟨hrf, hrg⟩ ⟨hnf, hng⟩⟩
  | ok p =>
    obtain ⟨f', hdf, hf', -, -, hpf, hnf⟩ := decode_of_ok hf hp
    rw [hlayout, hlimit] at hp
    obtain ⟨g', hdg, hg', -, -, hpg, hng⟩ := decode_of_ok hg hp
    rw [hdf, hdg] at hbody hmark hlimit' ⊢
    exact ⟨rfl, level_of_holds hf' hg' hlimit' (congrArg List.length hbody) hmark (hnf.trans hng.symm)
      hpf hpg (.refl p)⟩

theorem level_loadBody (hf : f.Ready s) (hg : g.Ready s) (hlimit : f.limit = g.limit)
    (body : List UInt8) :
    (f.loadBody body).1 = (g.loadBody body).1 ∧ Level s (f.loadBody body).2 (g.loadBody body).2 := by
  unfold loadBody
  rw [hlimit]
  split
  · exact ⟨rfl, level_cleared hf hg hlimit⟩
  · split
    · exact ⟨rfl, level_cleared hf hg hlimit⟩
    · exact level_decode hf hg hlimit body

/-- What is taken off a source does not depend on the feed, but for its limit. -/
theorem level_load (hf : f.Ready s) (hg : g.Ready s) (hlimit : f.limit = g.limit) (src : Source) :
    (f.load src).1 = (g.load src).1 ∧ (f.load src).2.2 = (g.load src).2.2 ∧
      Level s (f.load src).2.1 (g.load src).2.1 := by
  have hclear := level_cleared hf hg hlimit
  unfold load
  rw [hlimit]
  rcases src.number with ⟨e | n, rest⟩
  · exact ⟨rfl, rfl, hclear⟩
  rcases n with _ | _ | n
  · exact ⟨rfl, rfl, hclear⟩
  · -- the mark at the end of a stream
    refine ⟨rfl, rfl, level_of_rows_eq_zero ?_ ?_ hlimit rfl rfl ⟨rfl, rfl⟩ ⟨rfl, rfl⟩⟩
    · exact ⟨hf.schema, hf.layout, hf.tables⟩
    · exact ⟨hg.schema, hg.layout, hg.tables⟩
  simp only
  split
  · exact ⟨rfl, rfl, hclear⟩
  split
  · exact ⟨rfl, rfl, hclear⟩
  rcases rest.read (n + 1) with ⟨d, rest⟩
  cases d with
  | ended => exact ⟨rfl, rfl, hclear⟩
  | faulty fault => exact ⟨rfl, rfl, hclear⟩
  | complete body =>
    obtain ⟨hresult, hlevel⟩ := level_decode hf hg hlimit body
    exact ⟨congrArg (Except.map fun _ => true) hresult, rfl, hlevel⟩

/-! ### Handing out -/

theorem Level.advanced (h : Level s f g) : Level s f.advanced g.advanced where
  left := h.left.advanced
  right := h.right.advanced
  alike := { h.alike with next := congrArg (· + 1) h.alike.next }

/-- A row is filled from alike feeds in the same way, and counted in both. -/
theorem level_readRow (h : Level s f g) (r : Row) :
    (f.readRow r).1 = (g.readRow r).1 ∧ (f.readRow r).2.2 = (g.readRow r).2.2 := by
  by_cases hlt : f.next < f.rows
  · have hlt' := h.alike.lt_iff.mp hlt
    have hcell : (f.view f.next).get = (g.view g.next).get := by
      rw [← h.alike.next]
      exact funext (h.alike.get f.next hlt)
    simp only [readRow, nextView_of_lt hlt, nextView_of_lt hlt', hcell, and_self]
  · have hle := Nat.not_lt.mp hlt
    have hle' := h.alike.le_iff.mp hle
    rw [readRow_of_le hle, readRow_of_le hle']
    exact ⟨rfl, rfl⟩

theorem level_nextView (h : Level s f g) :
    f.nextView.1.map View.sight = g.nextView.1.map View.sight := by
  by_cases hlt : f.next < f.rows
  · have hlt' := h.alike.lt_iff.mp hlt
    rw [nextView_of_lt hlt, nextView_of_lt hlt', ← h.alike.next]
    exact congrArg some (h.alike.sight hlt)
  · have hle := Nat.not_lt.mp hlt
    have hle' := h.alike.le_iff.mp hle
    rw [nextView_of_le hle, nextView_of_le hle']

/-- **Alike feeds give the same answers.** -/
theorem level_answer (h : Level s f g) (call : FeedCall) : f.answer call = g.answer call := by
  cases call with
  | load src =>
    obtain ⟨hresult, hrest, -⟩ := level_load h.left h.right h.alike.limit src
    rw [answer, answer, hresult, hrest]
  | loadBody body =>
    obtain ⟨hresult, -⟩ := level_loadBody h.left h.right h.alike.limit body
    rw [answer, answer, hresult]
  | nextView => exact congrArg FeedAnswer.view (level_nextView h)
  | readRow r =>
    obtain ⟨hresult, hrow⟩ := level_readRow h r
    rw [answer, answer, hresult, hrow]

end Feed

/-! ### Any calls -/

namespace Session

variable {s : Schema} {u w : Session}

/-- A load gives two feeds of a schema and a limit the same answer and levels them. -/
theorem level_loading (hu : u.feed.Ready s) (hw : w.feed.Ready s) (hlimit : u.feed.limit = w.feed.limit)
    {load : FeedCall} (hload : takes load = false) :
    u.feed.answer load = w.feed.answer load ∧ Feed.Level s (u.step load).feed (w.step load).feed := by
  cases load with
  | load src =>
    obtain ⟨hresult, hrest, hlevel⟩ := Feed.level_load hu hw hlimit src
    exact ⟨by rw [Feed.answer, Feed.answer, hresult, hrest], hlevel⟩
  | loadBody body =>
    obtain ⟨hresult, hlevel⟩ := Feed.level_loadBody hu hw hlimit body
    exact ⟨by rw [Feed.answer, Feed.answer, hresult], hlevel⟩
  | nextView => cases hload
  | readRow r => cases hload

/-- Every call leaves alike feeds alike. -/
theorem level_step (h : Feed.Level s u.feed w.feed) (call : FeedCall) :
    Feed.Level s (u.step call).feed (w.step call).feed := by
  cases hcall : takes call with
  | false => exact (level_loading h.left h.right h.alike.limit hcall).2
  | true =>
    by_cases hlt : u.feed.next < u.feed.rows
    · have hlt' := h.alike.lt_iff.mp hlt
      rw [step_of_takes hcall hlt, step_of_takes hcall hlt']
      exact h.advanced
    · have hle := Nat.not_lt.mp hlt
      have hle' := h.alike.le_iff.mp hle
      rw [step_of_takes_none hcall hle, step_of_takes_none hcall hle']
      exact h

theorem level_run (h : Feed.Level s u.feed w.feed) (calls : List FeedCall) :
    Feed.Level s (u.run calls).feed (w.run calls).feed := by
  induction calls generalizing u w with
  | nil => exact h
  | cons call calls ih => exact ih (level_step h call)

theorem run_append_cons (u : Session) (before : List FeedCall) (call : FeedCall) (after : List FeedCall) :
    u.run (before ++ call :: after) = ((u.run before).step call).run after := by
  simp only [run, List.foldl_append, List.foldl_cons]

/-- Calls after which two feeds are alike can be followed by any others. -/
theorem alike_run {before before' : List FeedCall} {call call' : FeedCall}
    (h : Feed.Level s ((u.run before).step call).feed ((w.run before').step call').feed)
    (after : List FeedCall) :
    (u.run (before ++ call :: after)).feed.Alike (w.run (before' ++ call' :: after)).feed ∧
      ∀ next, (u.run (before ++ call :: after)).feed.answer next =
        (w.run (before' ++ call' :: after)).feed.answer next := by
  rw [run_append_cons, run_append_cons]
  have hafter := level_run h after
  exact ⟨hafter.alike, Feed.level_answer hafter⟩

/-- **A load makes a feed forget all calls before it.**  Whatever was loaded, refused or handed out, the
load gives what it gives a new feed; after it, and after any further calls, the two feeds have the same
rows with the same values and presence bits and answer every call alike. -/
theorem forgets (hs : s.Finalized) (limit : Nat) :
    ∃ fresh, Feed.make s limit = .ok fresh ∧
      ∀ (before : List FeedCall) (load : FeedCall), takes load = false →
        ((start fresh).run before).feed.answer load = fresh.answer load ∧
        ∀ after : List FeedCall,
          let used := ((start fresh).run (before ++ load :: after)).feed
          let new := ((start fresh).run (load :: after)).feed
          used.Alike new ∧ ∀ call, used.answer call = new.answer call := by
  obtain ⟨fresh, hfresh⟩ := Feed.exists_make hs limit
  refine ⟨fresh, hfresh, ?_⟩
  intro before load hload
  obtain ⟨hused, hlimit⟩ := ready_run hfresh before
  obtain ⟨hnew, hlimit', -⟩ := Feed.ready_make hfresh
  obtain ⟨hanswer, hlevel⟩ :=
    level_loading (w := start fresh) hused hnew (hlimit.trans hlimit'.symm) hload
  exact ⟨hanswer, @alike_run s _ (start fresh) before [] load load hlevel⟩

/-- Calls that leave their traces: a page of which a row is taken, one whose presence bits are read
before it is refused, one that is too long, one that is cut off, and the end of a stream. -/
def wearing : List FeedCall :=
  [.loadBody [2, 1, 0, 0, 4, 1, 5, 3, 4], .nextView, .loadBody [9, 1, 0, 0, 4, 1, 5, 3, 4],
    .load ⟨[70], none⟩, .load ⟨[5, 1], none⟩, .load ⟨[0], none⟩]

theorem forgets_wearing :
    Feed.make Schema.counter 64 = .ok counting ∧
      ((start counting).run wearing).feed.tables ≠ counting.tables ∧
      ((start counting).run [.loadBody [2, 1, 0, 0, 4, 1, 5, 3, 4]]).feed.rows = 2 ∧
      ((start counting).run (wearing ++ [.loadBody [2, 1, 0, 0, 4, 1, 5, 3, 4]])).feed.Alike
        ((start counting).run [.loadBody [2, 1, 0, 0, 4, 1, 5, 3, 4]]).feed := by
  obtain ⟨fresh, hfresh, hforgets⟩ := forgets Schema.finalized_counter 64
  have hfeed : Feed.make Schema.counter 64 = .ok counting := rfl
  obtain rfl : counting = fresh := Except.ok.inj (hfeed.symm.trans hfresh)
  have hload := hforgets wearing (.loadBody [2, 1, 0, 0, 4, 1, 5, 3, 4]) rfl
  exact ⟨hfeed, by decide +kernel, by decide +kernel, (hload.2 []).1⟩

end Session
end Columnar
