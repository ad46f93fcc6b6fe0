import Columnar.Proofs.Page.Feed

/-!
# The rows of a page, one after the other

A feed that has a page hands out its rows in order, each of them once, and then no
more.

## Main definitions

* `Outcome` — rows, and how they ended.
* `Feed.drain` — the rows that a feed still hands out.

## Main results

* `Feed.drain_eq` — they are the rows of its page from the next one on.
* `Feed.page_of_loadBody` — a body that is accepted gives the rows of its page.
-/

namespace Columnar

/-- What reading to the end comes to. -/
structure Outcome where
  rows : List (List (Option Value))
  /-- The failure that ended it; none if there were no more rows. -/
  failure : Option Failure
deriving DecidableEq, Repr

namespace Outcome

/-- Nothing more comes. -/
def done : Outcome := ⟨[], none⟩

/-- Nothing but a failure comes. -/
def failed (e : Failure) : Outcome := ⟨[], some e⟩

/-- Some rows come first. -/
def after (rows : List (List (Option Value))) (o : Outcome) : Outcome := ⟨rows ++ o.rows, o.failure⟩

theorem after_nil (o : Outcome) : o.after [] = o := rfl

theorem after_after (as bs : List (List (Option Value))) (o : Outcome) :
    (o.after bs).after as = o.after (as ++ bs) := by
  simp [after]

end Outcome

/-! ### The rows of one page -/

namespace Page

variable {s : Schema} {p : Page}

@[simp] theorem length_allRows (p : Page) (s : Schema) : (p.allRows s).length = p.rows := by
  simp [allRows]

/-- The rows of a page from one on. -/
theorem drop_allRows {k : Nat} (h : k < p.rows) :
    (p.allRows s).drop k = p.row s k :: (p.allRows s).drop (k + 1) := by
  have hlt : k < (p.allRows s).length := by rwa [length_allRows]
  rw [List.drop_eq_getElem_cons hlt]
  simp [allRows]

theorem drop_allRows_of_le {k : Nat} (h : p.rows ≤ k) : (p.allRows s).drop k = [] :=
  List.drop_eq_nil_of_le ((length_allRows p s).symm ▸ h)

end Page

namespace Feed

variable {s : Schema} {f : Feed} {p : Page}

theorem remaining_advanced (h : f.next < f.rows) : f.advanced.remaining + 1 = f.remaining := by
  show f.rows - (f.next + 1) + 1 = f.rows - f.next
  omega

/-- A row that was read has been handed out. -/
theorem remaining_lt_of_readRow {f' : Feed} {r r' : Row} (h : f.readRow r = (.ok true, f', r')) :
    f'.remaining < f.remaining := by
  by_cases hlt : f.next < f.rows
  · obtain ⟨-, hfeed⟩ := readRow_of_lt hlt r
    rw [h] at hfeed
    have hfeed : f' = f.advanced := hfeed
    rw [hfeed, ← remaining_advanced hlt]
    exact Nat.lt_succ_self _
  · rw [readRow_of_le (Nat.not_lt.mp hlt)] at h
    cases h

/-- The rows that a feed still hands out, each read into a blank row. -/
def drain (f : Feed) : Outcome :=
  match _h : f.readRow (Row.blank f.schema) with
  | (.error e, _, _) => .failed e
  | (.ok false, _, _) => .done
  | (.ok true, f, row) => f.drain.after [row.slots]
termination_by f.remaining
decreasing_by exact remaining_lt_of_readRow _h

theorem drain_def (f : Feed) :
    f.drain = match f.readRow (Row.blank f.schema) with
      | (.error e, _, _) => .failed e
      | (.ok false, _, _) => .done
      | (.ok true, f, row) => f.drain.after [row.slots] := by
  rw [drain]
  split <;> next hread => rw [hread]

theorem drain_of_le (h : f.rows ≤ f.next) : f.drain = .done := by
  rw [drain_def, readRow_of_le h]

theorem drain_of_lt (hready : f.Ready s) (hp : f.Holds p) (h : f.next < f.rows) :
    f.drain = f.advanced.drain.after [p.row s f.next] := by
  have hwidth : (Row.blank f.schema).width = s.width := by
    rw [hready.schema]
    exact List.length_replicate
  obtain ⟨new, hread, -, hslots⟩ := readRow_eq hready hp h hwidth
  rw [drain_def, hread]
  simp only [hslots]

/-- **A feed hands out the rows of its page** from the next one on. -/
theorem drain_eq (hready : f.Ready s) (hp : f.Holds p) :
    f.drain = ⟨(p.allRows s).drop f.next, none⟩ := by
  induction hn : f.remaining generalizing f with
  | zero =>
    have hle : f.rows ≤ f.next := Nat.sub_eq_zero_iff_le.mp hn
    rw [drain_of_le hle, Page.drop_allRows_of_le (hp.rows ▸ hle)]
    rfl
  | succ n ih =>
    have hlt : f.next < f.rows := Nat.lt_of_sub_eq_succ hn
    have hrest : f.advanced.remaining = n := Nat.succ.inj ((remaining_advanced hlt).trans hn)
    have hlt' : f.next < p.rows := hp.rows ▸ hlt
    rw [drain_of_lt hready hp hlt, ih hready.advanced hp.advanced hrest, Page.drop_allRows hlt']
    rfl

/-- A body that a fresh feed accepts is that of a page, and the feed then hands out its rows. -/
theorem page_of_loadBody (hready : f.Ready s) {body : List UInt8} (h : (f.loadBody body).1 = .ok ()) :
    body.length ≤ f.limit ∧ body.length ≤ maxBuffer ∧ ∃ p, Page.decode f.layout f.limit body = .ok p ∧
      (f.loadBody body).2.drain = ⟨p.allRows s, none⟩ := by
  have hlimit : body.length ≤ f.limit := by
    by_contra hlong
    rw [loadBody, if_pos (Nat.not_le.mp hlong)] at h
    cases h
  have hbuffer : body.length ≤ maxBuffer := by
    by_contra hlong
    rw [loadBody, if_neg (Nat.not_lt.mpr hlimit), if_pos (Nat.not_le.mp hlong)] at h
    cases h
  rw [loadBody_of_le hlimit hbuffer] at h ⊢
  refine ⟨hlimit, hbuffer, ?_⟩
  cases hp : Page.decode f.layout f.limit body with
  | error e =>
    obtain ⟨f', hdecode, -⟩ := decode_of_error hready hp
    rw [hdecode] at h
    cases h
  | ok p =>
    obtain ⟨f', hdecode, hready', -, -, hholds, hnext⟩ := decode_of_ok hready hp
    refine ⟨p, rfl, ?_⟩
    rw [hdecode, drain_eq hready' hholds, hnext, List.drop_zero]

end Feed

end Columnar
