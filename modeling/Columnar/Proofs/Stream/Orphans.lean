import Columnar.Proofs.Stream.Lending

/-!
# Orphaned keys

An idle draft is an owner of its schema, so a schema that everybody else has dropped
would be kept for ever.  Therefore a pool looks for such orphans whenever a draft comes
back under a key that is not there.  It cannot see who owns a schema, only how many
do, and compares that with the idle drafts that it has of the schema under all its
keys: if there are no more owners than these, nobody else is left.

The draft that comes back is in somebody's hands while the pool looks, so its own
schema is no orphan, and its other keys stay.  As drafts are dropped there are fewer
owners; but a schema whose drafts are dropped had too few of them already, and no
other schema loses any.  So it does not matter in which order the keys are looked at.

## Main definitions

* `PoolCall`, `Lending.request` — what is asked of a pool, and what an event asks.
* `Pool.Ordered` — every key is there once, and drafts lie under their marks.
* `Pool.sweepAlong` — a sweep that drops drafts as it goes.
* `Pool.SameBut` — all keys but one have what they had.
* `Lending.Tidies` — what an event makes of the keys that it is not about.

## Main results

* `Lending.pool_step` — an event does to the pool what it asks, and nothing else.
* `Pool.Ordered.hasKey_sweep`, `Pool.Ordered.shelf_sweep` — which keys stay in a sweep.
* `Pool.Ordered.sweepAlong_eq` — the order does not matter.
* `Lending.tidies_run` — **a sweep takes the orphans and nothing else.**
-/

namespace Columnar

/-- What is asked of a pool. -/
inductive PoolCall where
  | acquire (s : MarkedSchema) (capacity : Nat)
  | release (d : MarkedDraft)
  | clear

namespace Pool

variable {p : Pool} {owners : Nat → Nat} {key : PoolKey}

/-- The pool after a call, if the schemas have so many owners. -/
def step (p : Pool) (owners : Nat → Nat) : PoolCall → Pool
  | .acquire s capacity => (p.acquire s capacity).2
  | .release d => p.release owners d
  | .clear => p.clear

/-! ### Keys -/

theorem hasKey_iff : p.hasKey key = true ↔ key ∈ p.shelves.map Prod.fst := by
  simp [hasKey]

theorem shelf_of_not_hasKey (h : ¬ p.hasKey key = true) : p.shelf key = [] := by
  rw [shelf]
  cases hlookup : p.shelves.lookup key with
  | none => rfl
  | some drafts =>
    have hmem := List.mem_map_of_mem (f := Prod.fst) (Page.mem_of_lookup hlookup)
    exact absurd (hasKey_iff.mpr hmem) h

/-- Every key is there once, and drafts lie under the marks that they have. -/
structure Ordered (p : Pool) : Prop where
  keys : (p.shelves.map Prod.fst).Nodup
  marks : ∀ e ∈ p.shelves, ∀ d ∈ e.2, d.mark = e.1.mark

theorem Ordered.shelf_eq (h : p.Ordered) {drafts : List MarkedDraft} (he : (key, drafts) ∈ p.shelves) :
    p.shelf key = drafts := by
  rw [shelf, Page.lookup_of_mem h.keys he]
  rfl

theorem Ordered.mark_of_mem_shelf (h : p.Ordered) {d : MarkedDraft} (hd : d ∈ p.shelf key) :
    d.mark = key.mark := by
  rw [shelf] at hd
  cases hlookup : p.shelves.lookup key with
  | none =>
    rw [hlookup] at hd
    cases hd
  | some drafts =>
    rw [hlookup] at hd
    exact h.marks _ (Page.mem_of_lookup hlookup) d hd

theorem ordered_empty (maxIdle : Nat) : (empty maxIdle).Ordered :=
  ⟨List.nodup_nil, fun _ he => absurd he List.not_mem_nil⟩

theorem Ordered.filter (h : p.Ordered) (keep : PoolKey × List MarkedDraft → Bool) :
    Ordered { p with shelves := p.shelves.filter keep } :=
  ⟨h.keys.sublist (List.filter_sublist.map _), fun e he => h.marks e (List.mem_of_mem_filter he)⟩

theorem Ordered.withShelf (h : p.Ordered) {drafts : List MarkedDraft}
    (hdrafts : ∀ d ∈ drafts, d.mark = key.mark) : (p.withShelf key drafts).Ordered := by
  have hrest : (p.withoutKey key).Ordered := h.filter _
  refine ⟨List.nodup_cons.mpr ⟨fun hmem => ?_, hrest.keys⟩, fun e he => ?_⟩
  · obtain ⟨e, he, hkey⟩ := List.mem_map.mp hmem
    simpa [hkey] using (List.mem_filter.mp he).2
  · rcases List.mem_cons.mp he with rfl | he
    · exact hdrafts
    · exact hrest.marks e he

theorem Ordered.acquire (h : p.Ordered) (s : MarkedSchema) (capacity : Nat) :
    (p.acquire s capacity).2.Ordered := by
  rcases p.acquire_cases s capacity with hout | ⟨d, rest, hshelf, -, hout⟩
  · rw [hout]
    exact h.filter _
  · rw [hout]
    exact h.withShelf fun e he => h.mark_of_mem_shelf (hshelf ▸ List.mem_cons_of_mem d he)

theorem Ordered.release (h : p.Ordered) (owners : Nat → Nat) (d : MarkedDraft) :
    (p.release owners d).Ordered := by
  by_cases hsole : owners d.mark = 1
  · rw [release_of_sole hsole]
    exact h
  obtain ⟨keep, hswept⟩ := p.exists_swept_eq owners d.key
  rw [release_of_shared hsole, hswept]
  apply (h.filter keep).withShelf
  intro e he
  rcases mem_shelved he with rfl | he
  · rfl
  · exact (h.filter keep).mark_of_mem_shelf he

theorem Ordered.step (h : p.Ordered) (owners : Nat → Nat) (c : PoolCall) : (p.step owners c).Ordered := by
  cases c with
  | acquire s capacity => exact h.acquire s capacity
  | release d => exact h.release owners d
  | clear => exact ordered_empty p.maxIdle

/-! ### What a sweep leaves -/

/-- A key is wanted if it has drafts, and its schema owners besides all the idle drafts. -/
theorem wanted_iff {e : PoolKey × List MarkedDraft} (hmarks : ∀ d ∈ e.2, d.mark = e.1.mark) :
    p.wanted owners e = true ↔ e.2 ≠ [] ∧ p.held e.1.mark < owners e.1.mark := by
  unfold wanted
  cases hlast : e.2.getLast? with
  | none => simp [List.getLast?_eq_none_iff.mp hlast]
  | some d =>
    have hmem := List.mem_of_getLast? hlast
    simp [hmarks d hmem, List.ne_nil_of_mem hmem]

/-- **The keys that stay are those with drafts, whose schema has an owner besides idle drafts.** -/
theorem Ordered.hasKey_sweep (h : p.Ordered) : (p.sweep owners).hasKey key = true ↔
    p.hasKey key = true ∧ p.shelf key ≠ [] ∧ p.held key.mark < owners key.mark := by
  rw [hasKey_iff, hasKey_iff]
  constructor
  · intro hmem
    obtain ⟨e, he, rfl⟩ := List.mem_map.mp hmem
    obtain ⟨he, hwanted⟩ := List.mem_filter.mp he
    rw [h.shelf_eq he]
    exact ⟨List.mem_map_of_mem (f := Prod.fst) he, (wanted_iff (h.marks e he)).mp hwanted⟩
  · rintro ⟨hmem, hne, howned⟩
    obtain ⟨e, he, rfl⟩ := List.mem_map.mp hmem
    rw [h.shelf_eq he] at hne
    have hwanted := (wanted_iff (h.marks e he)).mpr ⟨hne, howned⟩
    exact List.mem_map_of_mem (f := Prod.fst) (List.mem_filter.mpr ⟨he, hwanted⟩)

/-- **They have all their drafts.** -/
theorem Ordered.shelf_sweep (h : p.Ordered) (hkey : (p.sweep owners).hasKey key = true) :
    (p.sweep owners).shelf key = p.shelf key := by
  obtain ⟨e, he, rfl⟩ := List.mem_map.mp (hasKey_iff.mp hkey)
  have hswept : (p.sweep owners).Ordered := h.filter _
  rw [hswept.shelf_eq he, h.shelf_eq (List.mem_of_mem_filter he)]

/-- A sweep along some keys that drops the drafts of a key at once, so that these own their schema no
longer when the next key is looked at. -/
def sweepAlong (p : Pool) (owners : Nat → Nat) :
    List (PoolKey × List MarkedDraft) → List (PoolKey × List MarkedDraft)
  | [] => []
  | e :: rest =>
    if p.wanted owners e then e :: p.sweepAlong owners rest
    else p.sweepAlong (fun mark => owners mark - e.2.countP (·.mark == mark)) rest

/-- What is left of the owners decides as they all do: there may be fewer of an orphan, and of no
other schema. -/
theorem wanted_congr {left : Nat → Nat} (hle : ∀ mark, left mark ≤ owners mark)
    (hkept : ∀ mark, p.held mark < owners mark → left mark = owners mark)
    {e : PoolKey × List MarkedDraft} (hmarks : ∀ d ∈ e.2, d.mark = e.1.mark) :
    p.wanted left e = p.wanted owners e := by
  rw [Bool.eq_iff_iff, wanted_iff hmarks, wanted_iff hmarks, and_congr_right_iff]
  intro _
  constructor
  · intro hlt
    exact Nat.lt_of_lt_of_le hlt (hle e.1.mark)
  · intro hlt
    rw [hkept e.1.mark hlt]
    exact hlt

theorem sweepAlong_eq_filter {left : Nat → Nat} (hle : ∀ mark, left mark ≤ owners mark)
    (hkept : ∀ mark, p.held mark < owners mark → left mark = owners mark)
    {shelves : List (PoolKey × List MarkedDraft)} (hmarks : ∀ e ∈ shelves, ∀ d ∈ e.2, d.mark = e.1.mark) :
    p.sweepAlong left shelves = shelves.filter (p.wanted owners) := by
  induction shelves generalizing left with
  | nil => rfl
  | cons e rest ih =>
    have he := hmarks e List.mem_cons_self
    have hrest := fun f hf => hmarks f (List.mem_cons_of_mem e hf)
    rw [sweepAlong, wanted_congr hle hkept he]
    by_cases hwanted : p.wanted owners e = true
    · rw [if_pos hwanted, List.filter_cons_of_pos hwanted, ih hle hkept hrest]
    · rw [if_neg hwanted, List.filter_cons_of_neg hwanted]
      refine ih (fun mark => Nat.le_trans (Nat.sub_le _ _) (hle mark)) (fun mark hlt => ?_) hrest
      -- the drafts that are dropped are those of an orphan
      have hnone : e.2.countP (·.mark == mark) = 0 := by
        refine List.countP_eq_zero.mpr fun d hd hmark => hwanted ?_
        rw [← beq_iff_eq.mp hmark, he d hd] at hlt
        exact (wanted_iff he).mpr ⟨List.ne_nil_of_mem hd, hlt⟩
      rw [hnone, Nat.sub_zero, hkept mark hlt]

/-- **It does not matter in which order the keys are looked at.** -/
theorem Ordered.sweepAlong_eq (h : p.Ordered) (owners : Nat → Nat)
    {shelves : List (PoolKey × List MarkedDraft)} (hperm : shelves.Perm p.shelves) :
    p.sweepAlong owners shelves = shelves.filter (p.wanted owners) :=
  sweepAlong_eq_filter (fun _ => Nat.le_refl _) (fun _ _ => rfl) fun e he => h.marks e (hperm.subset he)

/-! ### Other keys -/

/-- All keys but one are there as they were, and have what they had. -/
def SameBut (key : PoolKey) (p q : Pool) : Prop :=
  ∀ other, other ≠ key → q.hasKey other = p.hasKey other ∧ q.shelf other = p.shelf other

theorem sameBut_withoutKey (p : Pool) (key : PoolKey) : SameBut key p (p.withoutKey key) := by
  intro other hne
  refine ⟨?_, p.shelf_withoutKey_of_ne hne⟩
  rw [Bool.eq_iff_iff, hasKey_iff, hasKey_iff, List.mem_map, List.mem_map]
  constructor
  · rintro ⟨e, he, rfl⟩
    exact ⟨e, List.mem_of_mem_filter he, rfl⟩
  · rintro ⟨e, he, rfl⟩
    exact ⟨e, List.mem_filter.mpr ⟨he, bne_iff_ne.mpr hne⟩, rfl⟩

theorem sameBut_withShelf (p : Pool) (key : PoolKey) (drafts : List MarkedDraft) :
    SameBut key p (p.withShelf key drafts) := by
  intro other hne
  refine ⟨?_, p.shelf_withShelf_of_ne hne drafts⟩
  rw [← (sameBut_withoutKey p key other hne).1, Bool.eq_iff_iff, hasKey_iff, hasKey_iff]
  exact List.mem_cons.trans (or_iff_right hne)

/-- **Taking a draft out is about its key only.** -/
theorem sameBut_acquire (p : Pool) (s : MarkedSchema) (capacity : Nat) :
    SameBut ⟨s.mark, capacity⟩ p (p.acquire s capacity).2 := by
  rcases p.acquire_cases s capacity with hout | ⟨d, rest, -, -, hout⟩
  · rw [hout]
    exact sameBut_withoutKey p _
  · rw [hout]
    exact sameBut_withShelf p _ _

/-- **Under a key that is there a draft is given back without a sweep.** -/
theorem sameBut_release {d : MarkedDraft} (hkey : p.hasKey d.key = true) :
    SameBut d.key p (p.release owners d) := by
  by_cases hsole : owners d.mark = 1
  · rw [release_of_sole hsole]
    exact fun _ _ => ⟨rfl, rfl⟩
  · rw [release_of_shared hsole, swept, if_pos hkey]
    exact sameBut_withShelf p _ _

/-- **Under a new key it is given back after a sweep**, and is the first there, if the pool keeps any. -/
theorem release_of_new {d : MarkedDraft} (howned : owners d.mark ≠ 1) (hkey : ¬ p.hasKey d.key = true) :
    p.release owners d = (p.sweep owners).withShelf d.key
      (if 0 < p.maxIdle then [⟨d.mark, d.draft.reset⟩] else []) := by
  have hnone : ¬ (p.sweep owners).hasKey d.key = true := by
    intro hswept
    obtain ⟨e, he, hfst⟩ := List.mem_map.mp (hasKey_iff.mp hswept)
    exact hkey (hasKey_iff.mpr (List.mem_map.mpr ⟨e, List.mem_of_mem_filter he, hfst⟩))
  rw [release_of_shared howned, swept, if_neg hkey, shelved, shelf_of_not_hasKey hnone]
  rfl

end Pool

namespace Lending

variable {σ : Type} {w : Lending σ}

/-! ### Owners -/

/-- How many owners a schema has besides the idle drafts of the pool. -/
def others (w : Lending σ) (mark : Nat) : Nat :=
  w.handles mark + w.drafts.countP (·.mark == mark) +
    w.clients.countP (fun c => c.mark == mark && !c.writer.closed)

theorem held_lt_owners_iff {mark : Nat} : w.pool.held mark < w.owners mark ↔ 0 < w.others mark := by
  show w.pool.held mark < w.others mark + w.pool.held mark ↔ _
  omega

/-! ### What is asked of the pool -/

variable [ByteSink σ]

/-- What an event asks of the pool: a writer takes its draft when it is opened, and gives it back when it
is closed. -/
def request (w : Lending σ) : LendingEvent σ → Option PoolCall
  | .acquire mark capacity => some (.acquire (w.marked mark) capacity)
  | .release i => w.drafts[i]?.map .release
  | .clear => some .clear
  | .enter mark _ settings =>
    match Writer.checkSetup (w.schemas mark) settings with
    | .ok () => some (.acquire (w.marked mark) settings.pageRows)
    | .error _ => none
  | .write i .close =>
    w.clients[i]?.bind fun c =>
      if !c.writer.closed && c.writer.close.2.closed then some (.release ⟨c.mark, c.writer.close.2.draft⟩)
      else none
  | _ => none

/-- A draft that comes back is an owner of its schema. -/
theorem others_of_release {e : LendingEvent σ} {d : MarkedDraft} (h : w.request e = some (.release d)) :
    0 < w.others d.mark := by
  cases e with
  | release i =>
    obtain ⟨d', hd', heq⟩ := Option.map_eq_some_iff.mp h
    cases heq
    have hcount : 0 < w.drafts.countP (·.mark == d.mark) :=
      List.countP_pos_iff.mpr ⟨d, List.mem_of_getElem? hd', beq_self_eq_true d.mark⟩
    unfold others
    omega
  | write i call =>
    cases call with
    | close =>
      obtain ⟨c, hc, heq⟩ := Option.bind_eq_some_iff.mp h
      split at heq
      · next hopen =>
        cases heq
        have hcount : 0 < w.clients.countP (fun k => k.mark == c.mark && !k.writer.closed) := by
          refine List.countP_pos_iff.mpr ⟨c, List.mem_of_getElem? hc, ?_⟩
          rw [beq_self_eq_true, Bool.true_and]
          exact (Bool.and_eq_true_iff.mp hopen).1
        show 0 < w.others c.mark
        unfold others
        omega
      · cases heq
    | row r => cases h
    | record b x => cases h
    | flush => cases h
  | enter mark sink settings =>
    rw [request] at h
    split at h <;> cases h
  | create mark s => cases h
  | resolve mark members => cases h
  | own mark count => cases h
  | make mark capacity => cases h
  | acquire mark capacity => cases h
  | call i c => cases h
  | discard i => cases h
  | clear => cases h
  | leave i => cases h

variable [TextHash] [Calendar]

theorem pool_acquire (w : Lending σ) (mark capacity : Nat) :
    (w.step (.acquire mark capacity)).pool = (w.pool.acquire (w.marked mark) capacity).2 := by
  rw [step]
  split
  · next d pool h => rw [h]
  · next e pool h => rw [h]

theorem pool_enter (w : Lending σ) (mark : Nat) (sink : σ) (settings : Settings) :
    (w.step (.enter mark sink settings)).pool =
      (w.request (.enter mark sink settings)).elim w.pool (w.pool.step w.owners) := by
  have hmade : (w.step (.enter mark sink settings)).pool =
      (Writer.makePooled w.pool sink (w.marked mark) settings).2 := by
    rw [step]
    split
    · next writer pool h => rw [h]
    · next e pool h => rw [h]
  rw [hmade, Writer.makePooled, request]
  have hschema : (w.marked mark).schema = w.schemas mark := rfl
  rw [hschema]
  cases Writer.checkSetup (w.schemas mark) settings with
  | error e => rfl
  | ok u => rfl

theorem pool_write (w : Lending σ) (i : Nat) (call : WriterCall) :
    (w.step (.write i call)).pool = (w.request (.write i call)).elim w.pool (w.pool.step w.owners) := by
  rw [step]
  cases hc : w.clients[i]? with
  | none => cases call <;> simp [request, hc]
  | some c =>
    cases call with
    | close =>
      rw [request, hc, Option.bind_some]
      show (if !c.writer.closed && c.writer.close.2.closed then
        w.pool.release w.owners ⟨c.mark, c.writer.close.2.draft⟩ else w.pool) = _
      split <;> rfl
    | row r => rfl
    | record b x => rfl
    | flush => rfl

/-- **An event does to the pool what it asks, and nothing else.** -/
theorem pool_step (w : Lending σ) (e : LendingEvent σ) :
    (w.step e).pool = (w.request e).elim w.pool (w.pool.step w.owners) := by
  cases e with
  | create mark s =>
    rw [step]
    split <;> rfl
  | resolve mark members =>
    rw [step]
    split <;> rfl
  | own mark count => rfl
  | make mark capacity =>
    rw [step]
    split <;> rfl
  | acquire mark capacity => exact w.pool_acquire mark capacity
  | call i c =>
    rw [step]
    split <;> rfl
  | discard i => rfl
  | release i =>
    rw [step, request]
    cases w.drafts[i]? <;> rfl
  | clear => rfl
  | enter mark sink settings => exact w.pool_enter mark sink settings
  | write i call => exact w.pool_write i call
  | leave i => rfl

theorem pool_step_of_request {e : LendingEvent σ} {c : PoolCall} (h : w.request e = some c) :
    (w.step e).pool = w.pool.step w.owners c := by
  rw [pool_step, h]
  rfl

/-- **Whatever happens, every key is there once, and drafts lie under their marks.** -/
theorem ordered_run (h : w.pool.Ordered) (events : List (LendingEvent σ)) : (w.run events).pool.Ordered := by
  induction events generalizing w with
  | nil => exact h
  | cons e events ih =>
    refine ih ?_
    rw [pool_step]
    cases w.request e with
    | none => exact h
    | some c => exact h.step w.owners c

/-! ### Histories -/

/-- What an event makes of the keys of the pool that it is not about. -/
structure Tidies (w : Lending σ) (e : LendingEvent σ) : Prop where
  /-- A draft comes back under a key that is not there, and its schema has another owner: of the other
  keys those stay that have drafts, and whose schema has owners besides the idle drafts of the pool.
  They have all their drafts. -/
  sweeps : ∀ d, w.request e = some (.release d) → 1 < w.owners d.mark → ¬ w.pool.hasKey d.key = true →
    ∀ key, key ≠ d.key →
      ((w.step e).pool.hasKey key = true ↔
        w.pool.hasKey key = true ∧ w.pool.shelf key ≠ [] ∧ 0 < w.others key.mark) ∧
      ((w.step e).pool.hasKey key = true → (w.step e).pool.shelf key = w.pool.shelf key)
  /-- The draft that comes back counts as one of these owners. -/
  counts : ∀ d, w.request e = some (.release d) → 0 < w.others d.mark
  /-- The same keys stay if they are looked at in any order, and drafts cease to be owners as they are
  dropped. -/
  order : ∀ shelves, shelves.Perm w.pool.shelves →
    w.pool.sweepAlong w.owners shelves = shelves.filter (w.pool.wanted w.owners)
  /-- A draft comes back under a key that is there. -/
  keeps : ∀ d, w.request e = some (.release d) → w.pool.hasKey d.key = true →
    Pool.SameBut d.key w.pool (w.step e).pool
  /-- A draft comes back that is the only owner of its schema. -/
  drops : ∀ d, w.request e = some (.release d) → w.owners d.mark = 1 → (w.step e).pool = w.pool
  /-- A draft is taken out, or made. -/
  lends : ∀ s capacity, w.request e = some (.acquire s capacity) →
    Pool.SameBut ⟨s.mark, capacity⟩ w.pool (w.step e).pool

/-- **A sweep takes the orphans and nothing else**, whatever has happened before. -/
theorem tidies_run (maxIdle : Nat) (schemas : Nat → Schema) (events : List (LendingEvent σ))
    (e : LendingEvent σ) : ((start maxIdle schemas).run events).Tidies e := by
  have hordered : ((start maxIdle schemas : Lending σ).run events).pool.Ordered :=
    ordered_run (Pool.ordered_empty maxIdle) events
  generalize (start maxIdle schemas : Lending σ).run events = w at hordered
  refine ⟨fun d hd howned hnew key hne => ?_, fun d hd => others_of_release hd,
    fun shelves hperm => hordered.sweepAlong_eq w.owners hperm, fun d hd hkey => ?_,
    fun d hd hsole => ?_, fun s capacity hs => ?_⟩
  · -- the key of the draft is added after the sweep, which decides about the others
    have hpool : (w.step e).pool = w.pool.release w.owners d := pool_step_of_request hd
    rw [Pool.release_of_new (Nat.ne_of_gt howned) hnew] at hpool
    obtain ⟨hhas, hshelf⟩ := Pool.sameBut_withShelf (w.pool.sweep w.owners) d.key
      (if 0 < w.pool.maxIdle then [⟨d.mark, d.draft.reset⟩] else []) key hne
    rw [hpool, hhas, hshelf, hordered.hasKey_sweep, held_lt_owners_iff]
    exact ⟨Iff.rfl, fun hkey => hordered.shelf_sweep
      (hordered.hasKey_sweep.mpr ⟨hkey.1, hkey.2.1, held_lt_owners_iff.mpr hkey.2.2⟩)⟩
  · rw [pool_step_of_request hd]
    exact Pool.sameBut_release hkey
  · rw [pool_step_of_request hd]
    exact Pool.release_of_sole hsole
  · rw [pool_step_of_request hs]
    exact Pool.sameBut_acquire w.pool s capacity

end Lending

/-! ### A schema that was dropped -/

namespace Lending

open scoped Builtin

/-- Two idle drafts of a schema that was dropped, under different keys, one of a schema that is in use,
and another draft of that schema out. -/
def orphaned : Lending Memory :=
  (start 2 fun _ => Schema.counter).run
    [.create 0 Schema.counter, .create 1 Schema.counter, .acquire 0 4, .acquire 0 8, .acquire 1 4,
      .acquire 1 8, .release 0, .release 0, .release 0, .own 0 0]

/-- When that comes back, both keys of the schema that was dropped go. -/
theorem tidies_run_orphaned : ∃ d, orphaned.request (.release 0) = some (.release d) ∧
    1 < orphaned.owners d.mark ∧ ¬ orphaned.pool.hasKey d.key = true ∧
    orphaned.pool.idleCount ⟨0, 4⟩ = 1 ∧ ¬ (orphaned.step (.release 0)).pool.hasKey ⟨0, 4⟩ = true ∧
    orphaned.pool.idleCount ⟨0, 8⟩ = 1 ∧ ¬ (orphaned.step (.release 0)).pool.hasKey ⟨0, 8⟩ = true ∧
    (orphaned.step (.release 0)).pool.shelf ⟨1, 4⟩ = orphaned.pool.shelf ⟨1, 4⟩ := by
  have htidies : orphaned.Tidies (.release 0) := tidies_run _ _ _ _
  refine ⟨_, rfl, by decide, by decide, by decide, fun hkey => ?_, by decide, fun hkey => ?_, ?_⟩
  · have hothers := ((htidies.sweeps _ rfl (by decide) (by decide) ⟨0, 4⟩ (by decide)).1.mp hkey).2.2
    exact absurd hothers (by decide)
  · have hothers := ((htidies.sweeps _ rfl (by decide) (by decide) ⟨0, 8⟩ (by decide)).1.mp hkey).2.2
    exact absurd hothers (by decide)
  · obtain ⟨hstays, hshelf⟩ := htidies.sweeps _ rfl (by decide) (by decide) ⟨1, 4⟩ (by decide)
    refine hshelf (hstays.mpr ⟨by decide, fun hnil => ?_, by decide⟩)
    have hidle : orphaned.pool.idleCount ⟨1, 4⟩ = 0 := by rw [Pool.idleCount, hnil, List.length_nil]
    exact absurd hidle (by decide)

end Lending
end Columnar
