import Columnar.Page.Pool
import Columnar.Proofs.Page.Draft

/-!
# Drafts out of a pool

A draft that goes back to a pool is reset first, and a draft that was reset is as
good as a new one.  So what a writer gets out of a pool is what it would have made.

The drafts of a key are nobody else's business: taking one out leaves those of other
keys, and of no key are there more than the pool keeps.

## Main definitions

* `Draft.Serves` — a draft is one of a schema, whatever was done with it.
* `Pool.Fresh` — the idle drafts of a schema are its own, and as new.
* `Pool.Capped` — of no key there are too many.

## Main results

* `Draft.Serves.make_reset` — a draft that was reset is a new one.
* `Pool.acquire_cases`, `Pool.release_of_sole`, `Pool.release_of_shared` — what a call
  does.
* `Pool.fresh_release` — giving a draft back keeps idle drafts as new.
* `Pool.acquire_of_fresh` — an idle draft is the one that would have been made.
* `Pool.shelf_acquire_of_ne` — taking a draft out leaves those of other keys.
-/

namespace Columnar

/-- A lane without any cells. -/
def Lane.Shape.emptyLane (sh : Lane.Shape) : Lane := ⟨sh.field, sh.kind, Column.empty sh.storage, .empty⟩

namespace Draft

/-- Schema, limit and lanes of a draft are those of a new draft for some schema. -/
def Serves (d : Draft) (s : Schema) : Prop := ∃ new, make s d.limit = .ok new ∧ new.Alike d

variable {d d' : Draft} {s : Schema}

theorem serves_make {limit : Nat} (h : make s limit = .ok d) : d.Serves s := by
  obtain ⟨-, -, hlimit, -⟩ := of_make h
  refine ⟨d, ?_, Alike.refl d⟩
  rwa [hlimit]

theorem Serves.alike (h : d.Serves s) (halike : d.Alike d') : d'.Serves s := by
  obtain ⟨new, hmake, hnew⟩ := h
  refine ⟨new, ?_, hnew.trans halike⟩
  rwa [halike.limit]

theorem Serves.exists_layout (h : d.Serves s) : ∃ layout, s.layout = .ok layout := by
  obtain ⟨new, hmake, -⟩ := h
  obtain ⟨-, -, -, layout, hl, -⟩ := of_make hmake
  exact ⟨layout, hl⟩

/-- **A draft that was reset is a new one.** -/
theorem Serves.make_reset (h : d.Serves s) : make s d.limit = .ok d.reset := by
  obtain ⟨new, hmake, hnew⟩ := h
  obtain ⟨hpos, hschema, -, layout, hl, hshapes⟩ := of_make hmake
  have hlanes : emptyLanes s layout = d.lanes.map Lane.reset := by
    have hempty : emptyLanes s layout = (s.shapes layout).map Lane.Shape.emptyLane := by
      rw [emptyLanes, Schema.shapes, List.map_zipWith]
      rfl
    rw [hempty, ← hshapes, ← hnew.shapes, Draft.shapes, List.map_map]
    rfl
  rw [make, if_neg (Nat.ne_of_gt hpos), hl]
  show Except.ok (⟨s, d.limit, 0, emptyLanes s layout⟩ : Draft) = _
  rw [hlanes, ← hschema, ← hnew.schema]
  rfl

end Draft

/-- The key that a draft is kept by. -/
def MarkedDraft.key (d : MarkedDraft) : PoolKey := ⟨d.mark, d.draft.limit⟩

namespace Pool

variable {p : Pool} {s : MarkedSchema} {owners : Nat → Nat}

/-! ### What a call does -/

/-- **Taking a draft out leaves its key there just with other drafts.** -/
theorem acquire_cases (p : Pool) (s : MarkedSchema) (capacity : Nat) :
    (p.acquire s capacity).2 = p.withoutKey ⟨s.mark, capacity⟩ ∨
      ∃ d rest, p.shelf ⟨s.mark, capacity⟩ = d :: rest ∧ rest ≠ [] ∧
        (p.acquire s capacity).2 = p.withShelf ⟨s.mark, capacity⟩ rest := by
  unfold acquire
  simp only
  split
  · next d rest hshelf =>
    split
    · exact Or.inl rfl
    · next hrest => exact Or.inr ⟨d, rest, hshelf, by simpa using hrest, rfl⟩
  · exact Or.inl rfl

/-- The pool that a draft comes back to under a key: it is swept if the key is new. -/
def swept (p : Pool) (owners : Nat → Nat) (key : PoolKey) : Pool :=
  if p.hasKey key then p else p.sweep owners

/-- The drafts of its key with a draft that comes back, if there is room for it. -/
def shelved (p : Pool) (d : MarkedDraft) : List MarkedDraft :=
  if (p.shelf d.key).length < p.maxIdle then ⟨d.mark, d.draft.reset⟩ :: p.shelf d.key else p.shelf d.key

variable {d e : MarkedDraft}

/-- A draft that is the only owner of its schema is not kept. -/
theorem release_of_sole (h : owners d.mark = 1) : p.release owners d = p := if_pos h

/-- **Any other is put on the shelf of its key, if there is room.** -/
theorem release_of_shared (h : owners d.mark ≠ 1) : p.release owners d =
    (p.swept owners d.key).withShelf d.key ((p.swept owners d.key).shelved d) := if_neg h

/-- A sweep takes keys away and does nothing else. -/
theorem exists_swept_eq (p : Pool) (owners : Nat → Nat) (key : PoolKey) :
    ∃ keep, p.swept owners key = { p with shelves := p.shelves.filter keep } := by
  unfold swept
  split
  · exact ⟨fun _ => true, by rw [List.filter_true]⟩
  · exact ⟨p.wanted owners, rfl⟩

theorem mem_shelved (h : e ∈ p.shelved d) : e = ⟨d.mark, d.draft.reset⟩ ∨ e ∈ p.shelf d.key := by
  unfold shelved at h
  split at h
  · exact List.mem_cons.mp h
  · exact Or.inr h

/-! ### Idle drafts -/

/-- A draft is as one that is newly made for a schema and a row limit. -/
def AsNew (s : MarkedSchema) (capacity : Nat) (d : MarkedDraft) : Prop :=
  d.mark = s.mark ∧ Draft.make s.schema capacity = .ok d.draft

/-- The idle drafts under the mark of a schema are as new. -/
def Fresh (p : Pool) (s : MarkedSchema) : Prop :=
  ∀ e ∈ p.shelves, e.1.mark = s.mark → ∀ d ∈ e.2, AsNew s e.1.capacity d

theorem fresh_empty (maxIdle : Nat) (s : MarkedSchema) : (empty maxIdle).Fresh s :=
  fun _ he => absurd he List.not_mem_nil

theorem Fresh.filter (h : p.Fresh s) (keep : PoolKey × List MarkedDraft → Bool) :
    Fresh { p with shelves := p.shelves.filter keep } s :=
  fun e he => h e (List.mem_of_mem_filter he)

theorem Fresh.shelf (h : p.Fresh s) (capacity : Nat) {d : MarkedDraft}
    (hd : d ∈ p.shelf ⟨s.mark, capacity⟩) : AsNew s capacity d := by
  rw [Pool.shelf] at hd
  cases hlookup : p.shelves.lookup ⟨s.mark, capacity⟩ with
  | none =>
    rw [hlookup] at hd
    cases hd
  | some drafts =>
    rw [hlookup] at hd
    obtain ⟨before, after, hsplit, -⟩ := List.lookup_eq_some_iff.mp hlookup
    refine h (⟨s.mark, capacity⟩, drafts) ?_ rfl d hd
    rw [hsplit]
    simp

/-- **An idle draft is the one that would have been made.** -/
theorem acquire_of_fresh (h : p.Fresh s) (capacity : Nat) :
    (p.acquire s capacity).1 = (Draft.make s.schema capacity).map fun d => ⟨s.mark, d⟩ := by
  unfold acquire
  simp only
  split
  · next d rest hshelf =>
    obtain ⟨hmark, hmake⟩ := h.shelf capacity (hshelf ▸ List.mem_cons_self)
    rw [hmake, ← hmark]
    rfl
  · rfl

theorem Fresh.withShelf (h : p.Fresh s) {key : PoolKey} {drafts : List MarkedDraft}
    (hdrafts : key.mark = s.mark → ∀ d ∈ drafts, AsNew s key.capacity d) :
    (p.withShelf key drafts).Fresh s := by
  intro e he hmark
  rcases List.mem_cons.mp he with rfl | he
  · exact hdrafts hmark
  · exact h.filter _ e he hmark

/-- Taking a draft out keeps the others as new. -/
theorem fresh_acquire (h : p.Fresh s) (t : MarkedSchema) (capacity : Nat) :
    (p.acquire t capacity).2.Fresh s := by
  rcases p.acquire_cases t capacity with hout | ⟨d, rest, hshelf, -, hout⟩
  · rw [hout]
    exact h.filter _
  · rw [hout]
    apply h.withShelf
    intro hmark e he
    have hmark : t.mark = s.mark := hmark
    rw [hmark] at hshelf
    exact h.shelf capacity (hshelf ▸ List.mem_cons_of_mem d he)

/-- **Giving back a draft of a schema keeps the idle drafts of all schemas as new**, if drafts of
different schemas have different marks. -/
theorem fresh_release (h : p.Fresh s) (owners : Nat → Nat) {m : MarkedDraft}
    (hm : m.mark = s.mark → m.draft.Serves s.schema) : (p.release owners m).Fresh s := by
  by_cases hsole : owners m.mark = 1
  · rw [release_of_sole hsole]
    exact h
  obtain ⟨keep, hswept⟩ := p.exists_swept_eq owners m.key
  rw [release_of_shared hsole, hswept]
  apply (h.filter keep).withShelf
  intro hmark d hd
  have hmark : m.mark = s.mark := hmark
  rcases mem_shelved hd with rfl | hd
  · exact ⟨hmark, (hm hmark).make_reset⟩
  · rw [MarkedDraft.key, hmark] at hd
    exact (h.filter keep).shelf _ hd

/-! ### Keys -/

theorem lookup_filter_of_ne {key key' : PoolKey} (hne : key' ≠ key)
    (shelves : List (PoolKey × List MarkedDraft)) :
    (shelves.filter fun e => e.1 != key).lookup key' = shelves.lookup key' := by
  induction shelves with
  | nil => rfl
  | cons e shelves ih =>
    obtain ⟨k, drafts⟩ := e
    by_cases hk : k = key
    · subst hk
      rw [List.filter_cons_of_neg (by simp), ih, List.lookup_cons, beq_false_of_ne hne]
    · rw [List.filter_cons_of_pos (by simpa using hk), List.lookup_cons, List.lookup_cons, ih]

/-- Without a key the others have what they had. -/
theorem shelf_withoutKey_of_ne (p : Pool) {key key' : PoolKey} (hne : key' ≠ key) :
    (p.withoutKey key).shelf key' = p.shelf key' := by
  rw [shelf, withoutKey, lookup_filter_of_ne hne, shelf]

theorem shelf_withShelf_of_ne (p : Pool) {key key' : PoolKey} (hne : key' ≠ key)
    (drafts : List MarkedDraft) : (p.withShelf key drafts).shelf key' = p.shelf key' := by
  rw [← shelf_withoutKey_of_ne p hne, shelf, withShelf, List.lookup_cons, beq_false_of_ne hne, shelf]

/-- **Taking a draft out leaves those of other keys.** -/
theorem shelf_acquire_of_ne (p : Pool) (s : MarkedSchema) (capacity : Nat) {key : PoolKey}
    (hne : key ≠ ⟨s.mark, capacity⟩) : (p.acquire s capacity).2.shelf key = p.shelf key := by
  rcases p.acquire_cases s capacity with hout | ⟨d, rest, -, -, hout⟩
  · rw [hout, p.shelf_withoutKey_of_ne hne]
  · rw [hout, p.shelf_withShelf_of_ne hne]

/-- The pool keeps no more than `n` drafts of a key, and there are not more. -/
structure Capped (p : Pool) (n : Nat) : Prop where
  limit : p.maxIdle = n
  shelves : ∀ e ∈ p.shelves, e.2.length ≤ n

variable {n : Nat}

theorem capped_empty (n : Nat) : (empty n).Capped n := ⟨rfl, fun _ he => absurd he List.not_mem_nil⟩

theorem Capped.filter (h : p.Capped n) (keep : PoolKey × List MarkedDraft → Bool) :
    Capped { p with shelves := p.shelves.filter keep } n :=
  ⟨h.limit, fun e he => h.shelves e (List.mem_of_mem_filter he)⟩

theorem Capped.idleCount_le (h : p.Capped n) (key : PoolKey) : p.idleCount key ≤ n := by
  rw [idleCount, shelf]
  cases hlookup : p.shelves.lookup key with
  | none => exact Nat.zero_le _
  | some drafts =>
    obtain ⟨before, after, hsplit, -⟩ := List.lookup_eq_some_iff.mp hlookup
    refine h.shelves (key, drafts) ?_
    rw [hsplit]
    simp

theorem Capped.withShelf (h : p.Capped n) (key : PoolKey) {drafts : List MarkedDraft}
    (hdrafts : drafts.length ≤ n) : (p.withShelf key drafts).Capped n := by
  refine ⟨h.limit, fun e he => ?_⟩
  rcases List.mem_cons.mp he with rfl | he
  · exact hdrafts
  · exact (h.filter _).shelves e he

theorem capped_acquire (h : p.Capped n) (s : MarkedSchema) (capacity : Nat) :
    (p.acquire s capacity).2.Capped n := by
  rcases p.acquire_cases s capacity with hout | ⟨d, rest, hshelf, -, hout⟩
  · rw [hout]
    exact h.filter _
  · have hlen : (p.shelf ⟨s.mark, capacity⟩).length ≤ n := h.idleCount_le _
    rw [hshelf] at hlen
    rw [hout]
    exact h.withShelf _ (Nat.le_of_succ_le hlen)

theorem Capped.length_shelved_le (h : p.Capped n) (d : MarkedDraft) : (p.shelved d).length ≤ n := by
  unfold shelved
  split
  · next hroom => exact h.limit ▸ hroom
  · exact h.idleCount_le d.key

/-- **Giving a draft back does not make too many of a key.** -/
theorem capped_release (h : p.Capped n) (owners : Nat → Nat) (m : MarkedDraft) :
    (p.release owners m).Capped n := by
  by_cases hsole : owners m.mark = 1
  · rw [release_of_sole hsole]
    exact h
  obtain ⟨keep, hswept⟩ := p.exists_swept_eq owners m.key
  rw [release_of_shared hsole, hswept]
  exact (h.filter keep).withShelf _ ((h.filter keep).length_shelved_le m)

/-- A schema that has no idle drafts finds all of them as new. -/
theorem fresh_of_held (h : p.held s.mark = 0) : p.Fresh s := by
  intro e he hmark d hd
  have hnone : (p.shelves.filter fun e => e.1.mark == s.mark).flatMap Prod.snd = [] :=
    List.eq_nil_of_length_eq_zero h
  have hmem : e ∈ p.shelves.filter fun e => e.1.mark == s.mark :=
    List.mem_filter.mpr ⟨he, beq_iff_eq.mpr hmark⟩
  have hflat : d ∈ (p.shelves.filter fun e => e.1.mark == s.mark).flatMap Prod.snd :=
    List.mem_flatMap.mpr ⟨e, hmem, hd⟩
  rw [hnone] at hflat
  cases hflat

end Pool
end Columnar
