import Columnar.Proofs.Stream.Orphans
import Mathlib.Data.Set.Card

/-!
# Keys and idle drafts

The number of its keys is to tell how many keys a pool has idle drafts of.  For that a
key has to go with its last draft.  Taking that draft out sees to it, and a sweep takes
a key and its drafts together.

Giving a draft back puts the key there first and asks then whether there is room.  There
is room for the first draft of a key in every pool but the one that keeps none.  That
pool is left with a key without drafts.  It does not collect such keys: the next one is
new, so there is a sweep, and no key without drafts outlasts that.  So it has at most
the key that the last draft came back under, and counts one where it should count none.

## Main definitions

* `PoolRequest`, `Pool.run` — calls with the owners that there are, and a pool after them.
* `spareKey` — the key that a draft came back under last, read off the calls alone.
* `Pool.Bare` — a key without idle drafts is there.
* `Pool.Counts` — what the number of keys tells.
* `Lending.requests` — what some events ask of the pool.

## Main results

* `Pool.Ordered.encard_keys` — a pool counts the keys with idle drafts and the bare ones.
* `Pool.stocked_step`, `Pool.stocked_run` — bare is the spare key of a pool that keeps no
  drafts, and no other key of any pool.
* `Lending.pool_run` — events do to the pool what they ask, one after the other.
* `Lending.counts_run` — **the number of keys is that of the keys with idle drafts, but
  for the spare key of a pool that keeps none.**
* `Lending.not_keyCount_run` — so it is not for all pools.
-/

namespace Columnar

/-- A call on a pool, with the number of owners that the schemas have then. -/
structure PoolRequest where
  owners : Nat → Nat
  call : PoolCall

/-- The key that a draft came back under last, unless one was taken out under it since, or all were
dropped; given what that was before the call.  A draft that is the only owner of its schema does not
count as come back. -/
def PoolRequest.spareAfter (r : PoolRequest) (before : Option PoolKey) : Option PoolKey :=
  match r.call with
  | .acquire s capacity => if before = some ⟨s.mark, capacity⟩ then none else before
  | .release d => if r.owners d.mark = 1 then before else some d.key
  | .clear => none

/-- The same after some calls on a new pool. -/
def spareKey (requests : List PoolRequest) : Option PoolKey :=
  requests.foldl (fun before r => r.spareAfter before) none

namespace Pool

variable {p : Pool} {owners : Nat → Nat} {key : PoolKey} {spare : Option PoolKey}

/-- The pool after some calls. -/
def run (p : Pool) (requests : List PoolRequest) : Pool :=
  requests.foldl (fun p r => p.step r.owners r.call) p

theorem run_append (p : Pool) (before after : List PoolRequest) :
    p.run (before ++ after) = (p.run before).run after := List.foldl_append

/-! ### Bare keys -/

/-- A key is there without any idle drafts. -/
def Bare (p : Pool) (key : PoolKey) : Prop := p.hasKey key = true ∧ p.idleCount key = 0

theorem hasKey_of_idleCount (h : 0 < p.idleCount key) : p.hasKey key = true := by
  by_contra hnone
  rw [idleCount, shelf_of_not_hasKey hnone] at h
  exact absurd h (Nat.lt_irrefl 0)

/-- **A pool counts the keys with idle drafts and the bare ones.** -/
theorem Ordered.encard_keys (h : p.Ordered) :
    {key | 1 ≤ p.idleCount key}.encard + {key | p.Bare key}.encard = p.keyCount := by
  have hdisjoint : Disjoint {key | 1 ≤ p.idleCount key} {key | p.Bare key} := by
    refine Set.disjoint_left.mpr fun key hidle hbare => ?_
    have hidle : 1 ≤ p.idleCount key := hidle
    rw [hbare.2] at hidle
    exact absurd hidle (by decide)
  have hkeys : {key | 1 ≤ p.idleCount key} ∪ {key | p.Bare key} =
      ((p.shelves.map Prod.fst).toFinset : Set PoolKey) := by
    ext key
    rw [List.coe_toFinset, Set.mem_union, Set.mem_ofPred_eq, Set.mem_ofPred_eq, Set.mem_ofPred_eq,
      ← hasKey_iff]
    constructor
    · rintro (hidle | hbare)
      · exact hasKey_of_idleCount hidle
      · exact hbare.1
    · intro hkey
      rcases Nat.eq_zero_or_pos (p.idleCount key) with hnone | hidle
      · exact Or.inr ⟨hkey, hnone⟩
      · exact Or.inl hidle
  rw [← Set.encard_union_eq hdisjoint, hkeys, Set.encard_coe_eq_coe_finsetCard,
    List.toFinset_card_of_nodup h.keys, List.length_map, keyCount]

theorem SameBut.bare_iff {q : Pool} (h : SameBut key p q) {other : PoolKey} (hne : other ≠ key) :
    q.Bare other ↔ p.Bare other := by
  obtain ⟨hhas, hshelf⟩ := h other hne
  rw [Bare, Bare, idleCount, idleCount, hhas, hshelf]

theorem not_bare_withoutKey (p : Pool) (key : PoolKey) : ¬ (p.withoutKey key).Bare key := by
  rintro ⟨hkey, -⟩
  obtain ⟨e, he, rfl⟩ := List.mem_map.mp (hasKey_iff.mp hkey)
  simpa using (List.mem_filter.mp he).2

theorem hasKey_withShelf (p : Pool) (key : PoolKey) (drafts : List MarkedDraft) :
    (p.withShelf key drafts).hasKey key = true := hasKey_iff.mpr List.mem_cons_self

theorem bare_withShelf (p : Pool) (key : PoolKey) (drafts : List MarkedDraft) :
    (p.withShelf key drafts).Bare key ↔ drafts = [] := by
  have hshelf : (p.withShelf key drafts).shelf key = drafts := by
    rw [shelf, withShelf, List.lookup_cons_self, Option.getD_some]
  rw [Bare, idleCount, hshelf, List.length_eq_zero_iff]
  exact and_iff_right (p.hasKey_withShelf key drafts)

/-- **Taking a draft out leaves its key there only with others.** -/
theorem not_bare_acquire (p : Pool) (s : MarkedSchema) (capacity : Nat) :
    ¬ (p.acquire s capacity).2.Bare ⟨s.mark, capacity⟩ := by
  rcases p.acquire_cases s capacity with hout | ⟨d, rest, -, hrest, hout⟩
  · rw [hout]
    exact p.not_bare_withoutKey _
  · rw [hout, bare_withShelf]
    exact hrest

/-- **No bare key outlasts a sweep.** -/
theorem Ordered.not_bare_sweep (h : p.Ordered) : ¬ (p.sweep owners).Bare key := by
  rintro ⟨hkey, hnone⟩
  rw [idleCount, h.shelf_sweep hkey, List.length_eq_zero_iff] at hnone
  exact (h.hasKey_sweep.mp hkey).2.1 hnone

/-- A shelf without drafts has room, if the pool keeps any. -/
theorem shelved_ne_nil (h : 0 < p.maxIdle) (d : MarkedDraft) : p.shelved d ≠ [] := by
  intro hnil
  unfold shelved at hnil
  split at hnil
  · cases hnil
  · next hfull =>
    rw [hnil] at hfull
    exact hfull h

/-- The keys of a pool that keeps no drafts are bare. -/
theorem Capped.bare_of_hasKey (h : p.Capped 0) (hkey : p.hasKey key = true) : p.Bare key :=
  ⟨hkey, Nat.le_zero.mp (h.idleCount_le key)⟩

/-! ### One call -/

/-- Bare is the spare key of a pool that keeps no drafts, and no other. -/
structure Stocked (p : Pool) (maxIdle : Nat) (spare : Option PoolKey) : Prop where
  ordered : p.Ordered
  capped : p.Capped maxIdle
  bare : ∀ key, p.Bare key ↔ maxIdle = 0 ∧ spare = some key

variable {maxIdle : Nat}

theorem stocked_empty (maxIdle : Nat) : (empty maxIdle).Stocked maxIdle none where
  ordered := ordered_empty maxIdle
  capped := capped_empty maxIdle
  bare := fun _ => ⟨fun hbare => (Bool.false_ne_true hbare.1).elim, fun h => nomatch h.2⟩

theorem Stocked.clear (h : p.Stocked maxIdle spare) : p.clear.Stocked maxIdle none := by
  show (empty p.maxIdle).Stocked maxIdle none
  rw [h.capped.limit]
  exact stocked_empty maxIdle

theorem Stocked.acquire (h : p.Stocked maxIdle spare) (s : MarkedSchema) (capacity : Nat) :
    (p.acquire s capacity).2.Stocked maxIdle
      (if spare = some ⟨s.mark, capacity⟩ then none else spare) := by
  refine ⟨h.ordered.acquire s capacity, capped_acquire h.capped s capacity, fun key => ?_⟩
  by_cases hkey : key = ⟨s.mark, capacity⟩
  · subst hkey
    refine iff_of_false (p.not_bare_acquire s capacity) fun hspare => ?_
    split at hspare
    · exact nomatch hspare.2
    · next hne => exact hne hspare.2
  · rw [(p.sameBut_acquire s capacity).bare_iff hkey, h.bare key]
    split
    · next heq =>
      rw [heq, Option.some.injEq]
      exact iff_of_false (fun hspare => hkey hspare.2.symm) fun hspare => nomatch hspare.2
    · rfl

theorem Stocked.release (h : p.Stocked maxIdle spare) (owners : Nat → Nat) (d : MarkedDraft) :
    (p.release owners d).Stocked maxIdle (if owners d.mark = 1 then spare else some d.key) := by
  refine ⟨h.ordered.release owners d, capped_release h.capped owners d, fun key => ?_⟩
  by_cases hsole : owners d.mark = 1
  · rw [if_pos hsole, release_of_sole hsole]
    exact h.bare key
  have hcapped := capped_release h.capped owners d
  rw [if_neg hsole, Option.some.injEq]
  rw [release_of_shared hsole] at hcapped ⊢
  by_cases hkey : key = d.key
  · subst hkey
    constructor
    · intro hbare
      refine ⟨Nat.eq_zero_of_not_pos fun hpos => ?_, rfl⟩
      exact shelved_ne_nil (hcapped.limit ▸ hpos) d ((bare_withShelf _ _ _).mp hbare)
    · rintro ⟨rfl, -⟩
      exact hcapped.bare_of_hasKey (hasKey_withShelf _ _ _)
  · rw [(sameBut_withShelf _ _ _).bare_iff hkey]
    refine iff_of_false (fun hbare => ?_) fun hother => hkey hother.2.symm
    unfold swept at hbare
    split at hbare
    · next hthere =>
      -- a pool that keeps no drafts has no other key than the spare one
      obtain ⟨rfl, hspare⟩ := (h.bare key).mp hbare
      obtain ⟨-, hspare'⟩ := (h.bare d.key).mp (h.capped.bare_of_hasKey hthere)
      exact hkey (Option.some.inj (hspare.symm.trans hspare'))
    · exact h.ordered.not_bare_sweep hbare

/-- **A call leaves no key bare but the spare one**, and not that in a pool that keeps drafts. -/
theorem stocked_step (h : p.Stocked maxIdle spare) (r : PoolRequest) :
    (p.step r.owners r.call).Stocked maxIdle (r.spareAfter spare) := by
  obtain ⟨owners, call⟩ := r
  cases call with
  | acquire s capacity => exact h.acquire s capacity
  | release d => exact h.release owners d
  | clear => exact h.clear

theorem stocked_run (h : p.Stocked maxIdle spare) (requests : List PoolRequest) :
    (p.run requests).Stocked maxIdle (requests.foldl (fun before r => r.spareAfter before) spare) := by
  induction requests generalizing p spare with
  | nil => exact h
  | cons r requests ih => exact ih (stocked_step h r)

/-! ### The number of keys -/

/-- What the number of keys tells. -/
structure Counts (p : Pool) (maxIdle : Nat) (spare : Option PoolKey) : Prop where
  /-- All keys are counted, those with idle drafts and the bare ones. -/
  keys : {key | 1 ≤ p.idleCount key}.encard + {key | p.Bare key}.encard = p.keyCount
  /-- Bare is the key that the last draft came back under, if the pool keeps no drafts. -/
  bare : ∀ key, p.Bare key ↔ maxIdle = 0 ∧ spare = some key
  /-- Just without that, the number is that of the keys with idle drafts. -/
  agrees : (p.keyCount : ℕ∞) = {key | 1 ≤ p.idleCount key}.encard ↔ 0 < maxIdle ∨ spare = none
  /-- With it, the number is one and no draft is idle. -/
  alone : maxIdle = 0 → ∀ key, spare = some key → p.keyCount = 1 ∧ ∀ other, p.idleCount other = 0

theorem encard_idle_eq_zero (h : ∀ key, p.idleCount key = 0) : {key | 1 ≤ p.idleCount key}.encard = 0 := by
  refine Set.encard_eq_zero.mpr (Set.eq_empty_of_forall_notMem fun key hkey => ?_)
  exact Nat.ne_of_gt hkey (h key)

theorem Stocked.bare_eq_empty (h : p.Stocked maxIdle spare) (hnone : 0 < maxIdle ∨ spare = none) :
    {key | p.Bare key} = ∅ := by
  refine Set.eq_empty_of_forall_notMem fun key hbare => ?_
  obtain ⟨rfl, rfl⟩ := (h.bare key).mp hbare
  rcases hnone with hpos | hspare
  · exact absurd hpos (Nat.lt_irrefl 0)
  · cases hspare

/-- Besides its spare key, a pool that keeps no drafts has nothing. -/
theorem Stocked.alone (h : p.Stocked 0 (some key)) :
    p.keyCount = 1 ∧ ∀ other, p.idleCount other = 0 := by
  have hidle : ∀ other, p.idleCount other = 0 := fun other => Nat.le_zero.mp (h.capped.idleCount_le other)
  have hkeys := h.ordered.encard_keys
  have hbare : {other | p.Bare other} = {key} := by
    ext other
    rw [Set.mem_ofPred_eq, h.bare other, Set.mem_singleton_iff, Option.some.injEq]
    exact (and_iff_right rfl).trans eq_comm
  rw [encard_idle_eq_zero hidle, hbare, Set.encard_singleton, zero_add] at hkeys
  exact ⟨by exact_mod_cast hkeys.symm, hidle⟩

theorem Stocked.counts (h : p.Stocked maxIdle spare) : p.Counts maxIdle spare where
  keys := h.ordered.encard_keys
  bare := h.bare
  agrees := by
    constructor
    · intro hcount
      by_contra hnone
      obtain ⟨hzero, hspare⟩ := not_or.mp hnone
      obtain rfl := Nat.eq_zero_of_not_pos hzero
      obtain ⟨key, rfl⟩ := Option.ne_none_iff_exists'.mp hspare
      obtain ⟨hone, hidle⟩ := h.alone
      rw [hone, encard_idle_eq_zero hidle] at hcount
      exact absurd hcount (by decide)
    · intro hnone
      rw [← h.ordered.encard_keys, h.bare_eq_empty hnone, Set.encard_empty, add_zero]
  alone := by
    rintro rfl key rfl
    exact h.alone

end Pool

namespace Lending

variable {σ : Type} [ByteSink σ] [TextHash] [Calendar]

/-- What some events ask of the pool, one after the other, and how many owners the schemas have then. -/
def requests (w : Lending σ) : List (LendingEvent σ) → List PoolRequest
  | [] => []
  | e :: events => ((w.request e).map (PoolRequest.mk w.owners)).toList ++ (w.step e).requests events

/-- **Events do to the pool what they ask, one after the other.** -/
theorem pool_run (w : Lending σ) (events : List (LendingEvent σ)) :
    (w.run events).pool = w.pool.run (w.requests events) := by
  induction events generalizing w with
  | nil => rfl
  | cons e events ih =>
    rw [requests, Pool.run_append]
    show ((w.step e).run events).pool = _
    rw [ih, pool_step]
    cases w.request e <;> rfl

/-- **The number of keys is that of the keys with idle drafts, but for the spare key of a pool that keeps
none**, whatever has happened. -/
theorem counts_run (maxIdle : Nat) (schemas : Nat → Schema) (events : List (LendingEvent σ)) :
    ((start maxIdle schemas).run events).pool.Counts maxIdle
      (spareKey ((start maxIdle schemas).requests events)) := by
  have hstocked := Pool.stocked_run (Pool.stocked_empty maxIdle) ((start maxIdle schemas).requests events)
  rw [pool_run]
  exact hstocked.counts

end Lending

/-! ### A pool that keeps no drafts -/

namespace Lending

open scoped Builtin

-- of two keys that drafts come back under, a pool that keeps none has the second
example : ((start 0 fun _ => Schema.counter : Lending Memory).run
    [.create 0 Schema.counter, .acquire 0 4, .acquire 0 8, .release 0, .release 0]).pool.keyCount = 1 := by
  decide

/-- A pool that keeps no drafts, after one came back. -/
def roomless : Lending Memory :=
  (start 0 fun _ => Schema.counter).run [.create 0 Schema.counter, .acquire 0 4, .release 0]

/-- **The number of keys is not always that of the keys with idle drafts.** -/
theorem not_keyCount_run : ¬ ∀ (maxIdle : Nat) (schemas : Nat → Schema) (events : List (LendingEvent Memory)),
    (((start maxIdle schemas).run events).pool.keyCount : ℕ∞) =
      {key | 1 ≤ ((start maxIdle schemas).run events).pool.idleCount key}.encard := by
  intro hcount
  have hkeys : (roomless.pool.keyCount : ℕ∞) = {key | 1 ≤ roomless.pool.idleCount key}.encard := hcount 0 _ _
  have hsound : roomless.Sound 0 := sound_run (sound_start 0 _) _
  rw [Pool.encard_idle_eq_zero fun key => Nat.le_zero.mp (hsound.capped.idleCount_le key)] at hkeys
  exact absurd hkeys (by decide)

end Lending
end Columnar
