import Columnar.Page.Draft

/-!
# A pool of drafts

Drafts that are not needed for the moment are kept, reset, by the schema and the
row limit they were made for.  A schema counts as itself and not by what it says:
it carries a mark, and drafts of two schemas that say the same are kept apart.

Of each key only so many drafts are kept.  When a key is new, keys whose schema
nobody but the pool still owns are swept out.

## Main definitions

* `Pool.acquire` — an idle draft of a key, or a new one.
* `Pool.release` — give a draft back.
* `Pool.sweep` — drop the keys that only the pool owns.
-/

namespace Columnar

/-- A schema as one particular object. -/
structure MarkedSchema where
  mark : Nat
  schema : Schema
deriving DecidableEq, Repr

/-- A draft that knows which particular schema it was made for. -/
structure MarkedDraft where
  mark : Nat
  draft : Draft

/-- What idle drafts are kept by. -/
structure PoolKey where
  /-- The mark of the schema. -/
  mark : Nat
  capacity : Nat
deriving DecidableEq, Repr

structure Pool where
  /-- The most drafts kept for a key. -/
  maxIdle : Nat
  /-- The idle drafts of each key, the last one released first. -/
  shelves : List (PoolKey × List MarkedDraft)

namespace Pool

/-- A pool that keeps nothing yet. -/
def empty (maxIdle : Nat) : Pool := ⟨maxIdle, []⟩

/-- The idle drafts of a key. -/
def shelf (p : Pool) (key : PoolKey) : List MarkedDraft := (p.shelves.lookup key).getD []

def hasKey (p : Pool) (key : PoolKey) : Bool := p.shelves.any fun s => s.1 == key

/-- The pool without a key. -/
def withoutKey (p : Pool) (key : PoolKey) : Pool :=
  { p with shelves := p.shelves.filter fun s => s.1 != key }

/-- The pool with other drafts under a key. -/
def withShelf (p : Pool) (key : PoolKey) (drafts : List MarkedDraft) : Pool :=
  { p with shelves := (key, drafts) :: (p.withoutKey key).shelves }

/-- How many drafts are idle under a key. -/
def idleCount (p : Pool) (key : PoolKey) : Nat := (p.shelf key).length

def keyCount (p : Pool) : Nat := p.shelves.length

/-- The pool without any drafts. -/
def clear (p : Pool) : Pool := { p with shelves := [] }

/-- How many drafts are idle under the keys with a mark. -/
def held (p : Pool) (mark : Nat) : Nat :=
  ((p.shelves.filter fun s => s.1.mark == mark).flatMap Prod.snd).length

/-- An idle draft of a key, or a new one.  A key without idle drafts is not kept. -/
def acquire (p : Pool) (s : MarkedSchema) (capacity : Nat) : Except Failure MarkedDraft × Pool :=
  let key : PoolKey := ⟨s.mark, capacity⟩
  match p.shelf key with
  | d :: rest =>
    (.ok d, if rest.isEmpty then p.withoutKey key else p.withShelf key rest)
  | [] => ((Draft.make s.schema capacity).map fun d => ⟨s.mark, d⟩, p.withoutKey key)

/-- The key is kept: the schema of the draft that was released first has owners besides the idle
drafts. -/
def wanted (p : Pool) (owners : Nat → Nat) (s : PoolKey × List MarkedDraft) : Bool :=
  match s.2.getLast? with
  | some d => p.held s.1.mark < owners d.mark
  | none => false

/-- Drop the keys without drafts, and those whose schema has no owners besides the idle drafts of
this pool; `owners` counts these too. -/
def sweep (p : Pool) (owners : Nat → Nat) : Pool :=
  { p with shelves := p.shelves.filter (p.wanted owners) }

/-- Give a draft back.  It is dropped if it was its schema's only owner, or if enough drafts of its
key are idle.  `owners` counts the owners of each schema, the draft and the idle drafts among them. -/
def release (p : Pool) (owners : Nat → Nat) (d : MarkedDraft) : Pool :=
  if owners d.mark = 1 then p else
    let key : PoolKey := ⟨d.mark, d.draft.limit⟩
    -- a new key is the occasion to drop those that nobody needs any more
    let p := if p.hasKey key then p else p.sweep owners
    let idle := p.shelf key
    p.withShelf key (if idle.length < p.maxIdle then ⟨d.mark, d.draft.reset⟩ :: idle else idle)

end Pool
end Columnar
