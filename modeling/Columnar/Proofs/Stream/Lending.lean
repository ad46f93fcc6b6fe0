import Columnar.Proofs.Page.Twins
import Columnar.Proofs.Stream.Ledger

/-!
# Drafts on loan

A pool lends drafts to whoever asks.  Meanwhile schemas come and go, drafts are used,
thrown away or given back in whatever state they are, and writers are opened, written
to and closed.  All of this happens one after the other, in any order.

The pool goes by marks, and a mark can pass to another schema once nobody owns the
one that had it.  Idle drafts are owners, so the drafts that lie under a mark are
always those of the schema that has it now; they were reset, so they are as new; and
nobody can tell whether a draft came out of the pool.

## Main definitions

* `Lending` — a pool, the schemas, the drafts that are out and the writers.
* `LendingEvent`, `Lending.step` — what can happen, and what it makes of that.
* `Lending.Sound` — idle drafts are as new, and those in use are of their schemas.
* `Lending.Unnoticed` — what is lent out is what would have been made.

## Main results

* `Lending.sound_step`, `Lending.sound_run` — whatever happens leaves that so.
* `Lending.unnoticed_run` — **a pool makes no difference.**
-/

namespace Columnar

/-! ### Writers and their drafts -/

namespace Writer

variable {σ : Type} {d : Draft} {w : Writer σ}

theorem alike_andThen {x : Except Failure Unit × Writer σ} (hx : d.Alike x.2.draft)
    {f : Writer σ → Except Failure Unit × Writer σ}
    (hf : ∀ w, d.Alike w.draft → d.Alike (f w).2.draft) : d.Alike (andThen x f).2.draft := by
  obtain ⟨e | u, w⟩ := x
  · exact hx
  · exact hf w hx

variable [ByteSink σ]

theorem alike_emit (h : d.Alike w.draft) (bs : List UInt8) : d.Alike (w.emit bs).2.draft := by
  unfold emit
  split <;> exact h

theorem alike_writeHeader (h : d.Alike w.draft) : d.Alike w.writeHeader.2.draft := by
  unfold writeHeader
  split
  · exact h
  · exact alike_andThen (alike_emit h _) fun _ hw => hw

theorem alike_flushPage (h : d.Alike w.draft) : d.Alike w.flushPage.2.draft := by
  unfold flushPage
  split
  · exact h
  split
  · exact h
  · exact alike_andThen (alike_emit h _) fun w hw => hw.trans w.draft.alike_reset

theorem alike_flushSink (h : d.Alike w.draft) : d.Alike w.flushSink.2.draft := by
  unfold flushSink
  split <;> exact h

variable [TextHash]

theorem alike_addRow (h : d.Alike w.draft) (r : Row) : d.Alike (w.addRow r).2.draft := by
  have hrow := h.trans (w.draft.alike_appendRow r)
  unfold addRow
  generalize w.draft.appendRow r = x at hrow
  obtain ⟨e | u, draft⟩ := x
  · exact hrow
  · simp only
    split
    · exact alike_flushPage hrow
    · exact hrow

theorem alike_writeRow (h : d.Alike w.draft) (r : Row) : d.Alike (w.writeRow r).2.draft := by
  unfold writeRow
  split
  · exact h
  split
  · exact h
  split
  · exact h
  · exact alike_andThen (alike_writeHeader h) fun w hw => alike_addRow hw r

/-- A writer keeps a draft of the kind that it has. -/
theorem alike_step (h : d.Alike w.draft) (c : WriterCall) : d.Alike (w.step c).2.draft := by
  cases c with
  | row r => exact alike_writeRow h r
  | record b x =>
    rw [step, writeRecord]
    split
    · exact h
    · exact alike_writeRow h _
  | flush =>
    rw [step, flush]
    split
    · exact h
    · exact alike_andThen (alike_writeHeader h) fun w hw =>
        alike_andThen (alike_flushPage hw) fun w hw => alike_flushSink hw
  | close =>
    rw [step, close]
    split
    · exact h
    · exact alike_andThen (alike_writeHeader h) fun w hw =>
        alike_andThen (alike_flushPage hw) fun w hw =>
          alike_andThen (alike_emit hw _) fun w hw => alike_andThen (alike_flushSink hw) fun w hw => hw

/-- A call on a writer whose draft came from a pool, under a mark. -/
def stepPooled (w : Writer σ) (p : Pool) (owners : Nat → Nat) (mark : Nat) :
    WriterCall → (Except Failure Unit × Writer σ) × Pool
  | .close => w.closePooled p owners mark
  | c => (w.step c, p)

theorem stepPooled_fst (w : Writer σ) (p : Pool) (owners : Nat → Nat) (mark : Nat) (c : WriterCall) :
    (w.stepPooled p owners mark c).1 = w.step c := by
  cases c <;> rfl

/-- The pool stays as it was, or an open writer gives back its draft. -/
theorem stepPooled_snd (w : Writer σ) (p : Pool) (owners : Nat → Nat) (mark : Nat) (c : WriterCall) :
    (w.stepPooled p owners mark c).2 = p ∨
      w.closed = false ∧ (w.stepPooled p owners mark c).2 = p.release owners ⟨mark, (w.step c).2.draft⟩ := by
  cases c with
  | close =>
    rw [stepPooled, closePooled, step]
    by_cases hopen : (!w.closed && w.close.2.closed) = true
    · rw [if_pos hopen]
      exact Or.inr ⟨by simpa using (Bool.and_eq_true_iff.mp hopen).1, rfl⟩
    · rw [if_neg hopen]
      exact Or.inl rfl
  | row r => exact Or.inl rfl
  | record b x => exact Or.inl rfl
  | flush => exact Or.inl rfl

end Writer

/-! ### A pool and those who draw on it -/

/-- A writer that draws on a pool, and what was done with it. -/
structure Client (σ : Type) : Type 1 where
  mark : Nat
  schema : Schema
  settings : Settings
  /-- The sink that it was given. -/
  sink : σ
  calls : List WriterCall
  /-- What the calls gave. -/
  results : List (Except Failure Unit)
  writer : Writer σ

/-- A pool and those who draw on it. -/
structure Lending (σ : Type) : Type 1 where
  pool : Pool
  /-- The schemas by their marks. -/
  schemas : Nat → Schema
  /-- How many owners a schema has besides drafts. -/
  handles : Nat → Nat
  /-- The drafts that are out. -/
  drafts : List MarkedDraft
  clients : List (Client σ)

/-- What can happen. -/
inductive LendingEvent (σ : Type) : Type 1 where
  /-- A schema comes to be, at a mark that nobody owns. -/
  | create (mark : Nat) (s : Schema)
  /-- A schema is resolved, references leading to some schemas. -/
  | resolve (mark : Nat) (members : List Schema)
  /-- Others come to own a schema, or cease to. -/
  | own (mark count : Nat)
  /-- A draft is made past the pool. -/
  | make (mark capacity : Nat)
  | acquire (mark capacity : Nat)
  /-- Something is done with a draft that is out. -/
  | call (i : Nat) (c : DraftCall)
  | discard (i : Nat)
  | release (i : Nat)
  | clear
  /-- A writer is opened. -/
  | enter (mark : Nat) (sink : σ) (settings : Settings)
  | write (i : Nat) (c : WriterCall)
  /-- A writer is dropped, closed or not. -/
  | leave (i : Nat)

namespace Client

variable {σ : Type} [ByteSink σ] [TextHash]

/-- Results, sink and everything else are those of a writer with a draft of its own. -/
def Unaffected (c : Client σ) : Prop :=
  ∃ own, Writer.make c.sink c.schema c.settings = .ok own ∧
    c.results = own.results c.calls ∧ c.writer = own.run c.calls

/-- The client after one more call, with what it gave and the writer after it. -/
def after (c : Client σ) (call : WriterCall) (x : Except Failure Unit × Writer σ) : Client σ :=
  { c with calls := c.calls ++ [call], results := c.results ++ [x.1], writer := x.2 }

theorem Unaffected.after {c : Client σ} (h : c.Unaffected) (call : WriterCall) :
    (c.after call (c.writer.step call)).Unaffected := by
  obtain ⟨own, hmake, hresults, hwriter⟩ := h
  refine ⟨own, hmake, ?_, ?_⟩
  · show c.results ++ [(c.writer.step call).1] = own.results (c.calls ++ [call])
    rw [Writer.results_append, hresults, hwriter]
    rfl
  · show (c.writer.step call).2 = own.run (c.calls ++ [call])
    rw [Writer.run_concat, hwriter]

end Client

namespace Lending

variable {σ : Type}

/-- A pool that nobody has used. -/
def start (maxIdle : Nat) (schemas : Nat → Schema) : Lending σ :=
  ⟨.empty maxIdle, schemas, fun _ => 0, [], []⟩

/-- How many owners a schema has: drafts that are out, open writers and idle drafts, and others. -/
def owners (w : Lending σ) (mark : Nat) : Nat :=
  w.handles mark + w.drafts.countP (·.mark == mark) +
    w.clients.countP (fun c => c.mark == mark && !c.writer.closed) + w.pool.held mark

/-- A schema with its mark. -/
def marked (w : Lending σ) (mark : Nat) : MarkedSchema := ⟨mark, w.schemas mark⟩

/-- **A mark that nobody owns has no drafts**, neither idle nor in use. -/
theorem unused_of_owners {w : Lending σ} {mark : Nat} (h : w.owners mark = 0) : w.pool.held mark = 0 ∧
    (∀ d ∈ w.drafts, d.mark ≠ mark) ∧ ∀ c ∈ w.clients, c.writer.closed = false → c.mark ≠ mark := by
  unfold owners at h
  have hdrafts : w.drafts.countP (·.mark == mark) = 0 := by omega
  have hclients : w.clients.countP (fun c => c.mark == mark && !c.writer.closed) = 0 := by omega
  refine ⟨by omega, fun d hd => ?_, fun c hc hopen => ?_⟩
  · simpa using List.countP_eq_zero.mp hdrafts d hd
  · simpa [hopen] using List.countP_eq_zero.mp hclients c hc

variable [ByteSink σ] [TextHash]

/-- What happens makes a difference only if it can: there has to be a draft or a writer at that place,
and a new schema needs a mark that nobody owns. -/
def step [Calendar] (w : Lending σ) : LendingEvent σ → Lending σ
  | .create mark s =>
    if w.owners mark = 0 then
      { w with schemas := Function.update w.schemas mark s, handles := Function.update w.handles mark 1 }
    else w
  | .resolve mark members =>
    match Resolution.ofSchema members (w.schemas mark) with
    | .ok rs => { w with schemas := Function.update w.schemas mark ((w.schemas mark).resolvedTo rs) }
    | .error _ => w
  | .own mark count => { w with handles := Function.update w.handles mark count }
  | .make mark capacity =>
    match Draft.make (w.schemas mark) capacity with
    | .ok d => { w with drafts := w.drafts ++ [⟨mark, d⟩] }
    | .error _ => w
  | .acquire mark capacity =>
    match w.pool.acquire (w.marked mark) capacity with
    | (.ok d, pool) => { w with pool, drafts := w.drafts ++ [d] }
    | (.error _, pool) => { w with pool }
  | .call i c =>
    match w.drafts[i]? with
    | some d => { w with drafts := w.drafts.set i ⟨d.mark, (d.draft.step c).2⟩ }
    | none => w
  | .discard i => { w with drafts := w.drafts.eraseIdx i }
  | .release i =>
    match w.drafts[i]? with
    | some d => { w with pool := w.pool.release w.owners d, drafts := w.drafts.eraseIdx i }
    | none => w
  | .clear => { w with pool := w.pool.clear }
  | .enter mark sink settings =>
    match Writer.makePooled w.pool sink (w.marked mark) settings with
    | (.ok writer, pool) =>
      { w with pool, clients := w.clients ++ [⟨mark, w.schemas mark, settings, sink, [], [], writer⟩] }
    | (.error _, pool) => { w with pool }
  | .write i call =>
    match w.clients[i]? with
    | some c =>
      let (x, pool) := c.writer.stepPooled w.pool w.owners c.mark call
      { w with pool, clients := w.clients.set i (c.after call x) }
    | none => w
  | .leave i => { w with clients := w.clients.eraseIdx i }

/-- The pool and its users after some events. -/
def run [Calendar] (w : Lending σ) (events : List (LendingEvent σ)) : Lending σ := events.foldl step w

/-- Idle drafts are as new, there are not too many of them, and drafts in use are of the schemas that
have their marks. -/
structure Sound (w : Lending σ) (maxIdle : Nat) : Prop where
  idle : ∀ mark, w.pool.Fresh (w.marked mark)
  capped : w.pool.Capped maxIdle
  drafts : ∀ d ∈ w.drafts, d.draft.Serves (w.schemas d.mark)
  /-- Writers that are open have their drafts. -/
  writers : ∀ c ∈ w.clients, c.writer.closed = false → c.writer.draft.Serves (w.schemas c.mark)
  unaffected : ∀ c ∈ w.clients, c.Unaffected

variable {w : Lending σ} {maxIdle : Nat}

theorem sound_start (maxIdle : Nat) (schemas : Nat → Schema) :
    (start maxIdle schemas : Lending σ).Sound maxIdle where
  idle := fun _ => Pool.fresh_empty maxIdle _
  capped := Pool.capped_empty maxIdle
  drafts := fun _ hd => absurd hd List.not_mem_nil
  writers := fun _ hc => absurd hc List.not_mem_nil
  unaffected := fun _ hc => absurd hc List.not_mem_nil

/-! ### Schemas -/

theorem Sound.create (h : w.Sound maxIdle) {mark : Nat} (hfree : w.owners mark = 0) (s : Schema)
    (handles : Nat → Nat) :
    ({ w with schemas := Function.update w.schemas mark s, handles } : Lending σ).Sound maxIdle := by
  obtain ⟨hheld, hdrafts, hclients⟩ := unused_of_owners hfree
  refine ⟨fun m => ?_, h.capped, fun d hd => ?_, fun c hc hopen => ?_, h.unaffected⟩
  · by_cases hm : m = mark
    · exact Pool.fresh_of_held (hm ▸ hheld)
    · show w.pool.Fresh ⟨m, Function.update w.schemas mark s m⟩
      rw [Function.update_of_ne hm]
      exact h.idle m
  · show d.draft.Serves (Function.update w.schemas mark s d.mark)
    rw [Function.update_of_ne (hdrafts d hd)]
    exact h.drafts d hd
  · show c.writer.draft.Serves (Function.update w.schemas mark s c.mark)
    rw [Function.update_of_ne (hclients c hc hopen)]
    exact h.writers c hc hopen

/-- Schemas may change as long as they have no layout yet: then they have no drafts either. -/
theorem Sound.withSchemas (h : w.Sound maxIdle) {schemas : Nat → Schema}
    (hsame : ∀ mark layout, (w.schemas mark).layout = .ok layout → schemas mark = w.schemas mark) :
    ({ w with schemas } : Lending σ).Sound maxIdle := by
  have hserves : ∀ mark (d : Draft), d.Serves (w.schemas mark) → d.Serves (schemas mark) := by
    intro mark d hd
    obtain ⟨layout, hl⟩ := hd.exists_layout
    rwa [hsame mark layout hl]
  refine ⟨fun mark e he hmark d hd => ?_, h.capped, fun d hd => hserves _ _ (h.drafts d hd),
    fun c hc hopen => hserves _ _ (h.writers c hc hopen), h.unaffected⟩
  obtain ⟨hd', hmake⟩ := h.idle mark e he hmark d hd
  obtain ⟨layout, hl⟩ := (Draft.serves_make hmake).exists_layout
  refine ⟨hd', ?_⟩
  show Draft.make (schemas mark) _ = _
  rw [hsame mark layout hl]
  exact hmake

theorem Sound.resolve [Calendar] (h : w.Sound maxIdle) {mark : Nat} {members : List Schema}
    {rs : List Resolution} (hrs : Resolution.ofSchema members (w.schemas mark) = .ok rs) :
    ({ w with schemas := Function.update w.schemas mark ((w.schemas mark).resolvedTo rs) } :
      Lending σ).Sound maxIdle := by
  refine h.withSchemas fun m layout hl => ?_
  by_cases hm : m = mark
  · subst hm
    rw [Function.update_self]
    exact Schema.resolvedTo_of_layout hl hrs
  · rw [Function.update_of_ne hm]

/-! ### Drafts -/

/-- One more draft is out. -/
theorem Sound.lend (h : w.Sound maxIdle) {d : MarkedDraft} (hd : d.draft.Serves (w.schemas d.mark)) :
    ({ w with drafts := w.drafts ++ [d] } : Lending σ).Sound maxIdle := by
  refine ⟨h.idle, h.capped, ?_, h.writers, h.unaffected⟩
  exact List.forall_mem_append.mpr ⟨h.drafts, List.forall_mem_singleton.mpr hd⟩

/-- Another pool, whose idle drafts are as new too. -/
theorem Sound.withPool (h : w.Sound maxIdle) {pool : Pool} (hidle : ∀ mark, pool.Fresh (w.marked mark))
    (hcapped : pool.Capped maxIdle) : ({ w with pool } : Lending σ).Sound maxIdle :=
  ⟨hidle, hcapped, h.drafts, h.writers, h.unaffected⟩

theorem Sound.acquire_pool (h : w.Sound maxIdle) (s : MarkedSchema) (capacity : Nat) :
    ({ w with pool := (w.pool.acquire s capacity).2 } : Lending σ).Sound maxIdle :=
  h.withPool (fun mark => Pool.fresh_acquire (h.idle mark) s capacity)
    (Pool.capped_acquire h.capped s capacity)

/-- A draft of the schema that has its mark may be given back in any state. -/
theorem Sound.release_pool (h : w.Sound maxIdle) (owners : Nat → Nat) {d : MarkedDraft}
    (hd : d.draft.Serves (w.schemas d.mark)) :
    ({ w with pool := w.pool.release owners d } : Lending σ).Sound maxIdle := by
  refine h.withPool (fun mark => Pool.fresh_release (h.idle mark) owners fun hmark => ?_)
    (Pool.capped_release h.capped owners d)
  have hmark : d.mark = mark := hmark
  exact hmark ▸ hd

/-- What a pool lends out is a new draft. -/
theorem Sound.acquire_eq (h : w.Sound maxIdle) (mark capacity : Nat) :
    (w.pool.acquire (w.marked mark) capacity).1 =
      (Draft.make (w.schemas mark) capacity).map fun d => ⟨mark, d⟩ :=
  Pool.acquire_of_fresh (h.idle mark) capacity

theorem Sound.acquire [Calendar] (h : w.Sound maxIdle) (mark capacity : Nat) :
    (w.step (.acquire mark capacity)).Sound maxIdle := by
  have hpool := h.acquire_pool (w.marked mark) capacity
  have heq := h.acquire_eq mark capacity
  rw [step]
  generalize w.pool.acquire (w.marked mark) capacity = x at hpool heq
  obtain ⟨e | d, pool⟩ := x
  · exact hpool
  · cases hmake : Draft.make (w.schemas mark) capacity with
    | error e =>
      rw [hmake] at heq
      cases heq
    | ok new =>
      rw [hmake] at heq
      cases heq
      exact hpool.lend (Draft.serves_make hmake)

/-- Fewer drafts are out. -/
theorem Sound.discard (h : w.Sound maxIdle) (i : Nat) :
    ({ w with drafts := w.drafts.eraseIdx i } : Lending σ).Sound maxIdle :=
  ⟨h.idle, h.capped, fun d hd => h.drafts d (List.mem_of_mem_eraseIdx hd), h.writers, h.unaffected⟩

/-- A draft stays one of its schema, whatever is done with it. -/
theorem Sound.call [Calendar] (h : w.Sound maxIdle) (i : Nat) (c : DraftCall) :
    (w.step (.call i c)).Sound maxIdle := by
  rw [step]
  cases hd : w.drafts[i]? with
  | none => exact h
  | some d =>
    refine ⟨h.idle, h.capped, fun d' hd' => ?_, h.writers, h.unaffected⟩
    rcases List.mem_or_eq_of_mem_set hd' with hd' | rfl
    · exact h.drafts d' hd'
    · exact (h.drafts d (List.mem_of_getElem? hd)).alike (d.draft.alike_step c)

theorem Sound.release [Calendar] (h : w.Sound maxIdle) (i : Nat) : (w.step (.release i)).Sound maxIdle := by
  rw [step]
  cases hd : w.drafts[i]? with
  | none => exact h
  | some d => exact (h.release_pool w.owners (h.drafts d (List.mem_of_getElem? hd))).discard i

/-! ### Writers -/

theorem Sound.enter [Calendar] (h : w.Sound maxIdle) (mark : Nat) (sink : σ) (settings : Settings) :
    (w.step (.enter mark sink settings)).Sound maxIdle := by
  have hpool : ({ w with pool := (Writer.makePooled w.pool sink (w.marked mark) settings).2 } :
      Lending σ).Sound maxIdle := by
    unfold Writer.makePooled
    split
    · exact h
    · exact h.acquire_pool (w.marked mark) settings.pageRows
  have heq := Writer.makePooled_of_fresh (h.idle mark) sink settings
  rw [step]
  generalize Writer.makePooled w.pool sink (w.marked mark) settings = x at hpool heq
  obtain ⟨e | writer, pool⟩ := x
  · exact hpool
  · have hmake : Writer.make sink (w.schemas mark) settings = .ok writer := heq.symm
    obtain ⟨-, d, hd, rfl⟩ := Writer.exists_start hmake
    refine ⟨hpool.idle, hpool.capped, hpool.drafts, ?_, ?_⟩
    · exact List.forall_mem_append.mpr
        ⟨hpool.writers, List.forall_mem_singleton.mpr fun _ => Draft.serves_make hd⟩
    · exact List.forall_mem_append.mpr
        ⟨hpool.unaffected, List.forall_mem_singleton.mpr ⟨_, hmake, rfl, rfl⟩⟩

theorem Sound.write [Calendar] (h : w.Sound maxIdle) (i : Nat) (call : WriterCall) :
    (w.step (.write i call)).Sound maxIdle := by
  rw [step]
  cases hc : w.clients[i]? with
  | none => exact h
  | some c =>
    have hmem := List.mem_of_getElem? hc
    -- a writer that is open after the call was so before, and has its draft
    have hserves : c.writer.closed = false →
        (c.writer.step call).2.draft.Serves (w.schemas c.mark) := fun hopen =>
      (h.writers c hmem hopen).alike (Writer.alike_step (Draft.Alike.refl _) call)
    have hpool : ({ w with pool := (c.writer.stepPooled w.pool w.owners c.mark call).2 } :
        Lending σ).Sound maxIdle := by
      rcases c.writer.stepPooled_snd w.pool w.owners c.mark call with hsame | ⟨hopen, hback⟩
      · rw [hsame]
        exact h
      · rw [hback]
        exact h.release_pool w.owners (hserves hopen)
    have hstep := c.writer.stepPooled_fst w.pool w.owners c.mark call
    simp only
    rw [hstep]
    refine ⟨hpool.idle, hpool.capped, hpool.drafts, fun k hk hopen => ?_, fun k hk => ?_⟩
    · rcases List.mem_or_eq_of_mem_set hk with hk | rfl
      · exact h.writers k hk hopen
      · refine hserves (Bool.eq_false_iff.mpr fun hclosed => ?_)
        have hstays := (c.writer.step_of_closed hclosed call).2.2
        have hopen : (c.writer.step call).2.closed = false := hopen
        rw [hstays] at hopen
        cases hopen
    · rcases List.mem_or_eq_of_mem_set hk with hk | rfl
      · exact h.unaffected k hk
      · exact (h.unaffected c hmem).after call

/-! ### Histories -/

/-- **Whatever happens, idle drafts stay as new and drafts in use those of their schemas.** -/
theorem sound_step [Calendar] (h : w.Sound maxIdle) (e : LendingEvent σ) : (w.step e).Sound maxIdle := by
  cases e with
  | create mark s =>
    rw [step]
    split
    · next hfree => exact h.create hfree s _
    · exact h
  | resolve mark members =>
    rw [step]
    split
    · next rs hrs => exact h.resolve hrs
    · exact h
  | own mark count => exact ⟨h.idle, h.capped, h.drafts, h.writers, h.unaffected⟩
  | make mark capacity =>
    rw [step]
    split
    · next d hd => exact h.lend (Draft.serves_make hd)
    · exact h
  | acquire mark capacity => exact h.acquire mark capacity
  | call i c => exact h.call i c
  | discard i => exact h.discard i
  | release i => exact h.release i
  | clear =>
    exact h.withPool (fun _ _ he => absurd he List.not_mem_nil)
      ⟨h.capped.limit, fun _ he => absurd he List.not_mem_nil⟩
  | enter mark sink settings => exact h.enter mark sink settings
  | write i call => exact h.write i call
  | leave i =>
    exact ⟨h.idle, h.capped, h.drafts, fun c hc => h.writers c (List.mem_of_mem_eraseIdx hc),
      fun c hc => h.unaffected c (List.mem_of_mem_eraseIdx hc)⟩

theorem sound_run [Calendar] (h : w.Sound maxIdle) (events : List (LendingEvent σ)) :
    (w.run events).Sound maxIdle := by
  induction events generalizing w with
  | nil => exact h
  | cons e events ih => exact ih (sound_step h e)

/-- A pool makes no difference to those who draw on it. -/
structure Unnoticed (w : Lending σ) (maxIdle : Nat) : Prop where
  /-- What is lent out for a finalized schema is the new draft of that schema and limit. -/
  acquire : ∀ mark capacity, (w.schemas mark).Finalized → capacity ≠ 0 → ∃ d,
    (w.pool.acquire (w.marked mark) capacity).1 = .ok ⟨mark, d⟩ ∧
      Draft.make (w.schemas mark) capacity = .ok d ∧ d.schema = w.schemas mark ∧ d.limit = capacity ∧
      d.isEmpty = true
  /-- The idle drafts of other keys stay. -/
  others : ∀ mark capacity key, key ≠ ⟨mark, capacity⟩ →
    (w.pool.acquire (w.marked mark) capacity).2.shelf key = w.pool.shelf key
  capped : ∀ key, w.pool.idleCount key ≤ maxIdle
  /-- A writer that is opened is the one with a draft of its own. -/
  enter : ∀ mark (sink : σ) settings, (Writer.makePooled w.pool sink (w.marked mark) settings).1 =
    Writer.make sink (w.schemas mark) settings
  /-- So were those that are there, after all the calls on them. -/
  unaffected : ∀ c ∈ w.clients, c.Unaffected

theorem Sound.unnoticed (h : w.Sound maxIdle) : w.Unnoticed maxIdle where
  acquire := by
    intro mark capacity hs hcapacity
    obtain ⟨layout, hl⟩ := Schema.layout_of_finalized hs
    have hmake := Draft.make_eq hl hcapacity
    refine ⟨_, ?_, hmake, rfl, rfl, rfl⟩
    rw [h.acquire_eq, hmake]
    rfl
  others := fun mark capacity _ hne => w.pool.shelf_acquire_of_ne (w.marked mark) capacity hne
  capped := h.capped.idleCount_le
  enter := fun mark sink settings => Writer.makePooled_of_fresh (h.idle mark) sink settings
  unaffected := h.unaffected

/-- **A pool makes no difference**, whatever has happened. -/
theorem unnoticed_run [Calendar] (maxIdle : Nat) (schemas : Nat → Schema) (events : List (LendingEvent σ)) :
    ((start maxIdle schemas).run events).Unnoticed maxIdle :=
  (sound_run (sound_start maxIdle schemas) events).unnoticed

end Lending

namespace Lending

open scoped Builtin

-- a draft with a row in it and another one open is given back, and so is that of a writer
example : ((start 2 fun _ => Schema.counter : Lending Memory).run
    [.create 0 Schema.counter, .acquire 0 4, .call 0 (.row (Row.blank Schema.counter)),
      .call 0 (.value 0 (.uint 1)), .enter 0 .empty .small, .write 0 .flush, .release 0,
      .write 0 .close]).pool.idleCount ⟨0, 4⟩ = 2 := by
  decide

end Lending
end Columnar
