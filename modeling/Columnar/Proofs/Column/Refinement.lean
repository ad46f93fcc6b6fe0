import Columnar.Proofs.Column.Contents

/-!
# Columns refine lists

Whatever calls a column has gone through, what is seen of it is a matter of the list
of values that have survived them: a column that has never been cut, and has taken
just these values, has the same length and the same bytes.  Nothing of a text that
was dropped stays behind in the dictionary, and which hash entries are looked up by
makes no difference.

## Main definitions

* `ColumnCall`, `Column.run` — calls on a column, and what they make of it.
* `Column.survivors` — what the calls leave of a list.
* `Column.Storable` — there is room for each of some values.
* `Column.Refines` — what is seen of a column is that of a list.

## Main results

* `Column.holds_step` — a call does to the column what it does to the list.
* `Column.refines_run` — after any calls a column refines the list of survivors.
-/

namespace Columnar

/-- A call on a column. -/
inductive ColumnCall where
  | append (v : Value)
  | truncate (n : Nat)
  | reset

/-- What a call leaves of a list of values of one storage.  A value of another storage is not taken, and
neither is one that there is no room for. -/
def ColumnCall.onList (s : Storage) (vs : List Value) : ColumnCall → List Value
  | append v => if v.storage = s ∧ Column.overflow? vs v = none then vs ++ [v] else vs
  | truncate n => vs.take n
  | reset => []

namespace Column

/-- The column after a call.  A value that is refused leaves it as it is. -/
def step (hash : String → UInt64) (c : Column) : ColumnCall → Column
  | .append v =>
    match c.append hash v with
    | .ok c => c
    | .error _ => c
  | .truncate n => c.truncate n
  | .reset => c.reset

/-- The column after some calls. -/
def run (hash : String → UInt64) (c : Column) (calls : List ColumnCall) : Column :=
  calls.foldl (step hash) c

/-- The values that have survived some calls on a column that was empty. -/
def survivors (s : Storage) (calls : List ColumnCall) : List Value :=
  calls.foldl (ColumnCall.onList s) []

/-- The column after appending some values, if it takes all of them. -/
def appendAll (hash : String → UInt64) (c : Column) (vs : List Value) : Except Refusal Column :=
  vs.foldlM (append hash) c

/-- There is room for each of some values behind the ones before it. -/
def Storable (vs : List Value) : Prop := ∀ n v, vs[n]? = some v → overflow? (vs.take n) v = none

theorem storable_nil : Storable [] := fun _ _ h => by cases h

theorem Storable.concat {vs : List Value} {v : Value} (h : Storable vs) (hv : overflow? vs v = none) :
    Storable (vs ++ [v]) := by
  intro n w hw
  rw [getElem?_concat] at hw
  split at hw
  · next hn =>
    cases hw
    rwa [hn, List.take_left]
  · next hn =>
    have hlt := (List.getElem?_eq_some_iff.mp hw).1
    rw [List.take_append_of_le_length (Nat.le_of_lt hlt)]
    exact h n w hw

theorem Storable.take {vs : List Value} (h : Storable vs) (k : Nat) : Storable (vs.take k) := by
  intro n w hw
  rw [List.getElem?_take] at hw
  split at hw
  · next hn =>
    rw [List.take_take, Nat.min_eq_left (Nat.le_of_lt hn)]
    exact h n w hw
  · cases hw

/-- There is room for the value that comes next. -/
theorem Storable.next {before vs : List Value} {v : Value} (h : Storable (before ++ v :: vs)) :
    overflow? before v = none := by
  have hv := h before.length v (by simp)
  rwa [List.take_left] at hv

/-- The column is one of a storage and amounts to a list of values. -/
structure Holds (hash : String → UInt64) (c : Column) (s : Storage) (vs : List Value) : Prop where
  sound : c.Sound hash
  storage : c.storage = s
  values : c.toList = vs
  storable : Storable vs

variable {hash : String → UInt64} {c c' : Column} {s : Storage} {vs : List Value}

theorem holds_empty (hash : String → UInt64) (s : Storage) : Holds hash (empty s) s [] :=
  ⟨sound_empty hash s, storage_empty s, toList_empty s, storable_nil⟩

theorem Holds.append {v : Value} (h : Holds hash c s vs) (hc : c.append hash v = .ok c') :
    Holds hash c' s (vs ++ [v]) := by
  have happended := appended h.sound v
  rw [hc] at happended
  cases happended with
  | taken _ hroom storage sound values =>
    rw [h.values] at hroom values
    exact ⟨sound, storage.trans h.storage, values, h.storable.concat hroom⟩

/-- **A call does to the column what it does to the list.** -/
theorem holds_step (h : Holds hash c s vs) (call : ColumnCall) :
    Holds hash (c.step hash call) s (call.onList s vs) := by
  cases call with
  | append v =>
    have happended := appended h.sound v
    rw [step, ColumnCall.onList]
    generalize hc : c.append hash v = result at happended
    cases happended with
    | storage hv =>
      rw [if_neg fun htaken => hv (htaken.1.trans h.storage.symm)]
      exact h
    | overflow _ hfull =>
      rw [h.values] at hfull
      rw [if_neg fun htaken => Option.some_ne_none _ (hfull.symm.trans htaken.2)]
      exact h
    | taken hv hroom =>
      rw [h.values] at hroom
      rw [if_pos ⟨hv.trans h.storage, hroom⟩]
      exact h.append hc
  | truncate n =>
    refine ⟨sound_truncate h.sound n, (storage_truncate c n).trans h.storage, ?_, h.storable.take n⟩
    show (c.truncate n).toList = vs.take n
    rw [toList_truncate h.sound, h.values]
  | reset =>
    refine ⟨sound_empty hash _, (storage_reset c).trans h.storage, ?_, storable_nil⟩
    exact toList_empty _

theorem holds_foldl (h : Holds hash c s vs) (calls : List ColumnCall) :
    Holds hash (c.run hash calls) s (calls.foldl (ColumnCall.onList s) vs) := by
  induction calls generalizing c vs with
  | nil => exact h
  | cons call calls ih => exact ih (holds_step h call)

/-- After any calls a column amounts to the list of survivors. -/
theorem holds_run (hash : String → UInt64) (s : Storage) (calls : List ColumnCall) :
    Holds hash ((empty s).run hash calls) s (survivors s calls) :=
  holds_foldl (holds_empty hash s) calls

theorem storage_of_mem_onList {call : ColumnCall} (h : ∀ v ∈ vs, v.storage = s) :
    ∀ v ∈ call.onList s vs, v.storage = s := by
  intro v hv
  cases call with
  | append w =>
    rw [ColumnCall.onList] at hv
    split at hv
    · next hw =>
      rcases List.mem_append.mp hv with hv | hv
      · exact h v hv
      · exact List.mem_singleton.mp hv ▸ hw.1
    · exact h v hv
  | truncate n => exact h v (List.mem_of_mem_take hv)
  | reset => cases hv

/-- Only values of the column's storage survive. -/
theorem storage_of_mem_survivors (s : Storage) (calls : List ColumnCall) :
    ∀ v ∈ survivors s calls, v.storage = s := by
  suffices key : ∀ vs : List Value, (∀ v ∈ vs, v.storage = s) →
      ∀ v ∈ calls.foldl (ColumnCall.onList s) vs, v.storage = s from
    key [] fun v hv => absurd hv List.not_mem_nil
  induction calls with
  | nil => exact fun vs h => h
  | cons call calls ih => exact fun vs h => ih _ (storage_of_mem_onList h)

/-- A column takes values of its storage one after the other, if there is room for each. -/
theorem exists_appendAll {before : List Value} (h : Holds hash c s before)
    (hvs : ∀ v ∈ vs, v.storage = s) (hroom : Storable (before ++ vs)) :
    ∃ c', appendAll hash c vs = .ok c' := by
  induction vs generalizing c before with
  | nil => exact ⟨c, rfl⟩
  | cons v vs ih =>
    obtain ⟨hv, hrest⟩ := List.forall_mem_cons.mp hvs
    obtain ⟨mid, hmid⟩ := exists_append h.sound (hv.trans h.storage.symm) (h.values.symm ▸ hroom.next)
    obtain ⟨c', hc'⟩ := ih (h.append hmid) hrest (by rwa [List.append_assoc])
    refine ⟨c', ?_⟩
    rw [appendAll, List.foldlM_cons, hmid]
    exact hc'

/-- A column that has taken some values holds them behind those it held. -/
theorem holds_appendAll {before : List Value} (h : Holds hash c s before)
    (hc : appendAll hash c vs = .ok c') : Holds hash c' s (before ++ vs) := by
  induction vs generalizing c before with
  | nil =>
    cases hc
    rwa [List.append_nil]
  | cons v vs ih =>
    rw [appendAll, List.foldlM_cons] at hc
    cases hmid : c.append hash v with
    | error _ =>
      rw [hmid] at hc
      cases hc
    | ok mid =>
      rw [hmid] at hc
      have hholds := ih (h.append hmid) hc
      rwa [List.append_assoc] at hholds

theorem Holds.encode_eq (h : Holds hash c s vs) : c.encode = spell s vs := by
  rw [encode_eq_spell h.sound, h.storage, h.values]

theorem Holds.length_eq (h : Holds hash c s vs) : c.length = vs.length := by
  rw [← length_toList, h.values]

/-- What is seen of a column is what a list of values says. -/
structure Refines (hash : String → UInt64) (c : Column) (s : Storage) (vs : List Value) : Prop where
  values : c.toList = vs
  /-- Values of other storages are refused as such, and no others. -/
  refuses : ∀ v : Value, c.append hash v = .error .storage ↔ v.storage ≠ s
  /-- Of its own storage those are refused that the list leaves no room for. -/
  overflows : ∀ (v : Value) (store : Overflow), c.append hash v = .error (.overflow store) ↔
    v.storage = s ∧ overflow? vs v = some store
  /-- A new column takes the values, by whatever hash it looks entries up, and has the same length and
  the same bytes. -/
  plain : ∀ hash' : String → UInt64, ∃ fresh, appendAll hash' (empty s) vs = .ok fresh ∧
    c.length = fresh.length ∧ c.encode = fresh.encode
  /-- The dictionary has the different texts, in the order in which they first come. -/
  dictionary : ∀ d, c = texts d →
    d.entries.toList = (vs.filterMap Value.asText?).eraseDups.map Utf8.encode

/-- **After any calls a column refines the list of survivors.** -/
theorem refines_run (hash : String → UInt64) (s : Storage) (calls : List ColumnCall) :
    Refines hash ((empty s).run hash calls) s (survivors s calls) := by
  have hholds := holds_run hash s calls
  refine ⟨hholds.values, ?_, ?_, ?_, ?_⟩
  · intro v
    rw [append_eq_storage_iff, hholds.storage]
  · intro v store
    rw [append_eq_overflow_iff hholds.sound, hholds.storage, hholds.values]
  · intro hash'
    have hempty := holds_empty hash' s
    obtain ⟨fresh, hfresh⟩ :=
      exists_appendAll hempty (storage_of_mem_survivors s calls) hholds.storable
    have hplain := holds_appendAll hempty hfresh
    rw [List.nil_append] at hplain
    refine ⟨fresh, hfresh, ?_, ?_⟩
    · rw [hholds.length_eq, hplain.length_eq]
    · rw [hholds.encode_eq, hplain.encode_eq]
  · intro d hd
    have hvalues := hholds.values
    have hsound := hholds.sound
    rw [hd] at hvalues hsound
    have htexts : (survivors s calls).filterMap Value.asText? = d.rows := by
      rw [← hvalues]
      exact filterMap_map .text _ (fun _ => rfl) d.rows
    rw [htexts]
    exact hsound.entries.toList_eq

end Column
end Columnar
