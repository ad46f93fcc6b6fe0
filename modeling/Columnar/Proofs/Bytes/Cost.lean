import Columnar.Proofs.Bytes.Follow

/-!
# What reading costs

Bytes that are read may be any bytes, with counts and lengths that promise what is
not there.  Two things hold of every reader all the same.  It fails for what is
wrong with the bytes and for no other reason, and what it gives is paid for: each
thing read has taken at least a byte off, so there are never more things than bytes.

Readers are composed, and so are their costs.  A reader that comes after others may
spend what these have paid and not spent; this is its credit.

## Main definitions

* `Failure.OfDecoding` — the failures of reading bytes.
* `Take.Metered` — a reader fails in no other way, and what it gives is paid for.

## Main results

* `Take.Metered.bind`, `Take.Metered.times` — readers in a row are metered if each
  of them is.
-/

namespace Columnar

/-- Something is wrong with the bytes of a page or stream: they are damaged, an index in them is out
of range, or they have another number of columns than the schema. -/
inductive Failure.OfDecoding : Failure → Prop where
  | damaged (d : Damage) : OfDecoding (.damaged d)
  | outOfRange (table : Table) (index size : Nat) : OfDecoding (.outOfRange table index size)
  | columnCount (expected actual : Nat) : OfDecoding (.columnCountMismatch expected actual)

/-- A chain of steps that fails has failed at the first one or after it. -/
theorem error_of_bind {ε α β : Type} {x : Except ε α} {f : α → Except ε β} {e : ε}
    (h : (x >>= f) = .error e) : x = .error e ∨ ∃ a, x = .ok a ∧ f a = .error e := by
  cases x with
  | error e' =>
    cases h
    exact Or.inl rfl
  | ok a => exact Or.inr ⟨a, rfl, h⟩

namespace Take

variable {α β : Type}

/-- A reader fails only for what is wrong with the bytes, and what it gives costs no more than the
bytes it took off and some credit. -/
structure Metered (read : List UInt8 → Except Failure (α × List UInt8)) (credit : Nat)
    (cost : α → Nat) : Prop where
  failure : ∀ bs e, read bs = .error e → e.OfDecoding
  paid : ∀ bs a rest, read bs = .ok (a, rest) → rest.length + cost a ≤ bs.length + credit

variable {read : List UInt8 → Except Failure (α × List UInt8)} {credit : Nat} {cost : α → Nat}

theorem metered_pure {a : α} (h : cost a ≤ credit) : Metered (fun bs => .ok (a, bs)) credit cost where
  failure := by
    intro bs e h
    cases h
  paid := by
    intro bs b rest hok
    cases hok
    omega

theorem metered_error {e : Failure} (h : e.OfDecoding) (credit : Nat) (cost : α → Nat) :
    Metered (fun _ => .error e) credit cost where
  failure := by
    intro bs e' he
    cases he
    exact h
  paid := by
    intro bs a rest hok
    cases hok

/-- A credit that is not spent goes into what is given. -/
theorem Metered.add (h : Metered read credit cost) (more : Nat) :
    Metered read (more + credit) fun a => more + cost a where
  failure := h.failure
  paid := by
    intro bs a rest hok
    have hpaid := h.paid bs a rest hok
    omega

/-- What costs something costs no more if it is counted for less. -/
theorem Metered.mono (h : Metered read credit cost) {cost' : α → Nat} (hle : ∀ a, cost' a ≤ cost a) :
    Metered read credit cost' where
  failure := h.failure
  paid := by
    intro bs a rest hok
    have hpaid := h.paid bs a rest hok
    have hless := hle a
    omega

/-- The second of two readers spends what the first one has paid. -/
theorem Metered.bind {more : α × List UInt8 → Except Failure (β × List UInt8)} {total : β → Nat}
    (h : Metered read credit cost) (hmore : ∀ a, Metered (fun rest => more (a, rest)) (cost a) total) :
    Metered (fun bs => read bs >>= more) credit total where
  failure := by
    intro bs e he
    rcases error_of_bind he with he | ⟨⟨a, rest⟩, -, he⟩
    · exact h.failure bs e he
    · exact (hmore a).failure rest e he
  paid := by
    intro bs b rest hok
    obtain ⟨⟨a, mid⟩, hread, hok⟩ := exists_of_bind hok
    have hfirst := h.paid bs a mid hread
    have hsecond := (hmore a).paid mid b rest hok
    omega

/-- A reader that is chosen by a test which does not look at the bytes. -/
theorem Metered.ite {c : Prop} [Decidable c] {yes no : List UInt8 → Except Failure (α × List UInt8)}
    (hyes : c → Metered yes credit cost) (hno : ¬ c → Metered no credit cost) :
    Metered (fun bs => if c then yes bs else no bs) credit cost := by
  by_cases hc : c
  · simpa only [if_pos hc] using hyes hc
  · simpa only [if_neg hc] using hno hc

/-- A test of what is left that fails for what is wrong with it. -/
theorem Metered.check (h : Metered read credit cost) {test : List UInt8 → Except Failure Unit}
    (htest : ∀ bs e, test bs = .error e → e.OfDecoding) :
    Metered (fun bs => test bs >>= fun _ => read bs) credit cost where
  failure := by
    intro bs e he
    rcases error_of_bind he with he | ⟨-, -, he⟩
    · exact htest bs e he
    · exact h.failure bs e he
  paid := by
    intro bs a rest hok
    obtain ⟨-, -, hok⟩ := exists_of_bind hok
    exact h.paid bs a rest hok

/-- Things that cost a byte each cost as many bytes as there are of them. -/
theorem Metered.times {one : List UInt8 → Except Failure (α × List UInt8)}
    (h : Metered one 0 fun _ => 1) (n credit : Nat) :
    Metered (times one n) credit fun as => credit + as.length := by
  induction n generalizing credit with
  | zero => exact metered_pure (Nat.le_refl _)
  | succ n ih =>
    refine (h.add credit).bind fun a => (ih (credit + 1)).bind fun as => metered_pure ?_
    rw [List.length_cons]
    omega

/-! ### The readers of a page -/

theorem metered_bytes (n : Nat) : Metered (bytes n) 0 List.length where
  failure := by
    intro bs e h
    unfold bytes at h
    split at h
    · cases h
    · cases h
      exact .damaged _
  paid := by
    intro bs a rest h
    unfold bytes at h
    split at h
    · cases h
      simp only [List.length_drop, List.length_take]
      omega
    · cases h

theorem metered_byte : Metered byte 0 fun _ => 1 where
  failure := by
    intro bs e h
    cases bs with
    | nil =>
      cases h
      exact .damaged _
    | cons b bs => cases h
  paid := by
    intro bs a rest h
    cases bs with
    | nil => cases h
    | cons b bs =>
      cases h
      exact Nat.le_refl _

theorem metered_number : Metered number 0 fun _ => 1 where
  failure := by
    intro bs e h
    unfold number Leb128.decode at h
    split at h
    · cases h
    all_goals
      cases h
      exact .damaged _
  paid := by
    intro bs a rest h
    unfold number Leb128.decode at h
    -- of the four outcomes only a number leaves a rest
    split at h
    · next hs =>
      cases h
      exact Leb128.length_lt_of_scanWithin hs
    all_goals cases h

theorem metered_signed : Metered signed 0 fun _ => 1 :=
  metered_number.bind fun _ => metered_pure (Nat.le_refl 1)

theorem metered_word : Metered word 0 fun _ => 1 where
  failure := by
    intro bs e h
    rcases error_of_bind h with h | ⟨⟨w, rest⟩, -, h⟩
    · exact (metered_bytes 8).failure bs e h
    · cases h
  paid := by
    intro bs a rest h
    obtain ⟨⟨w, mid⟩, hbytes, h⟩ := exists_of_bind h
    unfold bytes at hbytes
    split at hbytes
    · cases hbytes
      cases h
      rw [List.length_drop]
      omega
    · cases hbytes

theorem ofDecoding_of_fits {count width : Nat} {bs : List UInt8} {e : Failure}
    (h : fits count width bs = .error e) : e.OfDecoding := by
  unfold fits at h
  split at h
  · cases h
  · cases h
    exact .damaged _

theorem metered_count (width : Nat) : Metered (count width) 0 fun _ => 1 := by
  apply metered_number.bind
  intro n
  have hkeep : Metered (fun rest => .ok (n, rest)) 1 fun _ => 1 := metered_pure (Nat.le_refl 1)
  exact hkeep.check fun bs e he => @ofDecoding_of_fits n width bs e he

theorem metered_length : Metered length 0 fun _ => 1 where
  failure := by
    intro bs e h
    rcases error_of_bind h with h | ⟨⟨n, rest⟩, -, h⟩
    · exact metered_number.failure bs e h
    · simp only at h
      split at h
      · cases h
      · cases h
        exact .damaged _
  paid := by
    intro bs a rest h
    obtain ⟨⟨n, mid⟩, hn, h⟩ := exists_of_bind h
    have hpaid := metered_number.paid bs n mid hn
    simp only at h
    split at h
    · cases h
      exact hpaid
    · cases h

/-- Bytes behind their length cost one byte more than there are of them. -/
theorem metered_prefixed : Metered prefixed 0 fun bs => 1 + bs.length :=
  metered_length.bind fun n => (metered_bytes n).add 1

end Take
end Columnar
