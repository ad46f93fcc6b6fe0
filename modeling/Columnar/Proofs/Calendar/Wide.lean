import Columnar.Proofs.Calendar.Written

/-!
# Durations in words of 128 bits

The amounts of a duration may be added up in signed words of 128 bits, in one pass over
the text.  A number is read into a word if it fits, and the whole part of a component is
multiplied and added with checks.  The fraction has at most eighteen digits, so that it
can be multiplied by the longest unit without one, and is divided by a power of ten that
fits too.

A check that fails ends the pass, although there may be more text.  That is no loss.
Nothing is ever taken away from the sum, so a sum that is beyond 128 bits stays so,
whatever follows, and is beyond 64 bits in the end; and a text that is no duration is
refused anyway.  So the pass comes to what the numbers come to that have no bounds.

## Main definitions

* `Duration.Wide.parse` — the pass over a text in words of 128 bits.
* `Duration.Written.Exact` — a text comes to what is written there.

## Main results

* `Duration.Wide.addAmount_eq`, `Duration.Wide.totalFrom_eq` — a component, and the rest
  of a text, are added to the sum if that fits.
* `Duration.Wide.parse_eq` — the pass comes to the ticks of the text.
* `Duration.exact_of_proper` — **what is properly written has its exact value.**
-/

namespace Columnar

/-- Digits spell less than the power of ten that they are as many as. -/
theorem Text.ofDigits_lt {ds : List Char} (h : ∀ c ∈ ds, c.isDigit = true) :
    Text.ofDigits ds < 10 ^ ds.length := by
  have hfrom : ∀ n, ds.foldl (fun n c => 10 * n + Text.digitValue c) n < (n + 1) * 10 ^ ds.length := by
    induction ds with
    | nil =>
      intro n
      rw [List.foldl_nil, List.length_nil]
      omega
    | cons c ds ih =>
      intro n
      have hdigit : Text.digitValue c < 10 := by
        have hc := h c List.mem_cons_self
        simp only [Char.isDigit, Bool.and_eq_true, decide_eq_true_eq, UInt32.le_iff_toNat_le] at hc
        have hlow : c.val.toNat ≤ 57 := hc.2
        show c.val.toNat - 48 < 10
        omega
      rw [List.foldl_cons, List.length_cons]
      calc ds.foldl (fun n c => 10 * n + Text.digitValue c) (10 * n + Text.digitValue c)
          < (10 * n + Text.digitValue c + 1) * 10 ^ ds.length :=
            ih (fun x hx => h x (List.mem_cons_of_mem c hx)) _
        _ ≤ (10 * (n + 1)) * 10 ^ ds.length := Nat.mul_le_mul_right _ (by omega)
        _ = (n + 1) * 10 ^ (ds.length + 1) := by rw [Nat.pow_succ]; ac_rfl
  simpa [Text.ofDigits] using hfrom 0

namespace Duration
namespace Wide

/-! ### Words -/

/-- Why a pass ends early. -/
inductive Stop where
  /-- A check has failed. -/
  | refused
  /-- A step that is not checked has left the range of a word. -/
  | overflow
deriving DecidableEq, Repr

/-- The number is a word. -/
def InRange (n : Int) : Prop := -2 ^ 127 ≤ n ∧ n < 2 ^ 127

instance (n : Int) : Decidable (InRange n) := inferInstanceAs (Decidable (_ ∧ _))

/-- The word of a number, if it is one. -/
def word (stop : Stop) (n : Int) : Except Stop Int := if InRange n then .ok n else .error stop

/-- An answer, or none. -/
def ofOption {α : Type} : Option α → Except Stop α
  | some a => .ok a
  | none => .error .refused

/-- Add a fraction of a unit to a sum. -/
def addFraction (total : Int) (places : List Char) (unit : TimeUnit) : Except Stop Int :=
  if places.isEmpty then .ok total
  else if places.all Char.isDigit then do
    let m ← word .refused (Text.ofDigits places)
    let scale ← word .overflow (10 ^ places.length)
    let scaled ← word .overflow (m * unit.ticks)
    word .refused (total + scaled.tdiv scale)
  else .error .refused

/-- Add a number of units to a sum. -/
def addAmount (total : Int) (number : List Char) (unit : TimeUnit) : Except Stop Int :=
  let whole := number.takeWhile (· != '.')
  let fraction := (number.dropWhile (· != '.')).drop 1
  if whole.isEmpty && fraction.isEmpty then .error .refused
  else do
    let n ← word .refused (Text.ofDigits whole)
    let product ← word .refused (n * unit.ticks)
    let total ← word .refused (total + product)
    addFraction total (fraction.take fractionDigits) unit

/-- Add the components of a text to a sum. -/
def totalFrom (total : Int) : List Char → Except Stop Int
  | [] => .ok total
  | c :: cs =>
    if isNumeral c then do
      let number := c :: cs.takeWhile isNumeral
      let rest := cs.dropWhile isNumeral
      let unit ← ofOption (TimeUnit.ofName? (rest.takeWhile (!isNumeral ·)))
      let total ← addAmount total number unit
      totalFrom total (rest.dropWhile (!isNumeral ·))
    else .error .refused
termination_by cs => cs.length
decreasing_by
  have h := (List.dropWhile_sublist (l := cs) isNumeral).length_le
  have h' := (List.dropWhile_sublist (l := cs.dropWhile isNumeral) (!isNumeral ·)).length_le
  simp only [List.length_cons]
  omega

/-- The ticks of a text that is a duration, in one pass. -/
def parse (cs : List Char) : Except Stop Int64 :=
  let (negative, body) := Text.takeSign (Text.trim cs)
  if body = ['0'] then .ok 0
  else if body.isEmpty then .error .refused
  else do
    let total ← totalFrom 0 body
    let signed ← if negative then word .overflow (-total) else pure total
    ofOption (Ticks.ofInt? signed)

variable {m n : Int}

theorem ofOption_some_bind {α β : Type} (a : α) (f : α → Except Stop β) :
    (ofOption (some a) >>= f) = f a := rfl

theorem ofOption_none_bind {α β : Type} (f : α → Except Stop β) :
    (ofOption none >>= f) = .error .refused := rfl

theorem word_of_inRange (stop : Stop) (h : InRange n) : word stop n = .ok n := if_pos h

theorem word_of_not_inRange (stop : Stop) (h : ¬ InRange n) : word stop n = .error stop := if_neg h

/-- Below a word that is not negative there are only words. -/
theorem InRange.of_le (h : InRange n) (h0 : 0 ≤ m) (hle : m ≤ n) : InRange m := by
  unfold InRange at *
  omega

/-- **A check on the way to a greater number refuses nothing that the last one would not.** -/
theorem word_bind (h0 : 0 ≤ m) (hle : m ≤ n) {f : Int → Except Stop Int}
    (hf : InRange m → f m = word .refused n) : (word .refused m >>= f) = word .refused n := by
  by_cases hm : InRange m
  · rw [word_of_inRange _ hm]
    exact hf hm
  · rw [word_of_not_inRange _ hm, word_of_not_inRange _ fun hn => hm (hn.of_le h0 hle)]
    rfl

theorem word_bind_of_inRange {α : Type} (stop : Stop) (h : InRange m) (f : Int → Except Stop α) :
    (word stop m >>= f) = f m := by
  rw [word_of_inRange _ h]
  rfl

theorem word_bind_refused {f : Int → Except Stop Int} (hf : InRange m → f m = .error .refused) :
    (word .refused m >>= f) = .error .refused := by
  unfold word
  split
  · next hm => exact hf hm
  · rfl

/-! ### One component -/

/-- The longest unit is an hour. -/
theorem ticks_le (unit : TimeUnit) : 1 ≤ unit.ticks ∧ unit.ticks ≤ 3600000000000 := by
  cases unit <;> decide

/-- **A fraction needs no checks.** -/
theorem fraction_inRange {places : List Char} (hdigits : ∀ c ∈ places, c.isDigit = true)
    (hlen : places.length ≤ fractionDigits) (unit : TimeUnit) :
    InRange (Text.ofDigits places) ∧ InRange (10 ^ places.length) ∧
      InRange ((Text.ofDigits places : Int) * unit.ticks) := by
  have hlt := Text.ofDigits_lt hdigits
  have hpow : 10 ^ places.length ≤ 10 ^ 18 := Nat.pow_le_pow_right (by decide) hlen
  have hmul : Text.ofDigits places * unit.ticks ≤ 10 ^ 18 * 3600000000000 :=
    Nat.mul_le_mul (by omega) (ticks_le unit).2
  have hscale : ((10 ^ places.length : Nat) : Int) = 10 ^ places.length := Int.natCast_pow 10 _
  have hproduct := Int.natCast_mul (Text.ofDigits places) unit.ticks
  unfold InRange
  omega

theorem addFraction_eq {total : Nat} (htotal : InRange total) {places : List Char}
    (hlen : places.length ≤ fractionDigits) (unit : TimeUnit) :
    addFraction total places unit =
      if places.all Char.isDigit then
        word .refused (total + Text.ofDigits places * unit.ticks / 10 ^ places.length : Nat)
      else .error .refused := by
  unfold addFraction
  by_cases hnone : places.isEmpty = true
  · rw [if_pos hnone, List.isEmpty_iff.mp hnone]
    simp [Text.ofDigits, word_of_inRange _ htotal]
  rw [if_neg hnone]
  by_cases hdigits : places.all Char.isDigit = true
  · rw [if_pos hdigits, if_pos hdigits]
    obtain ⟨hm, hscale, hscaled⟩ := fraction_inRange (List.all_eq_true.mp hdigits) hlen unit
    have hquotient : ((Text.ofDigits places : Int) * unit.ticks).tdiv (10 ^ places.length) =
        (Text.ofDigits places * unit.ticks / 10 ^ places.length : Nat) := by
      rw [Int.ofNat_tdiv, Int.natCast_mul, Int.natCast_pow]
      rfl
    rw [word_bind_of_inRange _ hm, word_bind_of_inRange _ hscale, word_bind_of_inRange _ hscaled,
      hquotient, ← Int.natCast_add]
  · rw [if_neg hdigits, if_neg hdigits]

/-- **An amount is added to the sum if that fits.** -/
theorem addAmount_eq (total : Nat) (number : List Char) (unit : TimeUnit) :
    addAmount total number unit =
      (ofOption (amount? number unit) >>= fun amount => word .refused (total + amount : Nat)) := by
  unfold addAmount amount?
  simp only
  generalize number.takeWhile (· != '.') = whole
  generalize (number.dropWhile (· != '.')).drop 1 = fraction
  by_cases hnone : (whole.isEmpty && fraction.isEmpty) = true
  · rw [if_pos hnone, if_pos hnone]
    rfl
  rw [if_neg hnone, if_neg hnone]
  have hlen : (fraction.take fractionDigits).length ≤ fractionDigits := List.length_take_le _ _
  generalize fraction.take fractionDigits = places at hlen
  have hwhole : Text.ofDigits whole ≤ Text.ofDigits whole * unit.ticks :=
    Nat.le_mul_of_pos_right _ (ticks_le unit).1
  by_cases hdigits : places.all Char.isDigit = true
  · obtain ⟨part, hpart⟩ : ∃ n, Text.ofDigits places * unit.ticks / 10 ^ places.length = n := ⟨_, rfl⟩
    rw [if_pos hdigits, ofOption_some_bind, hpart]
    -- each check on the way is of a number that is not greater than the sum
    refine word_bind (Int.natCast_nonneg _) (Int.ofNat_le.mpr (by omega)) fun _ => ?_
    rw [← Int.natCast_mul]
    refine word_bind (Int.natCast_nonneg _) (Int.ofNat_le.mpr (by omega)) fun _ => ?_
    rw [← Int.natCast_add]
    refine word_bind (Int.natCast_nonneg _) (Int.ofNat_le.mpr (by omega)) fun hsum => ?_
    rw [addFraction_eq hsum hlen, if_pos hdigits, hpart, Nat.add_assoc]
  · rw [if_neg hdigits, ofOption_none_bind]
    refine word_bind_refused fun _ => word_bind_refused fun _ => word_bind_refused fun _ => ?_
    have hnil : ¬ places.isEmpty = true := by
      intro hnil
      rw [List.isEmpty_iff.mp hnil] at hdigits
      exact hdigits rfl
    rw [addFraction, if_neg hnil, if_neg hdigits]

/-! ### A whole text -/

theorem totalFrom_nil (total : Int) : totalFrom total [] = .ok total := by rw [totalFrom]

theorem totalFrom_of_numeral (total : Int) {c : Char} (cs : List Char) (hc : isNumeral c = true) :
    totalFrom total (c :: cs) =
      (ofOption (TimeUnit.ofName? ((cs.dropWhile isNumeral).takeWhile (!isNumeral ·))) >>= fun unit =>
        addAmount total (c :: cs.takeWhile isNumeral) unit >>= fun total =>
          totalFrom total ((cs.dropWhile isNumeral).dropWhile (!isNumeral ·))) := by
  rw [totalFrom, if_pos hc]

/-- **What a text comes to is added to the sum if that fits.** -/
theorem totalFrom_eq {total : Nat} (htotal : InRange total) (cs : List Char) :
    totalFrom total cs = (ofOption (total? cs) >>= fun n => word .refused (total + n : Nat)) := by
  induction cs using total?.induct generalizing total with
  | case1 => rw [totalFrom_nil, total?_nil, ofOption_some_bind, Nat.add_zero, word_of_inRange _ htotal]
  | @case2 c cs hc rest ih =>
    rw [totalFrom_of_numeral _ cs hc, total?_of_numeral cs hc]
    cases TimeUnit.ofName? ((cs.dropWhile isNumeral).takeWhile (!isNumeral ·)) with
    | none => rfl
    | some unit =>
      rw [ofOption_some_bind, Option.bind_some, addAmount_eq]
      cases amount? (c :: cs.takeWhile isNumeral) unit with
      | none => rfl
      | some amount =>
        rw [ofOption_some_bind, Option.bind_some]
        cases htotal? : total? ((cs.dropWhile isNumeral).dropWhile (!isNumeral ·)) with
        | none =>
          -- the rest is refused
          refine word_bind_refused fun hsum => ?_
          rw [ih hsum, htotal?]
          rfl
        | some n =>
          -- a sum that is beyond a word stays so, whatever is added
          rw [Option.map_some, ofOption_some_bind]
          refine word_bind (Int.natCast_nonneg _) (Int.ofNat_le.mpr (by omega)) fun hsum => ?_
          rw [ih hsum, htotal?, ofOption_some_bind, Nat.add_assoc]
  | case3 c cs hc =>
    rw [total?_of_not_numeral cs hc, totalFrom, if_neg hc]
    rfl

/-- **The pass comes to the ticks of the text.** -/
theorem parse_eq (cs : List Char) : parse cs = ofOption (parse? cs) := by
  unfold parse parse?
  generalize Text.takeSign (Text.trim cs) = x
  obtain ⟨negative, body⟩ := x
  simp only
  by_cases hzero : body = ['0']
  · rw [if_pos hzero, if_pos hzero]
    rfl
  rw [if_neg hzero, if_neg hzero]
  by_cases hnone : body.isEmpty = true
  · rw [if_pos hnone, if_pos hnone]
    rfl
  have htotal : totalFrom 0 body = _ := @totalFrom_eq 0 (by decide) body
  rw [if_neg hnone, if_neg hnone, htotal]
  cases total? body with
  | none => rfl
  | some n =>
    rw [ofOption_some_bind, Nat.zero_add, Option.bind_eq_bind, Option.bind_some]
    by_cases hn : InRange n
    · rw [word_bind_of_inRange _ hn]
      cases negative with
      | false => rw [if_neg Bool.false_ne_true, if_neg Bool.false_ne_true, pure_bind]
      | true =>
        have hneg : InRange (-n) := by
          unfold InRange at *
          omega
        rw [if_pos rfl, if_pos rfl, word_bind_of_inRange _ hneg]
    · -- what is beyond a word of 128 bits is beyond one of 64 bits
      have hbeyond : Ticks.ofInt? (if negative then -(n : Int) else n) = none := by
        refine if_neg ?_
        unfold InRange at hn
        split <;> omega
      rw [word_of_not_inRange _ hn, hbeyond]
      rfl

theorem parse_ne_overflow (cs : List Char) : parse cs ≠ .error .overflow := by
  rw [parse_eq]
  cases parse? cs with
  | none => exact fun h => nomatch h
  | some v => exact fun h => nomatch h

end Wide

/-! ### What is properly written -/

/-- A text comes to exactly what is written there. -/
structure Written.Exact (d : Written) (cs : List Char) : Prop where
  /-- The number is a count of ticks, the least one included. -/
  fits : -2 ^ 63 ≤ d.ticks → d.ticks < 2 ^ 63 → ∃ v : Int64, parse? cs = some v ∧ v.toInt = d.ticks
  /-- The number is beyond the counts of ticks. -/
  beyond : ¬ (-2 ^ 63 ≤ d.ticks ∧ d.ticks < 2 ^ 63) → parse? cs = none
  /-- Words of 128 bits do as well. -/
  wide : Wide.parse cs = Wide.ofOption (parse? cs)
  /-- The steps that are not checked need no check. -/
  unchecked : Wide.parse cs ≠ .error .overflow

/-- **What is properly written has its exact value.** -/
theorem exact_of_proper {d : Written} (hd : d.Proper) {cs : List Char} (hcs : Text.trim cs = d.text) :
    d.Exact cs where
  fits hlow hhigh := by
    have hv : Ticks.ofInt? d.ticks = some (Int64.ofInt d.ticks) := if_pos ⟨hlow, hhigh⟩
    rw [parse?_of_text hd.tolerated hcs]
    exact ⟨_, hv, Ticks.ofInt?_eq_some_iff.mp hv⟩
  beyond hout := by
    rw [parse?_of_text hd.tolerated hcs]
    exact if_neg hout
  wide := Wide.parse_eq cs
  unchecked := Wide.parse_ne_overflow cs

/-- The least count of ticks, with a fraction that is not a whole number of them. -/
def least : Written :=
  ⟨.minus, [⟨"2562047".toList, none, .hour, ['h']⟩, ⟨"47".toList, none, .minute, ['m']⟩,
    ⟨"16".toList, some "8547758089".toList, .second, ['s']⟩]⟩

theorem exact_of_proper_least : least.Proper ∧ least.ticks = -2 ^ 63 ∧
    Text.trim " -2562047h47m16.8547758089s ".toList = least.text ∧
    ∃ v : Int64, parse? " -2562047h47m16.8547758089s ".toList = some v ∧ v.toInt = -2 ^ 63 := by
  have hproper : least.Proper := by
    refine List.forall_mem_cons.mpr ⟨?_, List.forall_mem_cons.mpr ⟨?_, List.forall_mem_singleton.mpr ?_⟩⟩
    all_goals exact ⟨List.all_eq_true.mp (by decide), List.all_eq_true.mp (by decide),
      Or.inl (by decide), by decide⟩
  have hticks : least.ticks = -2 ^ 63 := by decide
  have htrim : Text.trim " -2562047h47m16.8547758089s ".toList = least.text := by decide
  refine ⟨hproper, hticks, htrim, ?_⟩
  obtain ⟨v, hv, hvalue⟩ := (exact_of_proper hproper htrim).fits (by decide) (by decide)
  exact ⟨v, hv, hvalue.trans hticks⟩

end Duration
end Columnar
