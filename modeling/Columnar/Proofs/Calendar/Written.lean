import Mathlib.Algebra.GroupWithZero.Nat
import Mathlib.Data.List.TakeWhile
import Columnar.Calendar.Duration

/-!
# Durations as they are written

A duration is written as an optional sign and components, or a bare zero.  A component
is a decimal number, of digits and at most one point, with the name of a unit behind it.
Names have neither digits nor points in them, so a text can be read in one way only: as
far as digits and points go it is a number, and from there to the next one a name.

Of a fraction only the first eighteen digits are looked at, and so is what they are.
What stands behind them is passed over, points too.  So besides the durations that are
properly written others are read, with points behind the eighteenth place of a fraction.

## Main definitions

* `Duration.Component`, `Duration.Written` — durations as they are written.
* `Duration.Component.Proper`, `Duration.Component.Tolerated` — numbers as they should be,
  and as they may be.
* `Duration.Component.amount`, `Duration.Written.ticks` — what is meant.

## Main results

* `Duration.total?_text`, `Duration.exists_of_total?` — components are read as they are
  written, and nothing else is.
* `Duration.parse?_of_text`, `Duration.exists_of_parse?` — and so are durations.
* `Duration.parse?_eq_some_iff_written` — **which texts are durations.**
* `Duration.not_proper_of_parse?` — not all of them are properly written.
-/

namespace Columnar

/-! ### Runs of characters -/

namespace Text

variable {p : Char → Bool} {front rest : List Char}

/-- A run of characters ends where another one comes. -/
theorem takeWhile_run (hfront : ∀ c ∈ front, p c = true) (hrest : ∀ c ∈ rest.head?, p c = false) :
    (front ++ rest).takeWhile p = front := by
  rw [List.takeWhile_append_of_pos hfront]
  cases rest with
  | nil => rw [List.takeWhile_nil, List.append_nil]
  | cons c cs => rw [List.takeWhile_cons_of_neg (by simp [hrest c rfl]), List.append_nil]

theorem dropWhile_run (hfront : ∀ c ∈ front, p c = true) (hrest : ∀ c ∈ rest.head?, p c = false) :
    (front ++ rest).dropWhile p = rest := by
  rw [List.dropWhile_append_of_pos hfront]
  cases rest with
  | nil => rfl
  | cons c cs => rw [List.dropWhile_cons_of_neg (by simp [hrest c rfl])]

end Text

namespace Ticks

/-- A count is the 64-bit number of that value. -/
theorem ofInt?_eq_some_iff {n : Int} {v : Int64} : ofInt? n = some v ↔ v.toInt = n := by
  constructor
  · exact toInt_of_ofInt?
  · intro h
    subst h
    rw [ofInt?, if_pos ⟨v.le_toInt, v.toInt_lt⟩, Int64.ofInt_toInt]

end Ticks

namespace Duration

/-! ### Components -/

/-- The names of a unit. -/
def TimeUnit.names : TimeUnit → List (List Char)
  | nanosecond => [['n', 's']]
  | microsecond => [['u', 's'], ['\u00b5', 's'], ['\u03bc', 's']]
  | millisecond => [['m', 's']]
  | second => [['s']]
  | minute => [['m']]
  | hour => [['h']]

theorem TimeUnit.ofName?_eq_some_iff {cs : List Char} {unit : TimeUnit} :
    ofName? cs = some unit ↔ cs ∈ unit.names := by
  constructor
  · intro h
    unfold ofName? at h
    split at h <;> cases h <;> simp [names]
  · intro h
    cases unit <;> simp only [names, List.mem_cons, List.not_mem_nil, or_false] at h
    case microsecond => rcases h with rfl | rfl | rfl <;> rfl
    all_goals (subst h; rfl)

/-- There are neither digits nor points in a name. -/
theorem TimeUnit.not_isNumeral_of_mem {unit : TimeUnit} {name : List Char} (h : name ∈ unit.names) :
    name ≠ [] ∧ ∀ c ∈ name, isNumeral c = false := by
  have hall : ∀ name ∈ unit.names, name ≠ [] ∧ name.any isNumeral = false := by
    cases unit <;> decide
  obtain ⟨hne, hnone⟩ := hall name h
  exact ⟨hne, fun c hc => Bool.eq_false_iff.mpr (List.any_eq_false.mp hnone c hc)⟩

/-- A component as it is written. -/
structure Component where
  whole : List Char
  /-- What stands behind the point, if there is one. -/
  fraction : Option (List Char)
  unit : TimeUnit
  name : List Char
deriving DecidableEq

namespace Component

def number (c : Component) : List Char := c.whole ++ c.fraction.elim [] ('.' :: ·)

def text (c : Component) : List Char := c.number ++ c.name

def behind (c : Component) : List Char := c.fraction.getD []

/-- The part of the fraction that is looked at. -/
def places (c : Component) : List Char := c.behind.take fractionDigits

/-- What a component comes to in nanoseconds, its fraction rounded down. -/
def amount (c : Component) : Nat :=
  Text.ofDigits c.whole * c.unit.ticks +
    Text.ofDigits c.places * c.unit.ticks / 10 ^ c.places.length

/-- A number has digits, at least one, and at most one point, and a unit has one of its names. -/
structure Proper (c : Component) : Prop where
  whole : ∀ x ∈ c.whole, x.isDigit = true
  fraction : ∀ x ∈ c.behind, x.isDigit = true
  digits : c.whole ≠ [] ∨ c.behind ≠ []
  name : c.name ∈ c.unit.names

/-- Among the digits that are not looked at there may also be points. -/
structure Tolerated (c : Component) : Prop where
  whole : ∀ x ∈ c.whole, x.isDigit = true
  places : ∀ x ∈ c.places, x.isDigit = true
  fraction : ∀ x ∈ c.behind, isNumeral x = true
  digits : c.whole ≠ [] ∨ c.behind ≠ []
  name : c.name ∈ c.unit.names

variable {c : Component}

theorem isNumeral_of_isDigit {x : Char} (h : x.isDigit = true) : isNumeral x = true := by
  rw [isNumeral, h, Bool.true_or]

theorem isDigit_of_isNumeral {x : Char} (h : isNumeral x = true) (hne : x ≠ '.') : x.isDigit = true := by
  rw [isNumeral, Bool.or_eq_true, beq_iff_eq] at h
  exact h.resolve_right hne

theorem ne_point_of_isDigit {x : Char} (h : x.isDigit = true) : x ≠ '.' := by
  rintro rfl
  exact absurd h (by decide)

theorem Proper.tolerated (h : c.Proper) : c.Tolerated where
  whole := h.whole
  places := fun x hx => h.fraction x (List.mem_of_mem_take hx)
  fraction := fun x hx => isNumeral_of_isDigit (h.fraction x hx)
  digits := h.digits
  name := h.name

/-- **What is not properly written has a point among the digits that are not looked at.** -/
theorem Tolerated.proper_or (h : c.Tolerated) : c.Proper ∨ '.' ∈ c.behind.drop fractionDigits := by
  by_cases hpoint : '.' ∈ c.behind.drop fractionDigits
  · exact Or.inr hpoint
  · refine Or.inl ⟨h.whole, fun x hx => ?_, h.digits, h.name⟩
    rw [← List.take_append_drop fractionDigits c.behind] at hx
    rcases List.mem_append.mp hx with hx | hx
    · exact h.places x hx
    · have hnumeral := h.fraction x (List.mem_of_mem_drop hx)
      exact isDigit_of_isNumeral hnumeral fun hdot => hpoint (hdot ▸ hx)

/-- The number ends where the name begins. -/
theorem Tolerated.isNumeral_number (h : c.Tolerated) : ∀ x ∈ c.number, isNumeral x = true := by
  intro x hx
  rcases List.mem_append.mp hx with hx | hx
  · exact isNumeral_of_isDigit (h.whole x hx)
  · cases hf : c.fraction with
    | none =>
      rw [hf] at hx
      cases hx
    | some f =>
      rw [hf] at hx
      rcases List.mem_cons.mp hx with rfl | hx
      · rfl
      · exact h.fraction x (by rwa [behind, hf])

theorem Tolerated.number_ne_nil (h : c.Tolerated) : c.number ≠ [] := by
  intro hnil
  obtain ⟨hwhole, hfraction⟩ := List.append_eq_nil_iff.mp hnil
  rcases h.digits with hne | hne
  · exact hne hwhole
  · cases hf : c.fraction with
    | none => exact hne (by rw [behind, hf]; rfl)
    | some f =>
      rw [hf] at hfraction
      cases hfraction

/-- Where the name begins there is neither a digit nor a point. -/
theorem Tolerated.head_name (h : c.Tolerated) (rest : List Char) :
    ∀ x ∈ (c.name ++ rest).head?, isNumeral x = false := by
  obtain ⟨hname, hnot⟩ := TimeUnit.not_isNumeral_of_mem h.name
  obtain ⟨y, ys, hys⟩ := List.exists_cons_of_ne_nil hname
  intro x hx
  rw [hys] at hx
  cases hx
  exact hnot y (hys ▸ List.mem_cons_self)

/-- A component is no bare digit. -/
theorem Tolerated.one_lt_length_text (h : c.Tolerated) : 1 < c.text.length := by
  have hnumber := List.length_pos_iff.mpr h.number_ne_nil
  have hname := List.length_pos_iff.mpr (TimeUnit.not_isNumeral_of_mem h.name).1
  rw [text, List.length_append]
  omega

/-- The number is split at its first point. -/
theorem Tolerated.split_number (h : c.Tolerated) : c.number.takeWhile (· != '.') = c.whole ∧
    (c.number.dropWhile (· != '.')).drop 1 = c.behind := by
  have hwhole : ∀ x ∈ c.whole, (x != '.') = true := fun x hx =>
    bne_iff_ne.mpr (ne_point_of_isDigit (h.whole x hx))
  have hpoint : ∀ x ∈ (c.fraction.elim [] ('.' :: ·)).head?, (x != '.') = false := by
    intro x hx
    cases hf : c.fraction with
    | none =>
      rw [hf] at hx
      cases hx
    | some f =>
      rw [hf] at hx
      cases hx
      rfl
  refine ⟨Text.takeWhile_run hwhole hpoint, ?_⟩
  rw [number, Text.dropWhile_run hwhole hpoint, behind]
  cases c.fraction <;> rfl

theorem Tolerated.amount?_number (h : c.Tolerated) : amount? c.number c.unit = some c.amount := by
  obtain ⟨hwhole, hbehind⟩ := h.split_number
  have hdigits : ¬ (c.whole.isEmpty && c.behind.isEmpty) = true := by
    rw [Bool.and_eq_true, List.isEmpty_iff, List.isEmpty_iff]
    rintro ⟨hw, hb⟩
    rcases h.digits with hne | hne
    · exact hne hw
    · exact hne hb
  unfold amount?
  simp only [hwhole, hbehind]
  rw [if_neg hdigits]
  exact if_pos (List.all_eq_true.mpr h.places)

/-- **Any number that has an amount is one that may be.** -/
theorem exists_of_amount? {number name : List Char} {unit : TimeUnit} {n : Nat}
    (h : amount? number unit = some n) (hnumber : ∀ x ∈ number, isNumeral x = true)
    (hname : name ∈ unit.names) :
    ∃ c : Component, c.Tolerated ∧ c.number = number ∧ c.name = name ∧ c.unit = unit ∧ c.amount = n := by
  unfold amount? at h
  simp only at h
  split at h
  · cases h
  · next hdigits =>
    split at h
    · next hplaces =>
      -- the number is cut at its first point, if it has one
      obtain ⟨fraction, hcut, hbehind⟩ : ∃ fraction : Option (List Char),
          number.takeWhile (· != '.') ++ fraction.elim [] ('.' :: ·) = number ∧
            (number.dropWhile (· != '.')).drop 1 = fraction.getD [] := by
        have hsplit := List.takeWhile_append_dropWhile (p := (· != '.')) (l := number)
        cases hdrop : number.dropWhile (· != '.') with
        | nil => exact ⟨none, by rwa [hdrop] at hsplit, rfl⟩
        | cons x f =>
          have hx : x = '.' := by
            have hhead := List.head?_dropWhile_not (· != '.') number
            rw [hdrop] at hhead
            simpa using hhead
          subst hx
          exact ⟨some f, by rwa [hdrop] at hsplit, rfl⟩
      rw [hbehind] at hplaces hdigits h
      refine ⟨⟨number.takeWhile (· != '.'), fraction, unit, name⟩,
        ⟨fun x hx => ?_, ?_, fun x hx => ?_, ?_, hname⟩,
        hcut, rfl, rfl, Option.some.inj h⟩
      · have hnumeral := hnumber x ((List.takeWhile_prefix _).subset hx)
        have hpoint := List.mem_takeWhile_imp (p := (· != '.')) hx
        exact isDigit_of_isNumeral hnumeral (bne_iff_ne.mp hpoint)
      · exact List.all_eq_true.mp hplaces
      · refine hnumber x ?_
        rw [← hcut]
        cases fraction with
        | none => cases hx
        | some f => exact List.mem_append_right _ (List.mem_cons_of_mem _ hx)
      · rw [Bool.and_eq_true, List.isEmpty_iff, List.isEmpty_iff, not_and_or] at hdigits
        exact hdigits
    · cases h

end Component

/-! ### Components in a row -/

theorem total?_nil : total? [] = some 0 := by rw [total?]

/-- A text that begins with a number: the amount up to the next number, and the rest. -/
theorem total?_of_numeral {c : Char} (cs : List Char) (hc : isNumeral c = true) :
    total? (c :: cs) = (TimeUnit.ofName? ((cs.dropWhile isNumeral).takeWhile (!isNumeral ·))).bind fun unit =>
      (amount? (c :: cs.takeWhile isNumeral) unit).bind fun amount =>
        (total? ((cs.dropWhile isNumeral).dropWhile (!isNumeral ·))).map (amount + ·) := by
  rw [total?, if_pos hc]
  simp only [Option.bind_eq_bind, Option.pure_def, Option.map_eq_bind]
  rfl

theorem total?_of_not_numeral {c : Char} (cs : List Char) (hc : ¬ isNumeral c = true) :
    total? (c :: cs) = none := by
  rw [total?, if_neg hc]

/-- **A component is read up to the next one.** -/
theorem total?_text {c : Component} (h : c.Tolerated) {rest : List Char}
    (hrest : ∀ x ∈ rest.head?, isNumeral x = true) :
    total? (c.text ++ rest) = (total? rest).map (c.amount + ·) := by
  obtain ⟨x, tail, hnumber⟩ := List.exists_cons_of_ne_nil h.number_ne_nil
  have hnumerals := h.isNumeral_number
  rw [hnumber] at hnumerals
  have hnot := (TimeUnit.not_isNumeral_of_mem h.name).2
  -- the number ends where the name begins, and the name where the rest does
  have htail : ∀ y ∈ tail, isNumeral y = true := fun y hy => hnumerals y (List.mem_cons_of_mem x hy)
  have hbegin := h.head_name rest
  have hname' : ∀ y ∈ c.name, (!isNumeral y) = true := fun y hy => by rw [hnot y hy]; rfl
  have hrest' : ∀ y ∈ rest.head?, (!isNumeral y) = false := fun y hy => by rw [hrest y hy]; rfl
  have hunit := TimeUnit.ofName?_eq_some_iff.mpr h.name
  have htext : c.text ++ rest = x :: (tail ++ (c.name ++ rest)) := by
    rw [Component.text, hnumber, List.append_assoc, List.cons_append]
  rw [htext, total?_of_numeral _ (hnumerals x List.mem_cons_self), Text.takeWhile_run htail hbegin,
    Text.dropWhile_run htail hbegin, Text.takeWhile_run hname' hrest', Text.dropWhile_run hname' hrest',
    hunit, Option.bind_some, ← hnumber, h.amount?_number, Option.bind_some]

/-- Components begin with a number. -/
theorem head_texts {cs : List Component} (h : ∀ c ∈ cs, c.Tolerated) :
    ∀ x ∈ (cs.flatMap Component.text).head?, isNumeral x = true := by
  cases cs with
  | nil => simp
  | cons c cs =>
    have hc := h c List.mem_cons_self
    obtain ⟨x, tail, hnumber⟩ := List.exists_cons_of_ne_nil hc.number_ne_nil
    intro y hy
    rw [List.flatMap_cons, Component.text, hnumber] at hy
    cases hy
    exact hc.isNumeral_number x (hnumber ▸ List.mem_cons_self)

/-- **Components come to what they come to together.** -/
theorem total?_texts {cs : List Component} (h : ∀ c ∈ cs, c.Tolerated) :
    total? (cs.flatMap Component.text) = some (cs.map Component.amount).sum := by
  induction cs with
  | nil => exact total?_nil
  | cons c cs ih =>
    have hcs := fun k hk => h k (List.mem_cons_of_mem c hk)
    rw [List.flatMap_cons, total?_text (h c List.mem_cons_self) (head_texts hcs), ih hcs]
    rfl

/-- **What is read as components is components.** -/
theorem exists_of_total? {cs : List Char} {n : Nat} (h : total? cs = some n) : ∃ ds : List Component,
    (∀ d ∈ ds, d.Tolerated) ∧ cs = ds.flatMap Component.text ∧ n = (ds.map Component.amount).sum := by
  induction cs using total?.induct generalizing n with
  | case1 =>
    rw [total?_nil] at h
    cases h
    exact ⟨[], by simp, rfl, rfl⟩
  | @case2 c cs hc rest ih =>
    rw [total?_of_numeral cs hc] at h
    obtain ⟨unit, hunit, h⟩ := Option.bind_eq_some_iff.mp h
    obtain ⟨amount, hamount, h⟩ := Option.bind_eq_some_iff.mp h
    obtain ⟨others, hothers, rfl⟩ := Option.map_eq_some_iff.mp h
    have hnumber : ∀ x ∈ c :: cs.takeWhile isNumeral, isNumeral x = true :=
      List.forall_mem_cons.mpr ⟨hc, fun x hx => List.mem_takeWhile_imp hx⟩
    obtain ⟨d, hd, hdnumber, hdname, -, rfl⟩ :=
      Component.exists_of_amount? hamount hnumber (TimeUnit.ofName?_eq_some_iff.mp hunit)
    obtain ⟨ds, hds, hrest, rfl⟩ := ih hothers
    refine ⟨d :: ds, List.forall_mem_cons.mpr ⟨hd, hds⟩, ?_, rfl⟩
    calc c :: cs
        = (c :: cs.takeWhile isNumeral) ++ cs.dropWhile isNumeral := by
          rw [List.cons_append, List.takeWhile_append_dropWhile]
      _ = d.number ++ (d.name ++ ds.flatMap Component.text) := by
          rw [hdnumber, hdname, ← hrest, List.takeWhile_append_dropWhile]
      _ = (d :: ds).flatMap Component.text := by
          rw [List.flatMap_cons, Component.text, List.append_assoc]
  | case3 c cs hc =>
    rw [total?_of_not_numeral cs hc] at h
    cases h

/-! ### Durations -/

inductive Sign where
  | none
  | plus
  | minus
deriving DecidableEq

def Sign.text : Sign → List Char
  | none => []
  | plus => ['+']
  | minus => ['-']

/-- A duration as it is written.  A bare zero has no components. -/
structure Written where
  sign : Sign
  components : List Component
deriving DecidableEq

namespace Written

def text (d : Written) : List Char :=
  d.sign.text ++ if d.components.isEmpty then ['0'] else d.components.flatMap Component.text

/-- What a duration comes to in nanoseconds. -/
def ticks (d : Written) : Int :=
  let total : Nat := (d.components.map Component.amount).sum
  if d.sign = .minus then -total else total

/-- All components are as they should be. -/
def Proper (d : Written) : Prop := ∀ c ∈ d.components, c.Proper

/-- All components are as they may be. -/
def Tolerated (d : Written) : Prop := ∀ c ∈ d.components, c.Tolerated

theorem Proper.tolerated {d : Written} (h : d.Proper) : d.Tolerated := fun c hc => (h c hc).tolerated

end Written

/-- A sign is taken off a text that has only one. -/
theorem takeSign_text (sign : Sign) {body : List Char} (hbody : ∀ x ∈ body.head?, isNumeral x = true) :
    Text.takeSign (sign.text ++ body) = (decide (sign = .minus), body) := by
  cases sign with
  | none =>
    cases body with
    | nil => rfl
    | cons x body =>
      have hx := hbody x rfl
      unfold Text.takeSign
      split
      · next heq =>
        cases heq
        exact absurd hx (by decide)
      · next heq =>
        cases heq
        exact absurd hx (by decide)
      · rfl
  | plus => rfl
  | minus => rfl

theorem exists_of_takeSign (cs : List Char) : ∃ sign : Sign,
    cs = sign.text ++ (Text.takeSign cs).2 ∧ (Text.takeSign cs).1 = decide (sign = .minus) := by
  unfold Text.takeSign
  split
  · exact ⟨.minus, rfl, rfl⟩
  · exact ⟨.plus, rfl, rfl⟩
  · exact ⟨.none, rfl, rfl⟩

/-- **A duration is read as it is written.** -/
theorem parse?_of_text {d : Written} (h : d.Tolerated) {cs : List Char} (hcs : Text.trim cs = d.text) :
    parse? cs = Ticks.ofInt? d.ticks := by
  obtain ⟨sign, ds⟩ := d
  unfold parse?
  rw [hcs, Written.text]
  cases ds with
  | nil => cases sign <;> rfl
  | cons c ds =>
    have hhead := head_texts h
    have htotal := total?_texts h
    simp only [List.isEmpty_cons, Bool.false_eq_true, if_false]
    rw [takeSign_text sign hhead]
    have hlen : 1 < ((c :: ds).flatMap Component.text).length := by
      rw [List.flatMap_cons, List.length_append]
      exact Nat.lt_add_right _ (h c List.mem_cons_self).one_lt_length_text
    have hne : (c :: ds).flatMap Component.text ≠ [] := List.ne_nil_of_length_pos (Nat.zero_lt_of_lt hlen)
    have hzero : (c :: ds).flatMap Component.text ≠ ['0'] := fun heq =>
      absurd hlen (by rw [heq]; decide)
    simp only [htotal, if_neg hzero, List.isEmpty_iff, if_neg hne, decide_eq_true_eq]
    rfl

/-- **What is read as a duration is one.** -/
theorem exists_of_parse? {cs : List Char} {v : Int64} (h : parse? cs = some v) :
    ∃ d : Written, d.Tolerated ∧ Text.trim cs = d.text ∧ v.toInt = d.ticks := by
  obtain ⟨sign, htrim, hnegative⟩ := exists_of_takeSign (Text.trim cs)
  unfold parse? at h
  simp only at h
  split at h
  · next hzero =>
    cases h
    refine ⟨⟨sign, []⟩, fun c hc => absurd hc List.not_mem_nil, ?_, ?_⟩
    · rw [htrim, hzero]
      rfl
    · cases sign <;> rfl
  · split at h
    · cases h
    · next hne =>
      obtain ⟨total, htotal, hv⟩ := Option.bind_eq_some_iff.mp h
      obtain ⟨ds, hds, hbody, rfl⟩ := exists_of_total? htotal
      rw [hnegative] at hv
      refine ⟨⟨sign, ds⟩, hds, ?_, ?_⟩
      · have hsome : ds.isEmpty = false := by
          cases ds with
          | nil => exact absurd hbody (by simpa using hne)
          | cons d ds => rfl
        rw [Written.text, hsome, htrim, hbody]
        rfl
      · rw [Ticks.ofInt?_eq_some_iff.mp hv, Written.ticks]
        simp only [decide_eq_true_eq]

/-- **Which texts are durations, and what they come to.**  They are signs and components that come to a
number that fits; and either they are written as they should be, or there is a point behind the eighteenth
place of a fraction. -/
theorem parse?_eq_some_iff_written {cs : List Char} {v : Int64} : parse? cs = some v ↔ ∃ d : Written,
    Text.trim cs = d.text ∧ v.toInt = d.ticks ∧ d.Tolerated ∧
      (d.Proper ∨ ∃ c ∈ d.components, '.' ∈ c.behind.drop fractionDigits) := by
  constructor
  · intro h
    obtain ⟨d, hd, htext, hticks⟩ := exists_of_parse? h
    refine ⟨d, htext, hticks, hd, ?_⟩
    by_cases hproper : d.Proper
    · exact Or.inl hproper
    · obtain ⟨c, hc⟩ := not_forall.mp hproper
      obtain ⟨hc, himproper⟩ := Classical.not_imp.mp hc
      exact Or.inr ⟨c, hc, (hd c hc).proper_or.resolve_left himproper⟩
  · rintro ⟨d, htext, hticks, hd, -⟩
    rw [parse?_of_text hd htext]
    exact Ticks.ofInt?_eq_some_iff.mpr hticks

/-- One second, with another point behind the eighteenth place. -/
def twoPoints : Written :=
  ⟨.none, [⟨['1'], some (List.replicate 18 '0' ++ ['.']), .second, ['s']⟩]⟩

theorem tolerated_twoPoints : twoPoints.Tolerated := by
  refine List.forall_mem_singleton.mpr ⟨?_, ?_, ?_, Or.inl (List.cons_ne_nil _ _), by decide⟩
  · exact List.all_eq_true.mp (by decide)
  · exact List.all_eq_true.mp (by decide)
  · exact List.all_eq_true.mp (by decide)

/-- **Not everything that is read as a duration is properly written.** -/
theorem not_proper_of_parse? : ¬ ∀ (cs : List Char) (v : Int64), parse? cs = some v →
    ∃ d : Written, d.Proper ∧ Text.trim cs = d.text := by
  intro hall
  have htrim : Text.trim twoPoints.text = twoPoints.text := by decide
  have hparse : parse? twoPoints.text = some 1000000000 := by
    rw [parse?_of_text tolerated_twoPoints htrim]
    decide
  obtain ⟨⟨sign, ds⟩, hd, htext⟩ := hall _ _ hparse
  rw [htrim] at htext
  cases ds with
  | nil => cases sign <;> exact absurd htext (by decide)
  | cons c ds =>
    have hc := hd c List.mem_cons_self
    cases sign with
    | plus => cases htext
    | minus => cases htext
    | none =>
      -- the first number has both points in it
      have htext : twoPoints.text = c.number ++ (c.name ++ ds.flatMap Component.text) := by
        rw [htext, ← List.append_assoc]
        rfl
      have hnumber := congrArg (List.takeWhile isNumeral) htext
      rw [Text.takeWhile_run hc.tolerated.isNumeral_number (hc.tolerated.head_name _)] at hnumber
      have hbehind := hc.tolerated.split_number.2
      rw [← hnumber] at hbehind
      exact absurd (hc.fraction '.' (hbehind ▸ by decide)) (by decide)

end Duration
end Columnar
