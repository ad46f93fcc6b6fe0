import Mathlib.Data.List.Forall2
import Columnar.Bytes.Word

/-!
# Spellings that show where they end

What is spelled one thing after the other can be told apart only if each spelling
shows where it ends: by a mark that it does not hold itself, by its length, or by a
count of parts that do.  Then from two equal texts, whatever follows in each, the
first things are equal, and so is what follows.

## Main results

* `append_mark_inj` — a mark ends what does not hold it.
* `Word.toBytes_append_inj` — a word ends after its eight bytes.
* `forall₂_of_flatMap_append` — as many parts end where the last of them does.
-/

namespace Columnar

/-- A mark ends what does not hold it. -/
theorem append_mark_inj {α : Type} {mark : α} {xs ys r r' : List α} (hx : mark ∉ xs)
    (hy : mark ∉ ys) (h : xs ++ mark :: r = ys ++ mark :: r') : xs = ys ∧ r = r' := by
  induction xs generalizing ys with
  | nil =>
    cases ys with
    | nil => exact ⟨rfl, (List.cons.inj h).2⟩
    | cons y ys => exact absurd ((List.cons.inj h).1 ▸ List.mem_cons_self) hy
  | cons x xs ih =>
    cases ys with
    | nil => exact absurd ((List.cons.inj h).1 ▸ List.mem_cons_self) hx
    | cons y ys =>
      obtain ⟨rfl, htail⟩ := List.cons.inj h
      obtain ⟨rfl, hrest⟩ := ih (fun hm => hx (List.mem_cons_of_mem _ hm))
        (fun hm => hy (List.mem_cons_of_mem _ hm)) htail
      exact ⟨rfl, hrest⟩

/-- A word ends after its eight bytes. -/
theorem Word.toBytes_append_inj {v w : UInt64} {r r' : List UInt8}
    (h : toBytes v ++ r = toBytes w ++ r') : v = w ∧ r = r' := by
  obtain ⟨hbytes, hrest⟩ := List.append_inj h (by simp)
  have hword := congrArg ofBytes hbytes
  exact ⟨by simpa using hword, hrest⟩

/-- As many parts end where the last of them does. -/
theorem forall₂_of_flatMap_append {α : Type} {spell : α → List UInt8} {Same : α → α → Prop}
    {as bs : List α} (hlen : as.length = bs.length)
    (hparts : ∀ a ∈ as, ∀ b ∈ bs, ∀ r r', spell a ++ r = spell b ++ r' → Same a b ∧ r = r')
    {r r' : List UInt8} (h : as.flatMap spell ++ r = bs.flatMap spell ++ r') :
    List.Forall₂ Same as bs ∧ r = r' := by
  induction as generalizing bs with
  | nil =>
    obtain rfl := List.eq_nil_of_length_eq_zero hlen.symm
    exact ⟨.nil, h⟩
  | cons a as ih =>
    cases bs with
    | nil => cases hlen
    | cons b bs =>
      rw [List.flatMap_cons, List.flatMap_cons, List.append_assoc, List.append_assoc] at h
      obtain ⟨hfirst, htail⟩ := hparts a List.mem_cons_self b List.mem_cons_self _ _ h
      have hrest : ∀ a ∈ as, ∀ b ∈ bs, ∀ r r', spell a ++ r = spell b ++ r' → Same a b ∧ r = r' :=
        fun a ha b hb => hparts a (List.mem_cons_of_mem _ ha) b (List.mem_cons_of_mem _ hb)
      obtain ⟨hall, hbehind⟩ := ih (Nat.succ.inj hlen) hrest htail
      exact ⟨.cons hfirst hall, hbehind⟩

end Columnar
