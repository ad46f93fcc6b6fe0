import Columnar.Column.Blobs

/-!
# A store as a list of byte strings

What an arena amounts to is the list of its byte strings.  Its places follow from the
lengths of the strings alone: each string begins where the one before ends, and the
first at the beginning of the store.

## Main definitions

* `Arena.Holds` — the store is the byte strings of a list, one after the other.

## Main results

* `Arena.Holds.push`, `Arena.Holds.truncate` — growing and cutting the list.
* `Arena.Holds.get?_eq` — each string is found at its place.
-/

namespace Columnar
namespace Arena

/-- The places of byte strings that stand one after the other, the first one at an offset. -/
def placesFrom (offset : Nat) : List (List UInt8) → List Span
  | [] => []
  | v :: vs => ⟨offset, v.length⟩ :: placesFrom (offset + v.length) vs

theorem placesFrom_append (offset : Nat) (vs ws : List (List UInt8)) :
    placesFrom offset (vs ++ ws) =
      placesFrom offset vs ++ placesFrom (offset + vs.flatten.length) ws := by
  induction vs generalizing offset with
  | nil => simp [placesFrom]
  | cons v vs ih => simp [placesFrom, ih, Nat.add_assoc]

theorem take_placesFrom (offset n : Nat) (vs : List (List UInt8)) :
    (placesFrom offset vs).take n = placesFrom offset (vs.take n) := by
  induction vs generalizing offset n with
  | nil => simp [placesFrom]
  | cons v vs ih =>
    cases n with
    | zero => rfl
    | succ n => simp [placesFrom, ih]

/-- A string begins where the strings before it end. -/
theorem getElem?_placesFrom (offset i : Nat) (vs : List (List UInt8)) :
    (placesFrom offset vs)[i]? =
      vs[i]?.map fun v => ⟨offset + (vs.take i).flatten.length, v.length⟩ := by
  induction vs generalizing offset i with
  | nil => rfl
  | cons v vs ih =>
    cases i with
    | zero => rfl
    | succ i => simp [placesFrom, ih, Nat.add_assoc]

/-- The store is the byte strings of a list, one after the other, and the places are theirs. -/
structure Holds (a : Arena) (vs : List (List UInt8)) : Prop where
  bytes : a.bytes.toList = vs.flatten
  places : a.places.toList = placesFrom 0 vs

variable {a : Arena} {vs : List (List UInt8)}

theorem holds_empty : empty.Holds [] := ⟨rfl, rfl⟩

/-- The store has as many bytes as its byte strings together. -/
theorem Holds.size_bytes (h : a.Holds vs) : a.bytes.size = vs.flatten.length := by
  rw [← h.bytes, Array.length_toList]

theorem Holds.push (h : a.Holds vs) (v : List UInt8) : (a.push v).Holds (vs ++ [v]) where
  bytes := by simp [Arena.push, h.bytes]
  places := by
    rw [Arena.push, Array.toList_push, h.places, placesFrom_append, Nat.zero_add, h.size_bytes]
    rfl

theorem Holds.getElem?_places (h : a.Holds vs) (i : Nat) :
    a.places[i]? = vs[i]?.map fun v => ⟨(vs.take i).flatten.length, v.length⟩ := by
  rw [← Array.getElem?_toList, h.places, getElem?_placesFrom]
  simp only [Nat.zero_add]

/-- **Cutting the store at the place of a string leaves the strings before it.** -/
theorem Holds.truncate (h : a.Holds vs) (n : Nat) : (a.truncate n).Holds (vs.take n) := by
  rw [Arena.truncate, h.getElem?_places]
  cases hn : vs[n]? with
  | none =>
    -- there are not more strings than are kept
    rw [List.take_of_length_le (List.getElem?_eq_none_iff.mp hn)]
    exact h
  | some v =>
    refine ⟨?_, ?_⟩
    · have hsplit : vs.flatten = (vs.take n).flatten ++ (vs.drop n).flatten := by
        rw [← List.flatten_append, List.take_append_drop]
      simp [h.bytes, hsplit]
    · simp [h.places, take_placesFrom]

/-- **Each string is found at its place.** -/
theorem Holds.get?_eq (h : a.Holds vs) (i : Nat) : a.get? i = vs[i]? := by
  rw [Arena.get?, h.getElem?_places]
  cases hi : vs[i]? with
  | none => rfl
  | some v =>
    obtain ⟨hlt, hget⟩ := List.getElem?_eq_some_iff.mp hi
    have hsplit : vs.flatten = (vs.take i).flatten ++ (v ++ (vs.drop (i + 1)).flatten) := by
      rw [← List.flatten_cons, ← hget, ← List.drop_eq_getElem_cons hlt, ← List.flatten_append,
        List.take_append_drop]
    simp [read, h.bytes, hsplit, List.extract_eq_take_drop]

theorem Holds.size_eq (h : a.Holds vs) : a.size = vs.length := by
  have hlen (offset : Nat) : (placesFrom offset vs).length = vs.length := by
    clear h
    induction vs generalizing offset with
    | nil => rfl
    | cons v vs ih => simp [placesFrom, ih]
  rw [size, ← Array.length_toList, h.places, hlen]

theorem Holds.toList_eq (h : a.Holds vs) : a.toList = vs := by
  apply List.ext_getElem?
  intro i
  rw [← h.get?_eq i, Arena.toList, List.getElem?_map, Array.getElem?_toList, Arena.get?]

end Arena
end Columnar
