import Mathlib.Data.List.GetD
import Mathlib.Data.List.Induction
import Mathlib.Data.List.Nodup
import Columnar.Column.Dictionary
import Columnar.Proofs.Column.Blobs

/-!
# Columns of texts as lists

A column of texts keeps entries, places by hash and row indices in step.  What
they amount to is the list of the rows' texts: the entries are its different
members in the order in which they first come, and a row's index is the position
of its text among them.

Cutting a column short finds the number of entries to keep from the greatest
index that is left.  That is right because an index is never greater than the
number of different texts before it.

## Main definitions

* `Dictionary.Holds` — entries, places and indices are those of a list of texts.
* `Dictionary.overflow?` — why there is no room for another text.
* `Dictionary.spell` — the bytes of a list of texts.

## Main results

* `Dictionary.Holds.append`, `Dictionary.Holds.truncate` — growing and cutting the list.
* `Dictionary.Holds.append_error` — which texts are refused, and why.
* `Dictionary.Holds.encode_eq_spell` — a column is spelled like its list.
-/

namespace Columnar

/-! ### First occurrences -/

theorem eraseDups_concat {α : Type} [BEq α] [LawfulBEq α] (l : List α) (a : α) :
    (l ++ [a]).eraseDups = if a ∈ l then l.eraseDups else l.eraseDups ++ [a] := by
  rw [List.eraseDups_append]
  by_cases h : a ∈ l <;> simp [List.removeAll, List.eraseDups_cons, h]

theorem getElem?_concat {α : Type} (l : List α) (a : α) (i : Nat) :
    (l ++ [a])[i]? = if i = l.length then some a else l[i]? := by
  rw [List.getElem?_append]
  by_cases hlt : i < l.length
  · rw [if_pos hlt, if_neg (Nat.ne_of_lt hlt)]
  · rw [if_neg hlt, List.getElem?_singleton, List.getElem?_eq_none (Nat.not_lt.mp hlt)]
    exact if_congr (by omega) rfl rfl

theorem nodup_eraseDups {α : Type} [BEq α] [LawfulBEq α] (l : List α) : l.eraseDups.Nodup := by
  induction l using List.reverseRecOn with
  | nil => exact List.nodup_nil
  | append_singleton l a ih =>
    rw [eraseDups_concat]
    split
    · exact ih
    · next h =>
      rw [List.nodup_append]
      refine ⟨ih, List.nodup_singleton a, ?_⟩
      intro x hx y hy hxy
      subst hxy
      exact h (List.mem_singleton.mp hy ▸ List.mem_eraseDups.mp hx)

theorem prefix_eraseDups_take {α : Type} [BEq α] [LawfulBEq α] (l : List α) (n : Nat) :
    (l.take n).eraseDups <+: l.eraseDups := by
  conv => rhs; rw [← List.take_append_drop n l]
  rw [List.eraseDups_append]
  exact List.prefix_append _ _

namespace Dictionary

/-! ### How many entries some rows need -/

theorem needed_le_iff (indices : List Nat) (k : Nat) : needed indices ≤ k ↔ ∀ i ∈ indices, i < k := by
  have key : ∀ start, indices.foldl (fun n i => max n (i + 1)) start ≤ k ↔
      start ≤ k ∧ ∀ i ∈ indices, i < k := by
    induction indices with
    | nil => simp
    | cons i indices ih =>
      intro start
      rw [List.foldl_cons, ih, List.forall_mem_cons, Nat.max_le, Nat.succ_le_iff, and_assoc]
  rw [needed, key]
  simp

/-- A text of the beginning of a list has the same position among the different texts of both. -/
theorem idxOf_eraseDups_take {ts : List String} {n : Nat} {s : String} (hs : s ∈ ts.take n) :
    ts.eraseDups.idxOf s = (ts.take n).eraseDups.idxOf s := by
  obtain ⟨more, hmore⟩ := prefix_eraseDups_take ts n
  rw [← hmore, List.idxOf_append, if_pos (List.mem_eraseDups.mpr hs)]

/-- The greatest position of the texts of a list, among the different texts of a longer one, is that
of the last that is new. -/
theorem needed_idxOf_take (ts : List String) (n : Nat) :
    needed ((ts.take n).map fun s => ts.eraseDups.idxOf s) = (ts.take n).eraseDups.length := by
  refine Nat.le_antisymm ?_ ?_
  · rw [needed_le_iff]
    intro i hi
    obtain ⟨s, hs, rfl⟩ := List.mem_map.mp hi
    rw [idxOf_eraseDups_take hs]
    exact List.idxOf_lt_length_of_mem (List.mem_eraseDups.mpr hs)
  · by_contra hlt
    have hlt := Nat.not_le.mp hlt
    -- the text at the last needed place would lie beyond it
    have hall := (needed_le_iff ((ts.take n).map fun s => ts.eraseDups.idxOf s) _).mp (Nat.le_refl _)
    generalize needed ((ts.take n).map fun s => ts.eraseDups.idxOf s) = k at hlt hall
    have hmem : (ts.take n).eraseDups[k] ∈ ts.take n := List.mem_eraseDups.mp (List.getElem_mem hlt)
    have hk := hall _ (List.mem_map_of_mem hmem)
    rw [idxOf_eraseDups_take hmem, (nodup_eraseDups _).idxOf_getElem k hlt] at hk
    exact Nat.lt_irrefl _ hk

/-! ### Entries, places and indices in step -/

/-- Entries, places and indices say that the rows have the texts of a list. -/
structure Holds (hash : String → UInt64) (d : Dictionary) (ts : List String) : Prop where
  /-- Each text has one entry, and they stand in the order in which they first come. -/
  entries : d.entries.Holds (ts.eraseDups.map Utf8.encode)
  /-- The index of a row is the position of its text among the entries. -/
  indices : d.indices.toList = ts.map fun s => ts.eraseDups.idxOf s
  /-- An entry is found under its hash, and nothing else is. -/
  places : ∀ h i, i ∈ d.places.getD h [] ↔ ∃ s, ts.eraseDups[i]? = some s ∧ hash s = h

variable {hash : String → UInt64} {d : Dictionary} {ts : List String}

theorem holds_empty (hash : String → UInt64) : Holds hash empty [] where
  entries := Arena.holds_empty
  indices := rfl
  places := by simp [empty]

theorem Holds.size_entries (h : Holds hash d ts) : d.entries.size = ts.eraseDups.length := by
  rw [h.entries.size_eq, List.length_map]

theorem Holds.textAt?_eq (h : Holds hash d ts) (i : Nat) : d.textAt? i = ts.eraseDups[i]? := by
  rw [textAt?, h.entries.get?_eq, List.getElem?_map]
  cases ts.eraseDups[i]? with
  | none => rfl
  | some s => exact Utf8.decode?_encode s

/-- The rows have the texts of the list. -/
theorem Holds.rows_eq (h : Holds hash d ts) : d.rows = ts := by
  rw [rows, h.indices, List.map_map]
  refine (List.map_congr_left fun s hs => ?_).trans (List.map_id ts)
  have hmem : s ∈ ts.eraseDups := List.mem_eraseDups.mpr hs
  show (d.textAt? (ts.eraseDups.idxOf s)).getD "" = s
  rw [h.textAt?_eq, List.getElem?_eq_getElem (List.idxOf_lt_length_of_mem hmem), List.getElem_idxOf]
  rfl

theorem Holds.length_eq (h : Holds hash d ts) : d.indices.size = ts.length := by
  rw [← Array.length_toList, h.indices, List.length_map]

/-- Looking up a text finds its position among the entries, whatever the hash. -/
theorem Holds.find?_eq (h : Holds hash d ts) (s : String) :
    find? hash d s = if s ∈ ts then some (ts.eraseDups.idxOf s) else none := by
  have hentry : ∀ i, d.entries.get? i = some (Utf8.encode s) ↔ ts.eraseDups[i]? = some s := by
    intro i
    rw [h.entries.get?_eq, List.getElem?_map, Option.map_eq_some_iff]
    exact ⟨fun ⟨t, ht, heq⟩ => Utf8.encode_injective heq ▸ ht, fun hs => ⟨s, hs, rfl⟩⟩
  cases hf : find? hash d s with
  | some i =>
    have hi : ts.eraseDups[i]? = some s := (hentry i).mp (by simpa using List.find?_some hf)
    obtain ⟨hlt, hget⟩ := List.getElem?_eq_some_iff.mp hi
    have hmem : s ∈ ts := List.mem_eraseDups.mp (List.mem_of_getElem? hi)
    rw [if_pos hmem, ← hget, (nodup_eraseDups ts).idxOf_getElem i hlt]
  | none =>
    -- a text that is there has an entry, and the entry a place under its hash
    rw [if_neg]
    intro hs
    obtain ⟨i, hi⟩ := List.getElem?_of_mem (List.mem_eraseDups.mpr hs)
    have hplace := (h.places (hash s) i).mpr ⟨s, hi, rfl⟩
    have hnot := List.find?_eq_none.mp hf i hplace
    exact hnot (by simpa using (hentry i).mpr hi)

theorem mem_addPlace (m : Std.HashMap UInt64 (List Nat)) (s : String) (k : Nat) (h : UInt64)
    (i : Nat) :
    i ∈ (addPlace hash m s k).getD h [] ↔ i ∈ m.getD h [] ∨ (hash s = h ∧ i = k) := by
  rw [addPlace, Std.HashMap.getD_insert]
  by_cases hs : hash s = h
  · subst hs
    simp
  · simp [hs]

theorem mem_placesBelow (m : Std.HashMap UInt64 (List Nat)) (k : Nat) (h : UInt64) (i : Nat) :
    i ∈ (placesBelow m k).getD h [] ↔ i ∈ m.getD h [] ∧ i < k := by
  rw [placesBelow, Std.HashMap.getD_filterMap, Std.HashMap.getD_eq_getD_getElem?]
  cases m[h]? with
  | none => simp
  | some is =>
    show i ∈ (if (is.filter (· < k)).isEmpty then none else some (is.filter (· < k))).getD [] ↔ _
    by_cases hkept : (is.filter (· < k)).isEmpty
    · -- a hash without places below the number has gone
      have hnone : ∀ j ∈ is, k ≤ j := by simpa using hkept
      rw [if_pos hkept]
      simp only [Option.getD_none, Option.getD_some, List.not_mem_nil, false_iff, not_and, Nat.not_lt]
      exact hnone i
    · rw [if_neg hkept]
      simp

/-! ### One more row -/

/-- Why a column of some texts has no room for another one, if it has none: the different texts would
have too many bytes, or there are too many of them.  A text that is there needs no room. -/
def overflow? (ts : List String) (s : String) : Option Overflow :=
  if s ∈ ts then none
  else if Overflow.maxBytes < (ts.eraseDups.map Utf8.encode).flatten.length + (Utf8.encode s).length then
    some .texts
  else if Overflow.maxEntries ≤ ts.eraseDups.length then some .entries
  else none

/-- A row with a text that is there takes the entry of this text. -/
theorem Holds.push_old (h : Holds hash d ts) {s : String} (hs : s ∈ ts) :
    Holds hash { d with indices := d.indices.push (ts.eraseDups.idxOf s) } (ts ++ [s]) := by
  have hdups : (ts ++ [s]).eraseDups = ts.eraseDups := by rw [eraseDups_concat, if_pos hs]
  refine ⟨hdups ▸ h.entries, ?_, hdups ▸ h.places⟩
  rw [hdups, Array.toList_push, h.indices, List.map_append, List.map_singleton]

/-- A row with a new text gets an entry behind the others. -/
theorem Holds.push_new (h : Holds hash d ts) {s : String} (hs : s ∉ ts) :
    Holds hash
      { entries := d.entries.push (Utf8.encode s)
        places := addPlace hash d.places s d.entries.size
        indices := d.indices.push d.entries.size } (ts ++ [s]) := by
  have hdups : (ts ++ [s]).eraseDups = ts.eraseDups ++ [s] := by rw [eraseDups_concat, if_neg hs]
  have hnot : s ∉ ts.eraseDups := fun hmem => hs (List.mem_eraseDups.mp hmem)
  refine ⟨?_, ?_, ?_⟩
  · rw [hdups, List.map_append]
    exact h.entries.push (Utf8.encode s)
  · rw [hdups, Array.toList_push, h.indices, h.size_entries, List.map_append, List.map_singleton]
    congr 1
    · -- the entries there were keep their places
      refine List.map_congr_left fun t ht => ?_
      rw [List.idxOf_append, if_pos (List.mem_eraseDups.mpr ht)]
    · rw [List.idxOf_append, if_neg hnot, List.idxOf_cons_self, Nat.zero_add]
  · intro g i
    rw [mem_addPlace, h.places, h.size_entries, hdups, getElem?_concat]
    constructor
    · rintro (⟨t, ht, hg⟩ | ⟨hg, rfl⟩)
      · have hlt := (List.getElem?_eq_some_iff.mp ht).1
        exact ⟨t, by rw [if_neg (Nat.ne_of_lt hlt), ht], hg⟩
      · exact ⟨s, if_pos rfl, hg⟩
    · rintro ⟨t, ht, hg⟩
      split at ht
      · next hi =>
        cases ht
        exact Or.inr ⟨hg, hi⟩
      · exact Or.inl ⟨t, ht, hg⟩

/-- The store of the entries has room just if the different texts leave it. -/
theorem Holds.hasRoom_eq (h : Holds hash d ts) (n : Nat) :
    d.entries.hasRoom n = decide ((ts.eraseDups.map Utf8.encode).flatten.length + n ≤ Overflow.maxBytes) := by
  rw [Arena.hasRoom, h.entries.size_bytes]

/-- A text is refused for the reason that the list of texts gives. -/
theorem Holds.append_error (h : Holds hash d ts) {s : String} {store : Overflow}
    (hfull : overflow? ts s = some store) : d.append hash s = .error store := by
  unfold overflow? at hfull
  split at hfull
  · cases hfull
  · next hs =>
    simp only [Dictionary.append, h.find?_eq, if_neg hs, h.hasRoom_eq, h.size_entries]
    split at hfull
    · next hbytes =>
      cases hfull
      rw [decide_eq_false (Nat.not_le.mpr hbytes)]
      rfl
    · next hbytes =>
      split at hfull
      · next hentries =>
        cases hfull
        rw [decide_eq_true (Nat.not_lt.mp hbytes), if_pos hentries]
        rfl
      · cases hfull

/-- **One more row is one more text**, whatever the hash, if there is room for it. -/
theorem Holds.append (h : Holds hash d ts) {s : String} (hroom : overflow? ts s = none) :
    ∃ d', d.append hash s = .ok d' ∧ Holds hash d' (ts ++ [s]) := by
  unfold overflow? at hroom
  split at hroom
  · next hs =>
    refine ⟨_, ?_, h.push_old hs⟩
    rw [Dictionary.append, h.find?_eq, if_pos hs]
  · next hs =>
    refine ⟨_, ?_, h.push_new hs⟩
    split at hroom
    · cases hroom
    · next hbytes =>
      split at hroom
      · cases hroom
      · next hentries =>
        simp only [Dictionary.append, h.find?_eq, if_neg hs, h.hasRoom_eq, h.size_entries,
          decide_eq_true (Nat.not_lt.mp hbytes), if_neg hentries]
        rfl

/-! ### Fewer rows -/

/-- The entries that the first rows need are the different texts of these rows. -/
theorem Holds.needed_take (h : Holds hash d ts) (n : Nat) :
    needed (d.indices.take n).toList = (ts.take n).eraseDups.length := by
  have htake : (d.indices.take n).toList = d.indices.toList.take n := by simp
  rw [htake, h.indices, ← List.map_take]
  exact needed_idxOf_take ts n

/-- The indices of the first rows are as if there had been no others. -/
theorem Holds.indices_take (h : Holds hash d ts) (n : Nat) :
    (d.indices.take n).toList = (ts.take n).map fun s => (ts.take n).eraseDups.idxOf s := by
  have htake : (d.indices.take n).toList = d.indices.toList.take n := by simp
  rw [htake, h.indices, ← List.map_take]
  exact List.map_congr_left fun s hs => idxOf_eraseDups_take hs

/-- **Cutting a column leaves its first texts**, and of the entries those of them. -/
theorem Holds.truncate (h : Holds hash d ts) (n : Nat) : Holds hash (d.truncate n) (ts.take n) := by
  by_cases hn : d.indices.size ≤ n
  · rw [Dictionary.truncate, if_pos hn, List.take_of_length_le (h.length_eq ▸ hn)]
    exact h
  have hindices := h.indices_take n
  obtain ⟨more, hmore⟩ := prefix_eraseDups_take ts n
  rw [Dictionary.truncate, if_neg hn]
  simp only [h.needed_take, h.size_entries]
  by_cases hkept : (ts.take n).eraseDups.length < ts.eraseDups.length
  · rw [if_pos hkept]
    refine ⟨?_, hindices, ?_⟩
    · have hentries := h.entries.truncate (ts.take n).eraseDups.length
      rwa [← List.map_take, ← hmore, List.take_left] at hentries
    · -- of the places of entries those stay whose entry does
      intro g i
      rw [mem_placesBelow, h.places, ← hmore]
      constructor
      · rintro ⟨⟨s, hs, hg⟩, hi⟩
        exact ⟨s, by rwa [List.getElem?_append_left hi] at hs, hg⟩
      · rintro ⟨s, hs, hg⟩
        have hi := (List.getElem?_eq_some_iff.mp hs).1
        exact ⟨⟨s, by rwa [List.getElem?_append_left hi], hg⟩, hi⟩
  · -- no entry is dropped
    rw [if_neg hkept]
    have hdups : (ts.take n).eraseDups = ts.eraseDups :=
      (prefix_eraseDups_take ts n).eq_of_length_le (Nat.not_lt.mp hkept)
    exact ⟨hdups ▸ h.entries, hindices, hdups ▸ h.places⟩

/-! ### The bytes of a list of texts -/

theorem length_le_length_flatMap_of_mem {α : Type} (encode : α → List UInt8) {a : α} {as : List α}
    (h : a ∈ as) : (encode a).length ≤ (as.flatMap encode).length := by
  obtain ⟨before, after, rfl⟩ := List.append_of_mem h
  rw [List.flatMap_append, List.flatMap_cons, List.length_append, List.length_append]
  omega

/-- The bytes of some texts: the different ones, then for each row the position of its own. -/
def spell (ts : List String) : List UInt8 :=
  Leb128.encode ts.eraseDups.length ++ ts.eraseDups.flatMap encodeEntry ++
    (Leb128.encode ts.length ++ (ts.map fun s => ts.eraseDups.idxOf s).flatMap Leb128.encode)

/-- **A column is spelled like the list of its texts.** -/
theorem Holds.encode_eq_spell (h : Holds hash d ts) : d.encode = spell ts := by
  have hindices : d.indices.size = ts.length := h.length_eq
  rw [encode, spell, h.size_entries, hindices, h.entries.toList_eq, h.indices, List.flatMap_map]
  rfl

/-- The texts are read back if their spelling is shorter than `2 ^ 64` bytes. -/
theorem decode_spell {ts : List String} (hlen : (spell ts).length < 2 ^ 64) (rest : List UInt8) :
    decode (spell ts ++ rest) =
      .ok ((ts.eraseDups, ts.map fun s => ts.eraseDups.idxOf s), rest) := by
  have hentries := Take.length_le_length_flatMap ts.eraseDups one_le_length_encodeEntry
  have hrows := Take.length_le_length_flatMap (ts.map fun s => ts.eraseDups.idxOf s)
    Leb128.one_le_length_encode
  rw [List.length_map] at hrows
  simp only [spell, List.length_append] at hlen
  have hread := @decode_encode ts.eraseDups (ts.map fun s => ts.eraseDups.idxOf s) (by omega)
    (by rw [List.length_map]; omega) ?_ ?_ rest
  · rwa [List.length_map] at hread
  · intro s hs
    have hle := length_le_length_flatMap_of_mem encodeEntry hs
    rw [encodeEntry, BlobColumn.encodeOne, List.length_append] at hle
    omega
  · intro i hi
    obtain ⟨s, hs, rfl⟩ := List.mem_map.mp hi
    exact List.idxOf_lt_length_of_mem (List.mem_eraseDups.mpr hs)

end Dictionary
end Columnar
