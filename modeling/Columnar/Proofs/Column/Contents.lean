import Columnar.Column.Cells
import Columnar.Proofs.Column.Dictionary

/-!
# What a column holds

A column amounts to the list of its values, and what it is encoded as depends on
that list alone: two columns that were grown and cut in different ways but hold
the same values have the same bytes.

## Main definitions

* `Column.Sound` — a column of texts keeps its dictionary in step, one of byte strings its store.
* `Column.spell` — the bytes of a list of values of one storage.
* `Column.overflow?` — why there is no room for another value.

## Main results

* `Column.appended`, `Column.toList_truncate` — what growing and cutting do to the list.
* `Column.encode_eq_spell` — the bytes depend on the list alone.
* `Cells.decode_spell` — the values are read back, one by one.
-/

namespace Columnar

namespace Column

/-- A column of texts keeps entries, places and indices in step, and one of byte strings its store;
other columns are lists already. -/
def Sound (hash : String → UInt64) : Column → Prop
  | texts d => d.Holds hash d.rows
  | blobs a => a.Holds a.toList
  | _ => True

/-- The bytes of some values, as columns of a storage encode them. -/
def spell : Storage → List Value → List UInt8
  | .uint, vs => UintColumn.encode (vs.filterMap Value.asUint?)
  | .int, vs => IntColumn.encode (vs.filterMap Value.asInt?)
  | .float, vs => FloatColumn.encode (vs.filterMap Value.asFloat?)
  | .bool, vs => BoolColumn.encode (vs.filterMap Value.asBool?)
  | .text, vs => Dictionary.spell (vs.filterMap Value.asText?)
  | .bytes, vs => BlobColumn.encode (vs.filterMap Value.asBytes?)

/-- Why a column of some values has no room for another one of its storage, if it has none.  Numbers
and truth values have no store of their own. -/
def overflow? (vs : List Value) : Value → Option Overflow
  | .text s => Dictionary.overflow? (vs.filterMap Value.asText?) s
  | .bytes bs =>
    if Overflow.maxBytes < (vs.filterMap Value.asBytes?).flatten.length + bs.length then some .blobs
    else none
  | _ => none

variable {hash : String → UInt64} {c c' : Column} {v : Value}

theorem filterMap_map {α : Type} (tag : α → Value) (untag : Value → Option α)
    (h : ∀ a, untag (tag a) = some a) (as : List α) : (as.map tag).filterMap untag = as := by
  rw [List.filterMap_map]
  have hsome : untag ∘ tag = some := funext h
  rw [hsome, List.filterMap_some]

/-! ### Growing and cutting -/

theorem sound_empty (hash : String → UInt64) (s : Storage) : (empty s).Sound hash := by
  cases s with
  | text => exact Dictionary.holds_empty hash
  | bytes => exact Arena.holds_empty
  | _ => trivial

@[simp] theorem toList_empty (s : Storage) : (empty s).toList = [] := by cases s <;> rfl

/-- What comes of one more value: it is of another storage, or there is no room for it, or it is the
last value from then on. -/
inductive Appended (hash : String → UInt64) (c : Column) (v : Value) : Except Refusal Column → Prop where
  | storage (hv : v.storage ≠ c.storage) : Appended hash c v (.error .storage)
  | overflow {store : Overflow} (hv : v.storage = c.storage) (hfull : overflow? c.toList v = some store) :
      Appended hash c v (.error (.overflow store))
  | taken {c' : Column} (hv : v.storage = c.storage) (hroom : overflow? c.toList v = none)
      (storage : c'.storage = c.storage) (sound : c'.Sound hash) (values : c'.toList = c.toList ++ [v]) :
      Appended hash c v (.ok c')

theorem appended_texts {d : Dictionary} (h : d.Holds hash d.rows) (s : String) :
    Appended hash (texts d) (.text s) ((texts d).append hash (.text s)) := by
  have hrows : (texts d).toList.filterMap Value.asText? = d.rows :=
    filterMap_map .text _ (fun _ => rfl) d.rows
  cases hfull : Dictionary.overflow? d.rows s with
  | some store =>
    simp only [append, h.append_error hfull]
    exact .overflow rfl (by rw [overflow?, hrows, hfull])
  | none =>
    obtain ⟨d', hd', hholds⟩ := h.append hfull
    simp only [append, hd']
    refine .taken rfl (by rw [overflow?, hrows, hfull]) rfl ?_ ?_
    · show Dictionary.Holds hash d' d'.rows
      rwa [hholds.rows_eq]
    · simp [toList, hholds.rows_eq]

theorem appended_blobs {a : Arena} (h : a.Holds a.toList) (bs : List UInt8) :
    Appended hash (blobs a) (.bytes bs) ((blobs a).append hash (.bytes bs)) := by
  have hstrings : (blobs a).toList.filterMap Value.asBytes? = a.toList :=
    filterMap_map .bytes _ (fun _ => rfl) a.toList
  have hpush := h.push bs
  by_cases hroom : a.toList.flatten.length + bs.length ≤ Overflow.maxBytes
  · have hhas : a.hasRoom bs.length = true := by rw [Arena.hasRoom, h.size_bytes, decide_eq_true hroom]
    rw [append, if_pos hhas]
    refine .taken rfl (by rw [overflow?, hstrings, if_neg (Nat.not_lt.mpr hroom)]) rfl ?_ ?_
    · show Arena.Holds _ (Arena.toList _)
      rwa [hpush.toList_eq]
    · simp [toList, hpush.toList_eq]
  · have hhas : a.hasRoom bs.length ≠ true := by
      rw [Arena.hasRoom, h.size_bytes, decide_eq_false hroom]
      decide
    rw [append, if_neg hhas]
    exact .overflow rfl (by rw [overflow?, hstrings, if_pos (Nat.not_le.mp hroom)])

/-- **Appending to a column is appending to the list of its values**, for a value of its storage that
there is room for. -/
theorem appended (h : c.Sound hash) (v : Value) : Appended hash c v (c.append hash v) := by
  by_cases hv : v.storage = c.storage
  · cases c <;> cases v
    case pos.texts.text d s => exact appended_texts h s
    case pos.blobs.bytes a bs => exact appended_blobs h bs
    all_goals first
      | exact .taken rfl rfl rfl trivial (by simp [toList])
      | cases hv
  · rw [append_eq_storage_iff.mpr hv]
    exact .storage hv

theorem sound_append (h : c.Sound hash) (hc : c.append hash v = .ok c') : c'.Sound hash := by
  have happended := appended h v
  rw [hc] at happended
  cases happended with
  | taken _ _ _ sound _ => exact sound

theorem toList_append (h : c.Sound hash) (hc : c.append hash v = .ok c') :
    c'.toList = c.toList ++ [v] := by
  have happended := appended h v
  rw [hc] at happended
  cases happended with
  | taken _ _ _ _ values => exact values

theorem sound_truncate (h : c.Sound hash) (n : Nat) : (c.truncate n).Sound hash := by
  cases c with
  | texts d =>
    have hd := Dictionary.Holds.truncate h n
    show Dictionary.Holds hash _ (Dictionary.rows _)
    rwa [hd.rows_eq]
  | blobs a =>
    have ha := Arena.Holds.truncate h n
    show Arena.Holds _ (Arena.toList _)
    rwa [ha.toList_eq]
  | _ => trivial

theorem toList_truncate (h : c.Sound hash) (n : Nat) : (c.truncate n).toList = c.toList.take n := by
  cases c with
  | texts d => simp [truncate, toList, (Dictionary.Holds.truncate h n).rows_eq, List.map_take]
  | blobs a => simp [truncate, toList, (Arena.Holds.truncate h n).toList_eq, List.map_take]
  | _ => simp [truncate, toList, List.map_take]

@[simp] theorem storage_truncate (c : Column) (n : Nat) : (c.truncate n).storage = c.storage := by
  cases c <;> rfl

@[simp] theorem storage_reset (c : Column) : c.reset.storage = c.storage := storage_empty _

/-- A column takes every value of its storage that there is room for. -/
theorem exists_append (h : c.Sound hash) (hv : v.storage = c.storage)
    (hroom : overflow? c.toList v = none) : ∃ c', c.append hash v = .ok c' := by
  have happended := appended h v
  generalize c.append hash v = result at happended
  cases happended with
  | storage hne => exact absurd hv hne
  | overflow _ hfull => cases hroom.symm.trans hfull
  | taken => exact ⟨_, rfl⟩

/-- A column refuses a value of its storage if there is no room for it, and only then. -/
theorem append_eq_overflow_iff (h : c.Sound hash) {store : Overflow} :
    c.append hash v = .error (.overflow store) ↔
      v.storage = c.storage ∧ overflow? c.toList v = some store := by
  have happended := appended h v
  generalize c.append hash v = result at happended
  cases happended with
  | storage hne => simp [hne]
  | overflow hv hfull => simp [hv, hfull]
  | taken hv hroom => simp [hroom]

/-! ### The bytes of a column -/

/-- **What a column is encoded as depends on its values alone.** -/
theorem encode_eq_spell (h : c.Sound hash) : c.encode = spell c.storage c.toList := by
  cases c with
  | uints vs => exact congrArg UintColumn.encode (filterMap_map .uint _ (fun _ => rfl) _).symm
  | ints vs => exact congrArg IntColumn.encode (filterMap_map .int _ (fun _ => rfl) _).symm
  | floats vs => exact congrArg FloatColumn.encode (filterMap_map .float _ (fun _ => rfl) _).symm
  | bools vs => exact congrArg BoolColumn.encode (filterMap_map .bool _ (fun _ => rfl) _).symm
  | texts d =>
    refine (Dictionary.Holds.encode_eq_spell h).trans ?_
    exact congrArg Dictionary.spell (filterMap_map .text _ (fun _ => rfl) _).symm
  | blobs a => exact congrArg BlobColumn.encode (filterMap_map .bytes _ (fun _ => rfl) _).symm

end Column

/-! ### Reading the values back -/

theorem UintColumn.length_le_length_encode (vs : List UInt64) :
    vs.length ≤ (UintColumn.encode vs).length := by
  rw [UintColumn.encode, List.length_append]
  generalize (!vs.isEmpty && UintColumn.isAscending vs) = stepwise
  generalize hs : (if stepwise then UintColumn.steps 0 vs else vs) = ws
  have hlen : ws.length = vs.length := by
    rw [← hs]
    split <;> simp
  have hle := Take.length_le_length_flatMap ws fun v => Leb128.one_le_length_encode v.toNat
  rw [UintColumn.encodeEach]
  omega

theorem IntColumn.length_le_length_encode (vs : List Int64) :
    vs.length ≤ (IntColumn.encode vs).length := by
  rw [IntColumn.encode, List.length_append]
  generalize decide (1 < vs.length) = stepwise
  generalize hs : (if stepwise then IntColumn.steps 0 vs else vs) = ws
  have hlen : ws.length = vs.length := by
    rw [← hs]
    split <;> simp
  have hle := Take.length_le_length_flatMap ws fun v => Leb128.one_le_length_encode (ZigZag.encode v)
  rw [IntColumn.encodeEach]
  omega

theorem FloatColumn.length_le_length_encode (vs : List Binary64) :
    vs.length ≤ (FloatColumn.encode vs).length := by
  rw [FloatColumn.encode, List.length_append]
  have hle := Take.length_le_length_flatMap vs fun x =>
    Nat.le_of_lt_succ (Nat.lt_of_lt_of_eq (by decide : 1 < 9) (by rw [Word.length_toBytes x.bits]))
  omega

/-- A list of byte strings is read back if its spelling is shorter than `2 ^ 64` bytes. -/
theorem BlobColumn.decode_encode_of_length {vs : List (List UInt8)}
    (hlen : (BlobColumn.encode vs).length < 2 ^ 64) (rest : List UInt8) :
    BlobColumn.decode (BlobColumn.encode vs ++ rest) = .ok (vs, rest) := by
  rw [BlobColumn.encode, List.length_append] at hlen
  have hone : ∀ bs : List UInt8, bs.length < (BlobColumn.encodeOne bs).length := by
    intro bs
    have hpos := Leb128.one_le_length_encode bs.length
    rw [BlobColumn.encodeOne, List.length_append]
    omega
  refine BlobColumn.decode_encode ?_ ?_ rest
  · have hle := Take.length_le_length_flatMap vs fun bs => Nat.succ_le_of_lt (Nat.zero_lt_of_lt (hone bs))
    omega
  · intro bs hbs
    have hle := Dictionary.length_le_length_flatMap_of_mem BlobColumn.encodeOne hbs
    have hlt := hone bs
    omega

namespace Cells

/-- The cells read are those of a list of values. -/
structure Holds (cells : Cells) (s : Storage) (vs : List Value) : Prop where
  storage : cells.storage = s
  length : cells.length = vs.length
  get? : ∀ row, cells.get? row = vs[row]?

theorem Holds.get_eq {cells : Cells} {s : Storage} {vs : List Value} (h : cells.Holds s vs) {row : Nat}
    (hrow : row < vs.length) : cells.get row = .ok vs[row] := by
  rw [Cells.get, h.get?, List.getElem?_eq_getElem hrow]

/-- Values of one storage are the tagged members of a list. -/
theorem map_filterMap {s : Storage} {α : Type} (tag : α → Value) (untag : Value → Option α)
    (h : ∀ a, untag (tag a) = some a) (hs : ∀ v : Value, v.storage = s → ∃ a, v = tag a)
    {vs : List Value} (hvs : ∀ v ∈ vs, v.storage = s) : (vs.filterMap untag).map tag = vs := by
  induction vs with
  | nil => rfl
  | cons v vs ih =>
    have hrest := fun w hw => hvs w (List.mem_cons_of_mem v hw)
    obtain ⟨a, rfl⟩ := hs v (hvs v List.mem_cons_self)
    rw [List.filterMap_cons, h, List.map_cons, ih hrest]

theorem get?_texts (ts : List String) (row : Nat) :
    (texts ts.eraseDups.toArray (ts.map fun s => ts.eraseDups.idxOf s).toArray).get? row =
      (ts.map Value.text)[row]? := by
  simp only [get?, List.getElem?_toArray, List.getElem?_map]
  cases hrow : ts[row]? with
  | none => rfl
  | some s =>
    have hmem : s ∈ ts.eraseDups := List.mem_eraseDups.mpr (List.mem_of_getElem? hrow)
    have hidx : ts.eraseDups[ts.eraseDups.idxOf s]? = some s := by
      rw [List.getElem?_eq_getElem (List.idxOf_lt_length_of_mem hmem), List.getElem_idxOf]
    simp [hidx]

/-- Values of one storage are read back if what they are tags of is. -/
theorem decode_spell_of {s : Storage} {α : Type} (tag : α → Value) (untag : Value → Option α)
    (make : List α → Cells) (encode : List α → List UInt8) (htag : ∀ a, untag (tag a) = some a)
    (hs : ∀ v : Value, v.storage = s → ∃ a, v = tag a) {vs : List Value} {rest : List UInt8}
    (hspell : Column.spell s vs = encode (vs.filterMap untag))
    (hmake : ∀ ws : List α, (make ws).Holds s (ws.map tag))
    (hdecode : ∀ ws : List α, (encode ws).length < 2 ^ 63 →
      decode s (encode ws ++ rest) = .ok (make ws, rest))
    (hvs : ∀ v ∈ vs, v.storage = s) (hlen : (Column.spell s vs).length < 2 ^ 63) :
    ∃ cells, decode s (Column.spell s vs ++ rest) = .ok (cells, rest) ∧ cells.Holds s vs := by
  have hmap := map_filterMap tag untag htag hs hvs
  rw [hspell] at hlen ⊢
  refine ⟨make (vs.filterMap untag), hdecode _ hlen, ?_⟩
  have hholds := hmake (vs.filterMap untag)
  rwa [hmap] at hholds

/-- **Values of one storage are read back**, whatever comes after them. -/
theorem decode_spell {s : Storage} {vs : List Value} (hvs : ∀ v ∈ vs, v.storage = s)
    (hlen : (Column.spell s vs).length < 2 ^ 63) (rest : List UInt8) :
    ∃ cells, decode s (Column.spell s vs ++ rest) = .ok (cells, rest) ∧ cells.Holds s vs := by
  cases s with
  | uint =>
    -- the spelling is at least as long as the count it begins with
    refine decode_spell_of .uint Value.asUint? (fun ws => uints ws.toArray) UintColumn.encode
      (fun _ => rfl) ?_ rfl ?_ ?_ hvs hlen
    · intro v hv
      cases v <;> cases hv
      exact ⟨_, rfl⟩
    · intro ws
      exact ⟨rfl, by simp [length], fun row => by simp [get?]⟩
    · intro ws hws
      have hle := UintColumn.length_le_length_encode ws
      rw [decode, UintColumn.decode_encode (Nat.lt_of_le_of_lt hle hws)]
      rfl
  | int =>
    refine decode_spell_of .int Value.asInt? (fun ws => ints ws.toArray) IntColumn.encode
      (fun _ => rfl) ?_ rfl ?_ ?_ hvs hlen
    · intro v hv
      cases v <;> cases hv
      exact ⟨_, rfl⟩
    · intro ws
      exact ⟨rfl, by simp [length], fun row => by simp [get?]⟩
    · intro ws hws
      have hle := IntColumn.length_le_length_encode ws
      rw [decode, IntColumn.decode_encode (Nat.lt_of_le_of_lt hle hws)]
      rfl
  | float =>
    refine decode_spell_of .float Value.asFloat? (fun ws => floats ws.toArray) FloatColumn.encode
      (fun _ => rfl) ?_ rfl ?_ ?_ hvs hlen
    · intro v hv
      cases v <;> cases hv
      exact ⟨_, rfl⟩
    · intro ws
      exact ⟨rfl, by simp [length], fun row => by simp [get?]⟩
    · intro ws hws
      have hle := FloatColumn.length_le_length_encode ws
      rw [decode, FloatColumn.decode_encode (by omega)]
      rfl
  | bool =>
    refine decode_spell_of .bool Value.asBool? (fun ws => bools ws.toArray) BoolColumn.encode
      (fun _ => rfl) ?_ rfl ?_ ?_ hvs hlen
    · intro v hv
      cases v <;> cases hv
      exact ⟨_, rfl⟩
    · intro ws
      exact ⟨rfl, by simp [length], fun row => by simp [get?]⟩
    · intro ws hws
      have hle : ws.length ≤ (BoolColumn.encode ws).length := by simp [BoolColumn.encode]
      rw [decode, BoolColumn.decode_encode (by omega)]
      rfl
  | text =>
    refine decode_spell_of .text Value.asText?
      (fun ws => texts ws.eraseDups.toArray (ws.map fun s => ws.eraseDups.idxOf s).toArray)
      Dictionary.spell (fun _ => rfl) ?_ rfl ?_ ?_ hvs hlen
    · intro v hv
      cases v <;> cases hv
      exact ⟨_, rfl⟩
    · intro ws
      exact ⟨rfl, by simp [length], get?_texts ws⟩
    · intro ws hws
      rw [decode, Dictionary.decode_spell (by omega)]
      rfl
  | bytes =>
    refine decode_spell_of .bytes Value.asBytes? (fun ws => blobs ws.toArray) BlobColumn.encode
      (fun _ => rfl) ?_ rfl ?_ ?_ hvs hlen
    · intro v hv
      cases v <;> cases hv
      exact ⟨_, rfl⟩
    · intro ws
      exact ⟨rfl, by simp [length], fun row => by simp [get?]⟩
    · intro ws hws
      rw [decode, BlobColumn.decode_encode_of_length (by omega)]
      rfl

end Cells
end Columnar
