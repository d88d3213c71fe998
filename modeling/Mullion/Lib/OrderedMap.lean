import Mullion.Lib.Table

/-!
# Maps that remember their insertion order

A map from keys to values whose entries stand in the order in which their keys
were first set: setting a key that is there replaces its value in place, setting
a new one puts it last. It is a `Table` of pairs with the first component as key.

* `lookup`, `size`, `oldest` — reading;
* `set`, `erase`, `eraseIf`, `restrict` — writing, each with its `lookup_*` lemma;
* `makeRoom` — drop the oldest entry of a map that is full, and
  `lookup_makeRoom_of_ne`: nothing else is lost.
-/

/-- Pairs with distinct keys, in insertion order. -/
structure OrderedMap (κ ν : Type*) where
  entries : Table (κ × ν) Prod.fst

namespace OrderedMap

variable {κ ν : Type*}

/-- The map without entries. -/
def empty : OrderedMap κ ν := ⟨Table.empty⟩

/-- The number of entries. -/
def size (m : OrderedMap κ ν) : ℕ := m.entries.rows.length

/-- The key that was inserted first. -/
def oldest (m : OrderedMap κ ν) : Option κ := m.entries.rows.head?.map Prod.fst

/-- The key that goes when a map that may hold `cap` entries is full. -/
def dropped (m : OrderedMap κ ν) (cap : ℕ) : Option κ :=
  if cap ≤ m.size then m.oldest else none

@[simp] theorem size_empty : (empty : OrderedMap κ ν).size = 0 := rfl

/-- A map with room drops nothing. -/
theorem dropped_of_lt {m : OrderedMap κ ν} {cap : ℕ} (h : m.size < cap) :
    m.dropped cap = none := by
  unfold dropped
  rw [if_neg (by omega)]

theorem oldest_mem {m : OrderedMap κ ν} {k : κ} (h : m.oldest = some k) : k ∈ m.entries.keys := by
  obtain ⟨e, he, rfl⟩ := Option.map_eq_some_iff.1 h
  exact List.mem_map_of_mem (List.mem_of_mem_head? he)

theorem oldest_of_dropped {m : OrderedMap κ ν} {cap : ℕ} {k : κ} (h : m.dropped cap = some k) :
    m.oldest = some k := by
  unfold dropped at h
  split at h
  · exact h
  · cases h

variable [DecidableEq κ]

/-- The value of a key. -/
def lookup (m : OrderedMap κ ν) (k : κ) : Option ν := (m.entries.get k).map Prod.snd

/-- Give a key a value. -/
def set (m : OrderedMap κ ν) (k : κ) (v : ν) : OrderedMap κ ν :=
  if k ∈ m.entries.keys then ⟨m.entries.update k (fun e => (e.1, v)) fun _ => rfl⟩
  else ⟨m.entries.insert (k, v)⟩

/-- Remove a key. -/
def erase (m : OrderedMap κ ν) (k : κ) : OrderedMap κ ν :=
  ⟨m.entries.deleteWhere fun e => e.1 = k⟩

/-- Remove the entries whose value meets a condition. -/
def eraseIf (m : OrderedMap κ ν) (p : ν → Bool) : OrderedMap κ ν :=
  ⟨m.entries.deleteWhere fun e => p e.2⟩

/-- Keep the entries whose key meets a condition. -/
def restrict (m : OrderedMap κ ν) (p : κ → Bool) : OrderedMap κ ν :=
  ⟨m.entries.deleteWhere fun e => !p e.1⟩

/-- Drop the oldest entry of a map that holds `cap` entries or more. -/
def makeRoom (m : OrderedMap κ ν) (cap : ℕ) : OrderedMap κ ν :=
  match m.dropped cap with
  | some k => m.erase k
  | none => m

@[simp] theorem lookup_empty (k : κ) : (empty : OrderedMap κ ν).lookup k = none := rfl

theorem lookup_isSome_iff {m : OrderedMap κ ν} {k : κ} :
    (m.lookup k).isSome ↔ k ∈ m.entries.keys := by
  rw [lookup, Option.isSome_map, Table.mem_keys_iff, Option.isSome_iff_exists]

/-- What a key reads is its entry. -/
theorem lookup_eq_some_iff {m : OrderedMap κ ν} {k : κ} {v : ν} :
    m.lookup k = some v ↔ (k, v) ∈ m.entries.rows := by
  rw [lookup, Option.map_eq_some_iff]
  constructor
  · rintro ⟨⟨k', v'⟩, he, rfl⟩
    obtain rfl : k' = k := Table.get_key he
    exact Table.get_mem he
  · intro he
    exact ⟨(k, v), Table.get_of_mem he, rfl⟩

@[simp] theorem lookup_set_self (m : OrderedMap κ ν) (k : κ) (v : ν) :
    (m.set k v).lookup k = some v := by
  unfold set
  split
  · rename_i h
    obtain ⟨e, he⟩ := Table.mem_keys_iff.1 h
    simp [lookup, he]
  · rename_i h
    simp [lookup, Table.get_insert (a := (k, v)) h]

theorem lookup_set_of_ne (m : OrderedMap κ ν) {k k' : κ} (v : ν) (hne : k' ≠ k) :
    (m.set k v).lookup k' = m.lookup k' := by
  unfold set
  split
  · simp [lookup, Table.get_update, hne]
  · rename_i h
    simp [lookup, Table.get_insert (a := (k, v)) h, hne]

theorem lookup_set (m : OrderedMap κ ν) (k k' : κ) (v : ν) :
    (m.set k v).lookup k' = if k' = k then some v else m.lookup k' := by
  split
  · rename_i h
    rw [h, lookup_set_self]
  · rename_i h
    exact lookup_set_of_ne m v h

theorem lookup_erase (m : OrderedMap κ ν) (k k' : κ) :
    (m.erase k).lookup k' = if k' = k then none else m.lookup k' := by
  unfold lookup erase
  rw [Table.get_deleteWhere]
  cases h : m.entries.get k' with
  | none => simp
  | some e =>
    have hkey : e.1 = k' := Table.get_key h
    by_cases hk : k' = k
    · simp [hkey, hk]
    · simp [Option.filter, hkey, hk]

theorem lookup_eraseIf (m : OrderedMap κ ν) (p : ν → Bool) (k : κ) :
    (m.eraseIf p).lookup k = (m.lookup k).filter (fun v => !p v) := by
  unfold lookup eraseIf
  rw [Table.get_deleteWhere]
  cases m.entries.get k with
  | none => rfl
  | some e => cases h : p e.2 <;> simp [Option.filter, h]

theorem lookup_restrict (m : OrderedMap κ ν) (p : κ → Bool) (k : κ) :
    (m.restrict p).lookup k = if p k then m.lookup k else none := by
  unfold lookup restrict
  rw [Table.get_deleteWhere]
  cases h : m.entries.get k with
  | none => simp
  | some e =>
    have hkey : e.1 = k := Table.get_key h
    cases hp : p k <;> simp [Option.filter, hkey, hp]

/-! ## Entries -/

theorem mem_erase {m : OrderedMap κ ν} {k : κ} {e : κ × ν} :
    e ∈ (m.erase k).entries.rows ↔ e ∈ m.entries.rows ∧ e.1 ≠ k := by
  rw [erase, Table.mem_deleteWhere, decide_eq_false_iff_not]

theorem size_erase_le (m : OrderedMap κ ν) (k : κ) : (m.erase k).size ≤ m.size :=
  List.length_filter_le _ _

/-- Removing a key that is there makes the map smaller. -/
theorem size_erase_lt {m : OrderedMap κ ν} {k : κ} (h : k ∈ m.entries.keys) :
    (m.erase k).size < m.size := by
  obtain ⟨e, he, rfl⟩ := List.mem_map.1 h
  exact List.length_filter_lt_length_iff_exists.2 ⟨e, he, by simp⟩

/-- The entries of a key that is set again stay in place. -/
theorem rows_set_of_mem {m : OrderedMap κ ν} {k : κ} (v : ν) (h : k ∈ m.entries.keys) :
    (m.set k v).entries.rows =
      m.entries.rows.map fun e => if e.1 = k then (e.1, v) else e := by
  rw [set, if_pos h]
  simp only [Table.update, Table.updateWhere, decide_eq_true_eq]

theorem rows_set_of_not_mem {m : OrderedMap κ ν} {k : κ} (v : ν) (h : k ∉ m.entries.keys) :
    (m.set k v).entries.rows = m.entries.rows ++ [(k, v)] := by
  rw [set, if_neg h, Table.insert, dif_neg h]

theorem size_set_of_mem {m : OrderedMap κ ν} {k : κ} (v : ν) (h : k ∈ m.entries.keys) :
    (m.set k v).size = m.size := by
  rw [size, rows_set_of_mem v h, List.length_map, size]

theorem size_set_of_not_mem {m : OrderedMap κ ν} {k : κ} (v : ν) (h : k ∉ m.entries.keys) :
    (m.set k v).size = m.size + 1 := by
  rw [size, rows_set_of_not_mem v h, List.length_append, List.length_singleton, size]

/-! ## Making room -/

theorem lookup_makeRoom (m : OrderedMap κ ν) (cap : ℕ) (k : κ) :
    (m.makeRoom cap).lookup k = if m.dropped cap = some k then none else m.lookup k := by
  unfold makeRoom
  cases h : m.dropped cap with
  | none => simp
  | some k' =>
    simp only [lookup_erase, Option.some.injEq]
    by_cases hk : k = k'
    · simp [hk]
    · simp [hk, Ne.symm hk]

theorem lookup_makeRoom_of_ne {m : OrderedMap κ ν} {cap : ℕ} {k : κ}
    (h : m.dropped cap ≠ some k) : (m.makeRoom cap).lookup k = m.lookup k := by
  rw [lookup_makeRoom, if_neg h]

/-- A map that holds no more than it may has room for one more afterwards. -/
theorem size_makeRoom_lt {m : OrderedMap κ ν} {cap : ℕ} (hcap : 0 < cap) (h : m.size ≤ cap) :
    (m.makeRoom cap).size < cap := by
  unfold makeRoom
  cases hdropped : m.dropped cap with
  | none =>
    by_contra hfull
    rw [dropped, if_pos (not_lt.1 hfull), oldest, Option.map_eq_none_iff,
      List.head?_eq_none_iff] at hdropped
    rw [size, hdropped] at hfull
    exact hfull hcap
  | some k => exact (size_erase_lt (oldest_mem (oldest_of_dropped hdropped))).trans_le h

theorem rows_makeRoom_sublist (m : OrderedMap κ ν) (cap : ℕ) :
    (m.makeRoom cap).entries.rows.Sublist m.entries.rows := by
  unfold makeRoom
  split
  · exact List.filter_sublist
  · exact List.Sublist.refl _

end OrderedMap
