import Mathlib.Data.List.Basic
import Mathlib.Tactic

/-!
# Lists of fields

An object as the list of its fields, a key with a value each. Of two fields with
one key the later counts; a key that is set is changed in place, or added at the
end.

* `get`, `set`, `erase` — reading and writing a key, with `get_set`, `set_set`,
  `get_erase`;
* `mapValues` — a function of key and value at every field, with `get_mapValues`
  and `mapValues_set`;
* `set_mapValues_congr` — two functions that agree on all keys but one.
-/

namespace Fields

variable {κ α β γ : Type*} [DecidableEq κ]

/-- The value of a key. -/
def get : List (κ × α) → κ → Option α
  | [], _ => none
  | (k', v) :: rest, k => (get rest k).or (if k' = k then some v else none)

/-- Give a key a value. -/
def set (fs : List (κ × α)) (k : κ) (v : α) : List (κ × α) :=
  if k ∈ fs.map Prod.fst then fs.map fun e => if e.1 = k then (k, v) else e else fs ++ [(k, v)]

/-- Remove a key. -/
def erase (fs : List (κ × α)) (k : κ) : List (κ × α) := fs.filter fun e => e.1 ≠ k

/-- Change every value. -/
def mapValues (f : κ → α → β) (fs : List (κ × α)) : List (κ × β) := fs.map fun e => (e.1, f e.1 e.2)

/-! ## Reading -/

theorem get_eq_none_iff {fs : List (κ × α)} {k : κ} : get fs k = none ↔ k ∉ fs.map Prod.fst := by
  induction fs with
  | nil => simp [get]
  | cons e fs ih =>
    obtain ⟨k', v⟩ := e
    rw [get, Option.or_eq_none_iff, ih, List.map_cons, List.mem_cons, not_or, and_comm]
    by_cases hk : k' = k
    · simp [hk]
    · simp [hk, Ne.symm hk]

theorem mem_keys_of_get {fs : List (κ × α)} {k : κ} {v : α} (h : get fs k = some v) :
    k ∈ fs.map Prod.fst := by
  by_contra hk
  rw [get_eq_none_iff.2 hk] at h
  cases h

theorem get_append (fs gs : List (κ × α)) (k : κ) : get (fs ++ gs) k = (get gs k).or (get fs k) := by
  induction fs with
  | nil => simp [get]
  | cons e fs ih => rw [List.cons_append, get, get, ih, Option.or_assoc]

theorem get_replace (fs : List (κ × α)) (k : κ) (v : α) (k' : κ) :
    get (fs.map fun e => if e.1 = k then (k, v) else e) k' =
      if k' = k ∧ k ∈ fs.map Prod.fst then some v else get fs k' := by
  induction fs with
  | nil => simp [get]
  | cons e fs ih =>
    obtain ⟨c, w⟩ := e
    simp only [List.map_cons, List.mem_cons]
    by_cases hc : c = k
    · subst hc
      rw [if_pos rfl, get, ih, get]
      by_cases hk : k' = c
      · subst hk
        by_cases hmem : k' ∈ fs.map Prod.fst
        · simp [hmem]
        · simp [hmem, get_eq_none_iff.2 hmem]
      · simp [hk, Ne.symm hk]
    · rw [if_neg hc, get, ih, get]
      by_cases hk : k' = k
      · subst hk
        by_cases hmem : k' ∈ fs.map Prod.fst <;> simp [hc, Ne.symm hc, hmem]
      · simp [hk]

theorem get_set (fs : List (κ × α)) (k : κ) (v : α) (k' : κ) :
    get (set fs k v) k' = if k' = k then some v else get fs k' := by
  rw [set]
  split
  case isTrue hmem =>
    rw [get_replace]
    simp [hmem]
  case isFalse hmem =>
    rw [get_append]
    by_cases hk : k' = k
    · simp [get, hk]
    · simp [get, hk, Ne.symm hk]

@[simp] theorem get_set_self (fs : List (κ × α)) (k : κ) (v : α) : get (set fs k v) k = some v := by
  rw [get_set, if_pos rfl]

theorem get_set_of_ne (fs : List (κ × α)) {k k' : κ} (v : α) (h : k' ≠ k) :
    get (set fs k v) k' = get fs k' := by
  rw [get_set, if_neg h]

theorem get_erase (fs : List (κ × α)) (k k' : κ) :
    get (erase fs k) k' = if k' = k then none else get fs k' := by
  induction fs with
  | nil => simp [erase, get]
  | cons e fs ih =>
    obtain ⟨c, w⟩ := e
    rw [erase] at ih ⊢
    rw [List.filter_cons]
    by_cases hc : c = k
    · subst hc
      rw [if_neg (by simp), ih, get]
      by_cases hk : k' = c
      · simp [hk]
      · simp [hk, Ne.symm hk]
    · rw [if_pos (by simpa using hc), get, ih, get]
      by_cases hk : k' = k
      · subst hk
        simp [hc]
      · simp [hk]

/-! ## Writing -/

omit [DecidableEq κ] in
@[simp] theorem keys_mapValues (f : κ → α → β) (fs : List (κ × α)) :
    (mapValues f fs).map Prod.fst = fs.map Prod.fst := by
  simp [mapValues]

theorem mem_keys_set (fs : List (κ × α)) (k : κ) (v : α) : k ∈ (set fs k v).map Prod.fst :=
  mem_keys_of_get (get_set_self fs k v)

/-- The last write counts. -/
@[simp] theorem set_set (fs : List (κ × α)) (k : κ) (v w : α) :
    set (set fs k v) k w = set fs k w := by
  rw [set, if_pos (mem_keys_set fs k v), set, set]
  split
  · rw [List.map_map]
    refine List.map_congr_left fun e _ => ?_
    by_cases he : e.1 = k <;> simp [he]
  case isFalse hk =>
    rw [List.map_append, List.map_cons, List.map_nil, if_pos rfl]
    congr 1
    refine (List.map_congr_left fun e he => ?_).trans (List.map_id fs)
    refine if_neg fun hek => hk ?_
    rw [← hek]
    exact List.mem_map_of_mem he

theorem get_mapValues (f : κ → α → β) (fs : List (κ × α)) (k : κ) :
    get (mapValues f fs) k = (get fs k).map (f k) := by
  induction fs with
  | nil => rfl
  | cons e fs ih =>
    obtain ⟨c, v⟩ := e
    rw [mapValues] at ih ⊢
    rw [List.map_cons, get, ih, get]
    by_cases hc : c = k
    · subst hc
      cases get fs c <;> simp
    · simp [hc]

omit [DecidableEq κ] in
theorem mapValues_congr {f g : κ → α → β} {fs : List (κ × α)}
    (h : ∀ e ∈ fs, f e.1 e.2 = g e.1 e.2) : mapValues f fs = mapValues g fs :=
  List.map_congr_left fun e he => by rw [h e he]

/-- Writing a key and changing every value. -/
theorem mapValues_set (f : κ → α → β) (fs : List (κ × α)) (k : κ) (v : α) :
    mapValues f (set fs k v) = set (mapValues f fs) k (f k v) := by
  rw [set, set, keys_mapValues]
  split
  · rw [mapValues, mapValues, List.map_map, List.map_map]
    refine List.map_congr_left fun e _ => ?_
    by_cases he : e.1 = k
    · simp [he]
    · simp [he]
  · simp [mapValues]

/-- What a written key held before does not count. -/
theorem set_mapValues_congr {f g : κ → α → β} (k : κ) (h : ∀ k' v, k' ≠ k → f k' v = g k' v)
    (fs : List (κ × α)) (x : β) : set (mapValues f fs) k x = set (mapValues g fs) k x := by
  rw [set, set, keys_mapValues, keys_mapValues]
  split
  · rw [mapValues, mapValues, List.map_map, List.map_map]
    refine List.map_congr_left fun e _ => ?_
    by_cases he : e.1 = k
    · simp [he]
    · simp [he, h e.1 e.2 he]
  case isFalse hk =>
    congr 1
    refine mapValues_congr fun e he => h e.1 e.2 fun hek => hk ?_
    rw [← hek]
    exact List.mem_map_of_mem he

end Fields
