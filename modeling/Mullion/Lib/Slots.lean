import Mathlib.Data.List.Basic

/-!
# Lists whose places are names

A list of records in which each record keeps its place, so that the place is the name of the record:
one entry is changed, or one is put at the end.

* `getElem?_modify_some`, `getElem?_concat_some` — what is where after that;
* `map_modify`, `map_modify_of_eq` — a view of the entries;
* `flatMap_filter_modify` — items that are collected under keys.
-/

namespace Slots

variable {α : Type}

theorem getElem?_modify_some {l : List α} {g : α → α} {i j : ℕ} {a : α} :
    (l.modify i g)[j]? = some a ↔ ∃ b, l[j]? = some b ∧ a = if i = j then g b else b := by
  rw [List.getElem?_modify, Option.map_eq_map, Option.map_eq_some_iff]
  constructor
  · rintro ⟨b, hb, rfl⟩
    exact ⟨b, hb, rfl⟩
  · rintro ⟨b, hb, rfl⟩
    exact ⟨b, hb, rfl⟩

theorem getElem?_concat_some {l : List α} {j : ℕ} {a b : α} :
    (l ++ [b])[j]? = some a ↔ l[j]? = some a ∨ j = l.length ∧ a = b := by
  rw [List.getElem?_append]
  split
  · next hlt =>
    constructor
    · exact .inl
    · rintro (h | ⟨rfl, -⟩)
      · exact h
      · omega
  · next hlt =>
    rw [List.getElem?_singleton]
    constructor
    · intro h
      split at h
      · cases h
        exact .inr ⟨by omega, rfl⟩
      · cases h
    · rintro (h | ⟨rfl, rfl⟩)
      · exact absurd (List.getElem?_eq_some_iff.1 h).1 hlt
      · rw [if_pos (by omega)]

theorem map_modify {β : Type} {p : α → β} {g : α → α} {g' : β → β} (hg : ∀ a, p (g a) = g' (p a))
    (l : List α) (k : ℕ) : (l.modify k g).map p = (l.map p).modify k g' := by
  induction l generalizing k with
  | nil => cases k <;> rfl
  | cons a l ih =>
    cases k with
    | zero => rw [List.modify_zero_cons, List.map_cons, List.map_cons, hg, List.modify_zero_cons]
    | succ k =>
      rw [List.modify_succ_cons, List.map_cons, List.map_cons, ih, List.modify_succ_cons]

/-- What a change of one entry leaves of the list. -/
theorem map_modify_of_eq {β : Type} {p : α → β} {g : α → α} (hg : ∀ a, p (g a) = p a) (l : List α)
    (k : ℕ) : (l.modify k g).map p = l.map p := by
  have hid : (l.modify k g).map p = (l.map p).modify k id := map_modify hg l k
  rw [hid, List.modify_id]

/-- An item is added to the last list under a key. -/
theorem flatMap_filter_modify {κ ι : Type} [DecidableEq κ] {l : List (κ × List ι)} {k : ℕ}
    {key : κ} {items : List ι} (item : ι) (hk : l[k]? = some (key, items))
    (hlast : ∀ k' e, k < k' → l[k']? = some e → e.1 ≠ key) (key' : κ) :
    ((l.modify k fun e => (e.1, e.2 ++ [item])).filter fun e => e.1 = key').flatMap Prod.snd =
      (l.filter fun e => e.1 = key').flatMap Prod.snd ++ if key = key' then [item] else [] := by
  induction l generalizing k with
  | nil => cases hk
  | cons e l ih =>
    cases k with
    | zero =>
      cases hk
      rw [List.modify_zero_cons]
      by_cases heq : key = key'
      · subst heq
        have hnone : l.filter (fun e => e.1 = key) = [] := by
          refine List.filter_eq_nil_iff.2 fun e he => ?_
          obtain ⟨n, hn⟩ := List.mem_iff_getElem?.1 he
          simpa using hlast (n + 1) e (Nat.succ_pos n) hn
        simp [hnone]
      · simp [heq]
    | succ k =>
      have hrest := ih hk fun k' e' hlt he' => hlast (k' + 1) e' (Nat.succ_lt_succ hlt) he'
      rw [List.modify_succ_cons, List.filter_cons, List.filter_cons]
      split
      · rw [List.flatMap_cons, List.flatMap_cons, hrest, List.append_assoc]
      · exact hrest

end Slots
