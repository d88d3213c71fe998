import Mathlib.Data.List.Sort

/-!
# A sorted window of bounded size

A list of at most `size` elements, sorted by a key. A new element is put behind
the ones it is sorted after (elements with the same key keep the order in which
they came), and when the list has become too long its first elements fall out.

* `push` adds one element, as "append, sort stably, keep the last `size`";
* `push_perm` says that nothing falls out while there is room;
* `push_below` and `push_full` say what falls out of a full window: the new
  element when its key is below all others, else the first of the list.
-/

namespace Window

variable {α κ : Type*} [LinearOrder κ] (key : α → κ)

/-- The list is sorted by the key. -/
def Sorted (held : List α) : Prop := held.Pairwise fun a b => key a ≤ key b

/-- Append an element, sort stably by the key and keep the last `size` elements. -/
def push (size : ℕ) (held : List α) (e : α) : List α :=
  let next := (held ++ [e]).mergeSort fun a b => key a ≤ key b
  next.drop (next.length - size)

variable {key} {size : ℕ} {held rest : List α} {e x : α}

/-- The order that the sort compares with. -/
theorem le_trans' (key : α → κ) (a b c : α) (hab : decide (key a ≤ key b) = true)
    (hbc : decide (key b ≤ key c) = true) : decide (key a ≤ key c) = true := by
  rw [decide_eq_true_eq] at hab hbc ⊢
  exact hab.trans hbc

theorem le_total' (key : α → κ) (a b : α) :
    (decide (key a ≤ key b) || decide (key b ≤ key a)) = true := by
  rw [Bool.or_eq_true, decide_eq_true_eq, decide_eq_true_eq]
  exact le_total _ _

theorem mergeSort_sorted (l : List α) : Sorted key (l.mergeSort fun a b => key a ≤ key b) := by
  have h : (l.mergeSort fun a b => key a ≤ key b).Pairwise fun a b => decide (key a ≤ key b) :=
    List.pairwise_mergeSort (le_trans' key) (le_total' key) l
  exact h.imp fun hab => by simpa using hab

/-- The first element of a list is sorted before the first greater one. -/
theorem mergeSort_cons (key : α → κ) (a : α) (l : List α) :
    ∃ below above, ((a :: l).mergeSort fun a b => key a ≤ key b) = below ++ a :: above ∧
      (l.mergeSort fun a b => key a ≤ key b) = below ++ above ∧ ∀ b ∈ below, key b < key a := by
  obtain ⟨below, above, hcons, hrest, hbelow⟩ :=
    List.mergeSort_cons (le_trans' key) (le_total' key) a l
  exact ⟨below, above, hcons, hrest, fun b hb => by simpa using hbelow b hb⟩

/-- Sorting puts a new last element before the first element with a greater key. -/
theorem mergeSort_concat (h : Sorted key held) (e : α) :
    ((held ++ [e]).mergeSort fun a b => key a ≤ key b) =
      held.takeWhile (fun a => key a ≤ key e) ++ e :: held.dropWhile (fun a => key a ≤ key e) := by
  induction held with
  | nil => exact List.mergeSort_singleton e
  | cons a rest ih =>
    obtain ⟨hfirst, hrest⟩ := List.pairwise_cons.1 h
    obtain ⟨below, above, hcons, hsplit, hbelow⟩ := mergeSort_cons key a (rest ++ [e])
    rw [List.cons_append, hcons]
    rw [ih hrest] at hsplit
    have hmem : ∀ b ∈ below, b = e := by
      intro b hb
      have hb' : b ∈ (rest ++ [e]).mergeSort fun a b => key a ≤ key b := by
        rw [ih hrest, hsplit]
        exact List.mem_append_left _ hb
      rcases List.mem_append.1 (List.mem_mergeSort.1 hb') with hb' | hb'
      · exact absurd (hfirst b hb') (not_le.2 (hbelow b hb))
      · exact List.mem_singleton.1 hb'
    by_cases hle : key a ≤ key e
    · have hnone : below = [] := List.eq_nil_iff_forall_not_mem.2 fun b hb =>
        absurd hle (not_le.2 (hmem b hb ▸ hbelow b hb))
      subst hnone
      rw [List.nil_append] at hsplit ⊢
      rw [List.takeWhile_cons_of_pos (by simpa using hle),
        List.dropWhile_cons_of_pos (by simpa using hle), List.cons_append, hsplit]
    · -- everything behind `a` is above the new element too
      have hall : rest.takeWhile (fun b => key b ≤ key e) = [] ∧
          rest.dropWhile (fun b => key b ≤ key e) = rest := by
        cases rest with
        | nil => exact ⟨rfl, rfl⟩
        | cons b rest =>
          have hb : ¬ key b ≤ key e := fun hb => hle ((hfirst b List.mem_cons_self).trans hb)
          exact ⟨List.takeWhile_cons_of_neg (by simpa using hb),
            List.dropWhile_cons_of_neg (by simpa using hb)⟩
      rw [hall.1, hall.2, List.nil_append] at hsplit
      rw [List.takeWhile_cons_of_neg (by simpa using hle),
        List.dropWhile_cons_of_neg (by simpa using hle), List.nil_append]
      have hsorted : Sorted key (below ++ a :: above) := hcons ▸ mergeSort_sorted _
      cases below with
      | nil =>
        -- then `a` would stand before the new element
        rw [List.nil_append] at hsplit hsorted
        exact absurd ((List.pairwise_cons.1 hsorted).1 e (hsplit ▸ List.mem_cons_self)) hle
      | cons b below =>
        rw [List.cons_append, List.cons.injEq] at hsplit
        obtain ⟨rfl, hsplit⟩ := hsplit
        have hnone : below = [] := by
          rw [List.eq_nil_iff_forall_not_mem]
          intro b hb
          have hbrest : b ∈ rest := hsplit ▸ List.mem_append_left _ hb
          exact absurd (hfirst b hbrest) (not_le.2 (hbelow b (List.mem_cons_of_mem _ hb)))
        subst hnone
        rw [List.nil_append] at hsplit
        rw [hsplit, List.singleton_append]

/-- The window stays sorted. -/
theorem push_sorted (size : ℕ) (held : List α) (e : α) : Sorted key (push key size held e) :=
  (mergeSort_sorted _).sublist (List.drop_sublist _ _)

/-- The window keeps its size. -/
theorem push_length_le (size : ℕ) (held : List α) (e : α) :
    (push key size held e).length ≤ size := by
  rw [push, List.length_drop]
  omega

/-- While there is room, nothing falls out. -/
theorem push_perm (key : α → κ) (hroom : held.length < size) (e : α) :
    (push key size held e).Perm (e :: held) := by
  have hlen : (held ++ [e]).length - size = 0 := by
    rw [List.length_append, List.length_singleton]
    omega
  rw [push, List.length_mergeSort, hlen, List.drop_zero]
  exact (List.mergeSort_perm _ _).trans List.perm_append_comm

/-- While there is room, an element that is above the others is put behind them. -/
theorem push_concat (h : Sorted key (held ++ [e])) (hroom : held.length < size) :
    push key size held e = held ++ [e] := by
  have hlen : (held ++ [e]).length - size = 0 := by
    rw [List.length_append, List.length_singleton]
    omega
  rw [push, List.length_mergeSort, hlen, List.drop_zero]
  exact List.mergeSort_of_pairwise (h.imp fun hab => by simpa using hab)

/-- An element below a full window falls out itself. -/
theorem push_below (h : Sorted key (x :: rest)) (hfull : (x :: rest).length = size)
    (hbelow : key e < key x) : push key size (x :: rest) e = x :: rest := by
  have hx : ¬ key x ≤ key e := not_le.2 hbelow
  rw [push, mergeSort_concat h, List.takeWhile_cons_of_neg (by simpa using hx),
    List.dropWhile_cons_of_neg (by simpa using hx), List.nil_append, ← hfull,
    List.length_cons, Nat.add_sub_cancel_left, List.drop_one, List.tail_cons]

/-- Any other element takes the place of the first of a full window. -/
theorem push_full (h : Sorted key (x :: rest)) (hfull : (x :: rest).length = size)
    (habove : key x ≤ key e) : (push key size (x :: rest) e).Perm (e :: rest) := by
  rw [push, mergeSort_concat h, List.takeWhile_cons_of_pos (by simpa using habove),
    List.dropWhile_cons_of_pos (by simpa using habove), List.cons_append]
  have hperm : (rest.takeWhile (fun a => key a ≤ key e) ++
      e :: rest.dropWhile fun a => key a ≤ key e).Perm (e :: rest) := by
    refine List.perm_middle.trans ?_
    rw [List.takeWhile_append_dropWhile]
  have hone : (x :: (rest.takeWhile (fun a => key a ≤ key e) ++
      e :: rest.dropWhile fun a => key a ≤ key e)).length - size = 1 := by
    rw [List.length_cons, hperm.length_eq, ← hfull, List.length_cons, List.length_cons]
    omega
  rw [hone, List.drop_one, List.tail_cons]
  exact hperm

end Window
