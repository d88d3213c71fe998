import Mathlib.Data.List.Basic
import Mathlib.Data.List.Nodup
import Mathlib.Tactic

/-!
# Journals

A journal is a table whose rows get their key from a counter that never goes back: a row
that is added has a larger key than every row there ever was. The rows stand newest first.

* `Journal.push` adds a row, `Journal.skip` spends a key without a row, and
  `Journal.deleteWhere` removes rows;
* `Journal.select` reads the rows that meet a condition, newest first;
* `Journal.Later` — what became of a journal: old rows may be gone, rows may have been
  added, and an old key names the row it always named;
* `mem_take_or_below` — a page of a sorted list holds a row, or the row lies below it;
* `select_deleteBefore` — deleting what lies below the `n`-th row leaves the newest `n`.
-/

/-- Rows, newest first, with keys below a counter. -/
structure Journal (α : Type*) (key : α → ℕ) where
  rows : List α
  next : ℕ
  sorted : rows.Pairwise (fun a b => key b < key a)
  fresh : ∀ a ∈ rows, key a < next

namespace Journal

variable {α : Type*} {key : α → ℕ}

/-- The journal that was never written to. -/
def empty : Journal α key := ⟨[], 1, List.Pairwise.nil, by simp⟩

/-- Add the row that `make` builds for the next key. -/
def push (j : Journal α key) (make : ℕ → α) (hmake : ∀ n, key (make n) = n) : Journal α key where
  rows := make j.next :: j.rows
  next := j.next + 1
  sorted := by
    rw [List.pairwise_cons]
    refine ⟨?_, j.sorted⟩
    intro a ha
    rw [hmake]
    exact j.fresh a ha
  fresh := by
    intro a ha
    rcases List.mem_cons.1 ha with rfl | ha
    · rw [hmake]
      omega
    · have := j.fresh a ha
      omega

/-- Spend the next key on nothing. -/
def skip (j : Journal α key) : Journal α key where
  rows := j.rows
  next := j.next + 1
  sorted := j.sorted
  fresh := fun a ha => (j.fresh a ha).trans (Nat.lt_succ_self _)

/-- Remove the rows that meet a condition. -/
def deleteWhere (j : Journal α key) (p : α → Bool) : Journal α key where
  rows := j.rows.filter (fun a => !p a)
  next := j.next
  sorted := j.sorted.filter _
  fresh := fun a ha => j.fresh a (List.mem_of_mem_filter ha)

/-- The rows that meet a condition, newest first. -/
def select (j : Journal α key) (p : α → Bool) : List α := j.rows.filter p

theorem mem_deleteWhere {j : Journal α key} {p : α → Bool} {a : α} :
    a ∈ (j.deleteWhere p).rows ↔ a ∈ j.rows ∧ p a = false := by
  simp [deleteWhere]

theorem mem_select {j : Journal α key} {p : α → Bool} {a : α} :
    a ∈ j.select p ↔ a ∈ j.rows ∧ p a = true := by
  simp [select]

theorem select_sorted (j : Journal α key) (p : α → Bool) :
    (j.select p).Pairwise (fun a b => key b < key a) := j.sorted.filter p

theorem select_deleteWhere (j : Journal α key) (p q : α → Bool) :
    (j.deleteWhere q).select p = (j.select p).filter (fun a => !q a) := by
  rw [select, select, deleteWhere, List.filter_filter, List.filter_filter]
  refine List.filter_congr ?_
  intro a _
  exact Bool.and_comm _ _

/-- Deleting rows that a condition does not meet is not seen through the condition. -/
theorem select_deleteWhere_of_disjoint (j : Journal α key) {p q : α → Bool}
    (h : ∀ a, p a = true → q a = false) : (j.deleteWhere q).select p = j.select p := by
  rw [select_deleteWhere, List.filter_eq_self]
  intro a ha
  simp [h a (mem_select.1 ha).2]

/-! ## What becomes of a journal -/

/-- `j'` is what became of `j`: the counter did not go back, and a row whose key was
given out by then was there. -/
structure Later (j j' : Journal α key) : Prop where
  next_le : j.next ≤ j'.next
  old : ∀ a ∈ j'.rows, key a < j.next → a ∈ j.rows

theorem Later.refl (j : Journal α key) : Later j j := ⟨le_refl _, fun _ h _ => h⟩

theorem Later.trans {j j' j'' : Journal α key} (h : Later j j') (h' : Later j' j'') :
    Later j j'' where
  next_le := le_trans h.next_le h'.next_le
  old := by
    intro a ha hlt
    exact h.old a (h'.old a ha (lt_of_lt_of_le hlt h.next_le)) hlt

theorem later_push (j : Journal α key) (make : ℕ → α) (hmake : ∀ n, key (make n) = n) :
    Later j (j.push make hmake) where
  next_le := Nat.le_succ _
  old := by
    intro a ha hlt
    rcases List.mem_cons.1 ha with rfl | ha
    · rw [hmake] at hlt
      omega
    · exact ha

theorem later_skip (j : Journal α key) : Later j j.skip where
  next_le := Nat.le_succ _
  old := fun _ ha _ => ha

theorem later_deleteWhere (j : Journal α key) (p : α → Bool) : Later j (j.deleteWhere p) where
  next_le := le_refl _
  old := fun _ ha _ => (mem_deleteWhere.1 ha).1

/-! ## Pages of a sorted list -/

/-- A row of a sorted list is on the first page, or it lies below every row of the page. -/
theorem mem_take_or_below {l : List α} (h : l.Pairwise (fun a b => key b < key a)) (n : ℕ)
    {a : α} (ha : a ∈ l) : a ∈ l.take n ∨ ∀ b ∈ l.take n, key a < key b := by
  rw [← List.take_append_drop n l] at ha h
  rcases List.mem_append.1 ha with ha | ha
  · exact Or.inl ha
  · right
    intro b hb
    exact (List.pairwise_append.1 h).2.2 b hb a ha

/-- In a sorted list the rows below the row at position `n` are those after it. -/
theorem filter_not_below {l : List α} (h : l.Pairwise (fun a b => key b < key a)) {n : ℕ} {c : α}
    (hc : l[n]? = some c) : l.filter (fun a => !decide (key a < key c)) = l.take (n + 1) := by
  induction l generalizing n with
  | nil => simp at hc
  | cons a l ih =>
    rw [List.pairwise_cons] at h
    cases n with
    | zero =>
      simp only [List.getElem?_cons_zero, Option.some.injEq] at hc
      subst hc
      have hnone : l.filter (fun b => !decide (key b < key a)) = [] := by
        rw [List.filter_eq_nil_iff]
        intro b hb
        simp [h.1 b hb]
      rw [List.filter_cons_of_pos (by simp), hnone]
      simp
    | succ n =>
      rw [List.getElem?_cons_succ] at hc
      have hlt : key c < key a := h.1 c (List.mem_of_getElem? hc)
      rw [List.filter_cons_of_pos (by simpa using hlt.le), ih h.2 hc, List.take_succ_cons]

/-- **Retention.** Deleting, among the rows that meet a condition, those below the `n`-th
newest leaves the newest `n` of them. -/
theorem select_deleteBefore (j : Journal α key) (p : α → Bool) {n : ℕ} {c : α}
    (hc : (j.select p)[n]? = some c) :
    (j.deleteWhere (fun a => p a && decide (key a < key c))).select p =
      (j.select p).take (n + 1) := by
  rw [select_deleteWhere, ← filter_not_below (j.select_sorted p) hc]
  refine List.filter_congr ?_
  intro a ha
  simp [(mem_select.1 ha).2]

end Journal
