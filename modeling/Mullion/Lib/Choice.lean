import Mathlib.Data.List.MinMax
import Mathlib.Data.List.Nodup
import Mathlib.Tactic

/-!
# Choosing from a list

A loop that keeps the best element so far computes `List.argmin`, and what is chosen from a
list does not depend on its order where the choice is unique.

* `foldl_eq_argmin` — the loop;
* `argmin_perm` — permuting the list, when no two elements have the same value;
* `find?_perm` — permuting the list, when at most one element meets the condition.
-/

namespace Choice

variable {α β : Type*}

/-- Keeping the element with the smaller value, the earlier one on a tie, is `argmin`. -/
theorem foldl_eq_argmin [LinearOrder β] (f : α → β) (first : α) (rest : List α) :
    some (rest.foldl (fun best a => if f a < f best then a else best) first) =
      (first :: rest).argmin f := by
  have hfold : ∀ (l : List α) (a : α),
      some (l.foldl (fun best a => if f a < f best then a else best) a) =
        l.foldl (List.argAux fun b c => f b < f c) (some a) := by
    intro l
    induction l with
    | nil => exact fun _ => rfl
    | cons b l ih =>
      intro a
      rw [List.foldl_cons, List.foldl_cons, ih]
      congr 1
      simp only [List.argAux]
      split <;> rfl
  exact hfold rest first

/-- Where no two elements have the same value, the order of a list does not matter. -/
theorem argmin_perm [LinearOrder β] {f : α → β} {l l' : List α} (hperm : l.Perm l')
    (hinj : ∀ a ∈ l, ∀ b ∈ l, f a = f b → a = b) : l.argmin f = l'.argmin f := by
  cases h : l.argmin f with
  | none =>
    rw [List.argmin_eq_none] at h
    subst h
    rw [List.nil_perm.1 hperm, List.argmin_nil]
  | some m =>
    cases h' : l'.argmin f with
    | none =>
      rw [List.argmin_eq_none] at h'
      subst h'
      rw [List.perm_nil.1 hperm] at h
      cases h
    | some m' =>
      have hm : m ∈ l := List.argmin_mem h
      have hm' : m' ∈ l := hperm.mem_iff.2 (List.argmin_mem h')
      have hle : f m ≤ f m' := List.le_of_mem_argmin hm' h
      have hle' : f m' ≤ f m := List.le_of_mem_argmin (hperm.mem_iff.1 hm) h'
      rw [hinj m hm m' hm' (le_antisymm hle hle')]

/-- Where at most one element meets a condition, the order of a list does not matter. -/
theorem find?_perm {p : α → Bool} {l l' : List α} (hperm : l.Perm l')
    (huniq : ∀ a ∈ l, ∀ b ∈ l, p a = true → p b = true → a = b) : l.find? p = l'.find? p := by
  cases h : l.find? p with
  | none =>
    rw [List.find?_eq_none] at h
    rw [eq_comm, List.find?_eq_none]
    exact fun a ha => h a (hperm.mem_iff.2 ha)
  | some a =>
    have ha := List.mem_of_find?_eq_some h
    have hpa := List.find?_some h
    cases h' : l'.find? p with
    | none =>
      rw [List.find?_eq_none] at h'
      exact absurd hpa (h' a (hperm.mem_iff.1 ha))
    | some b =>
      have hb := hperm.mem_iff.2 (List.mem_of_find?_eq_some h')
      rw [huniq a ha b hb hpa (List.find?_some h')]

end Choice
