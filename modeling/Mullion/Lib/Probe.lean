import Mathlib.Data.Finset.Card
import Mathlib.Data.Nat.Find
import Mathlib.Logic.Function.Iterate

/-!
# Bounded probing

A search that starts at a place, steps on while the place it looks at is taken, and gives
up after a number of taken places: linear probing, or an allocator that skips the
identifiers in use.

* `probe` — the search;
* `probe_free`, `probe_invariant` — what holds of the place it finds;
* `probe_eq_none_iff` — it gives up exactly when all it may look at is taken;
* `probe_isSome_of_card` — it gets to a free place whenever the budget is at least the
  number of taken places and no place is looked at twice on the way.
-/

namespace Probe

variable {α : Type*} (taken : α → Prop) [DecidablePred taken] (step : α → α)

/-- The first place from `a` on that is not taken, or nothing once more than `budget`
places were. -/
def probe : ℕ → α → Option α
  | 0, a => if taken a then none else some a
  | budget + 1, a => if taken a then probe budget (step a) else some a

variable {taken step} {budget k : ℕ} {a b : α}

/-- The place that is found is free. -/
theorem probe_free (h : probe taken step budget a = some b) : ¬ taken b := by
  induction budget generalizing a with
  | zero =>
    rw [probe] at h
    split at h
    · cases h
    · rename_i ha
      cases h
      exact ha
  | succ budget ih =>
    rw [probe] at h
    split at h
    · exact ih h
    · rename_i ha
      cases h
      exact ha

/-- What holds at the start and is kept by every step holds of the place that is found. -/
theorem probe_invariant {P : α → Prop} (hstep : ∀ a, P a → P (step a)) (ha : P a)
    (h : probe taken step budget a = some b) : P b := by
  induction budget generalizing a with
  | zero =>
    rw [probe] at h
    split at h
    · cases h
    · cases h
      exact ha
  | succ budget ih =>
    rw [probe] at h
    split at h
    · exact ih (hstep a ha) h
    · cases h
      exact ha

/-- The search gives up exactly when the start and the next `budget` places are taken. -/
theorem probe_eq_none_iff :
    probe taken step budget a = none ↔ ∀ k ≤ budget, taken (step^[k] a) := by
  induction budget generalizing a with
  | zero =>
    rw [probe]
    split
    · rename_i ha
      exact iff_of_true rfl fun k hk => by rwa [Nat.le_zero.1 hk]
    · rename_i ha
      exact iff_of_false nofun fun h => ha (h 0 le_rfl)
  | succ budget ih =>
    rw [probe]
    split
    · rename_i ha
      rw [ih]
      constructor
      · intro h k hk
        cases k with
        | zero => exact ha
        | succ k => exact h k (Nat.le_of_succ_le_succ hk)
      · exact fun h k hk => h (k + 1) (Nat.succ_le_succ hk)
    · rename_i ha
      exact iff_of_false nofun fun h => ha (h 0 (Nat.zero_le _))

/-- The first free place on the way to a free one. -/
theorem exists_first_free (h : ¬ taken (step^[k] a)) :
    ∃ j ≤ k, ¬ taken (step^[j] a) ∧ ∀ i < j, taken (step^[i] a) := by
  classical
  have hex : ∃ j, ¬ taken (step^[j] a) := ⟨k, h⟩
  exact ⟨Nat.find hex, Nat.find_min' hex h, Nat.find_spec hex,
    fun i hi => not_not.1 (Nat.find_min hex hi)⟩

/-- A free place that is reached without looking at any place twice is worth the wait:
the places before it are distinct and taken, so there are no more of them than taken
places in all. -/
theorem probe_isSome_of_card {places : Finset α} (hplaces : ∀ a, taken a → a ∈ places)
    (hcard : places.card ≤ budget) (hfree : ¬ taken (step^[k] a))
    (hinj : Set.InjOn (fun i => step^[i] a) (Set.Iio k)) :
    ∃ b, probe taken step budget a = some b := by
  obtain ⟨j, hjk, hj, hbefore⟩ := exists_first_free hfree
  have hle : (Finset.range j).card ≤ places.card := by
    refine Finset.card_le_card_of_injOn (fun i => step^[i] a) ?_ ?_
    · intro i hi
      exact hplaces _ (hbefore i (Finset.mem_range.1 hi))
    · exact hinj.mono fun i hi => lt_of_lt_of_le (Finset.mem_range.1 hi) hjk
  rw [Finset.card_range] at hle
  refine Option.ne_none_iff_exists'.1 fun hnone => hj ?_
  exact probe_eq_none_iff.1 hnone j (hle.trans hcard)

end Probe
