import Mathlib.Data.List.Induction

/-!
# Registers

A register is written by some of the entries of a log and keeps the last value written. What a
log leaves in a register is then known from the last entry that writes it, and nothing
else.

* `lastWrite` — the last value a log writes, if it writes any;
* `foldl_getD` — replaying a log leaves the last value written, or what was there;
* `Settled v` — a log that writes nothing, or `v` last: replaying it over `v` leaves `v`;
* `Settled.suffix` — the end of a settled log is settled;
* `Settled.append` — so is a settled log with a continuation, for the value the
  continuation leaves.
-/

namespace Register

variable {A V : Type*} (write : A → Option V)

/-- The last value a log writes. -/
def lastWrite (log : List A) : Option V := (log.filterMap write).getLast?

@[simp] theorem lastWrite_nil : lastWrite write [] = none := rfl

@[simp] theorem lastWrite_append (v w : List A) :
    lastWrite write (v ++ w) = (lastWrite write w).or (lastWrite write v) := by
  simp [lastWrite, List.getLast?_append]

theorem foldl_getD (log : List A) (v : V) :
    log.foldl (fun v a => (write a).getD v) v = (lastWrite write log).getD v := by
  induction log using List.reverseRecOn with
  | nil => rfl
  | append_singleton log a ih =>
    rw [List.foldl_append, ih, lastWrite_append]
    cases h : write a with
    | none => simp [lastWrite, h]
    | some x => simp [lastWrite, h]

/-- The log writes nothing, or `v` last. -/
def Settled (v : V) (log : List A) : Prop := ∀ x, lastWrite write log = some x → x = v

variable {write}

theorem settled_iff_foldl {v : V} {log : List A} :
    Settled write v log ↔ log.foldl (fun v a => (write a).getD v) v = v := by
  rw [foldl_getD]
  cases h : lastWrite write log with
  | none => simp [Settled, h]
  | some x => simp [Settled, h]

theorem Settled.suffix {v : V} {log log' : List A} (h : Settled write v log)
    (hs : log' <:+ log) : Settled write v log' := by
  obtain ⟨front, rfl⟩ := hs
  intro x hx
  apply h x
  rw [lastWrite_append, hx, Option.some_or]

/-- A settled log and a continuation are settled for what the continuation leaves. -/
theorem Settled.append {v : V} {log : List A} (h : Settled write v log) (more : List A) :
    Settled write ((lastWrite write more).getD v) (log ++ more) := by
  intro x hx
  rw [lastWrite_append] at hx
  cases hm : lastWrite write more with
  | none =>
    rw [hm, Option.none_or] at hx
    exact h x hx
  | some y =>
    rw [hm, Option.some_or] at hx
    exact (Option.some.inj hx).symm

end Register
