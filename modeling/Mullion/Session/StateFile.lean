import Mathlib.Tactic
import Mullion.Lib.Run

/-!
# The state file of a session

`SessionStateFile` (`session-state-file.ts`) writes the state of a session with a delay of 5 s,
which every change starts again, and a ceiling of 30 s, which the first change starts. So a change
that is not saved should be at most 30 s old. `World` has the file with its two timers, the time,
and what has been scheduled and attempted; time passes only up to the next timer, so no timer is
ever late.

The bound is carried by `InTime`: while the file is dirty, the oldest change is at most 30 s old and
a timer is due by then. The ceiling gives it after a first change. After a failed write the file is
dirty without a ceiling, and only the delay of the calls that follow is left; each of them starts it
again. A call that comes within 25 s of the oldest unsaved change leaves a timer that is due in time
(`Spaced`). One that comes later leaves the file `Late`: its timer is due after the 30 s. So the
bound holds along a run exactly when all calls are spaced (`bounded_iff`), and `burst_after_failure`
is a run in which it does not.
-/

namespace Mullion
namespace StateFile

/-- `MAX_WRITE_DELAY_MS`. -/
def maxWriteDelay : ℕ := 30000

/-- The delay of `schedule`. -/
def writeDelay : ℕ := 5000

/-- The fields of a `SessionStateFile`. A timer that is armed is the time when it is due. -/
structure SessionStateFile where
  dirty : Bool := false
  timeout : Option ℕ := none
  firstDirtyAt : Option ℕ := none
  ceilingTimeout : Option ℕ := none
  writesDisabled : Bool := false
  deriving DecidableEq

/-- `schedule`. -/
def SessionStateFile.schedule (file : SessionStateFile) (now : ℕ) : SessionStateFile :=
  if file.writesDisabled then file
  else
    let wasAlreadyDirty := file.dirty
    let file := { file with dirty := true, timeout := some (now + writeDelay) }
    if wasAlreadyDirty then file
    else { file with firstDirtyAt := some now, ceilingTimeout := some (now + maxWriteDelay) }

/-- `flush`, whose write succeeds or fails; the file and whether a write was attempted. -/
def SessionStateFile.flush (file : SessionStateFile) (written : Bool) : SessionStateFile × Bool :=
  if !file.dirty then (file, false)
  else
    let file := { file with timeout := none, ceilingTimeout := none }
    if written then ({ file with dirty := false, firstDirtyAt := none }, true)
    else (file, true)

/-- `disable`. -/
def SessionStateFile.disable (file : SessionStateFile) : SessionStateFile :=
  { file with writesDisabled := true }

/-! ## Runs -/

/-- How the last write ended. -/
inductive Attempt where
  | none
  | failed
  | written
  deriving DecidableEq

/-- A file, the time, and two facts about the past. -/
structure World where
  file : SessionStateFile := {}
  now : ℕ := 0
  /-- the first `schedule` since the last write attempt -/
  since : Option ℕ := none
  /-- the last write attempt -/
  last : Attempt := .none
  deriving DecidableEq

/-- The two timers. -/
inductive Timer where
  | timeout
  | ceiling
  deriving DecidableEq

/-- When a timer is due. -/
def SessionStateFile.due (file : SessionStateFile) : Timer → Option ℕ
  | .timeout => file.timeout
  | .ceiling => file.ceilingTimeout

/-- What can happen. -/
inductive Label where
  | schedule
  /-- a timer fires, and the write succeeds or fails -/
  | fire (timer : Timer) (written : Bool)
  | pass (time : ℕ)
  /-- `Session.kill`: `disable`, then `flush` -/
  | kill (written : Bool)
  deriving DecidableEq

/-- `flush`, and what is known of it afterwards. -/
def World.flush (w : World) (written : Bool) : World :=
  if (w.file.flush written).2 then
    { w with
      file := (w.file.flush written).1
      since := none
      last := if written then .written else .failed }
  else { w with file := (w.file.flush written).1 }

/-- `schedule`, and what is known of it afterwards. -/
def World.schedule (w : World) : World :=
  { w with
    file := w.file.schedule w.now
    since := if w.file.writesDisabled then w.since else some (w.since.getD w.now) }

/-- A timer that fires is no longer armed when its callback runs. -/
def SessionStateFile.disarm (file : SessionStateFile) : Timer → SessionStateFile
  | .timeout => { file with timeout := none }
  | .ceiling => { file with ceilingTimeout := none }

/-- No armed timer is due before the given time. -/
def SessionStateFile.AllDueFrom (file : SessionStateFile) (time : ℕ) : Prop :=
  ∀ timer, ∀ due ∈ file.due timer, time ≤ due

instance (file : SessionStateFile) (time : ℕ) : Decidable (file.AllDueFrom time) :=
  decidable_of_iff ((∀ due ∈ file.timeout, time ≤ due) ∧ ∀ due ∈ file.ceilingTimeout, time ≤ due)
    ⟨fun h timer => by cases timer with | timeout => exact h.1 | ceiling => exact h.2,
      fun h => ⟨h .timeout, h .ceiling⟩⟩

/-- One step. Time passes no armed timer. -/
def step (w : World) : Label → Option World
  | .schedule => some w.schedule
  | .fire timer written =>
    if w.file.due timer = some w.now then
      some ({ w with file := w.file.disarm timer }.flush written)
    else none
  | .pass time =>
    if w.file.AllDueFrom (w.now + time) then some { w with now := w.now + time } else none
  | .kill written => some ({ w with file := w.file.disable }.flush written)

/-! ## The bound -/

/-- A change that was scheduled since the last attempt is at most 30 s old, and a timer that
attempts to write is due by then. -/
def InTime (w : World) : Prop :=
  ∀ t, w.since = some t →
    w.now ≤ t + maxWriteDelay ∧ ∃ timer, ∃ due ∈ w.file.due timer, due ≤ t + maxWriteDelay

/-- After a write with nothing scheduled since, no timer is armed. -/
def Quiet (w : World) : Prop :=
  w.last = .written → w.since = none → ∀ timer, w.file.due timer = none

/-- What is promised while writes are not disabled. -/
def Bounded (w : World) : Prop := w.file.writesDisabled = false → InTime w ∧ Quiet w

/-- After a failed write, a call of `schedule` comes at most 25 s after the first one. -/
def Spaced (w : World) : Label → Prop
  | .schedule => w.file.writesDisabled = false → w.last = .failed →
      ∀ t, w.since = some t → w.now + writeDelay ≤ t + maxWriteDelay
  | _ => True

/-- What a run keeps while its calls are spaced. -/
structure Inv (w : World) : Prop where
  /-- a clean file has no timer and nothing to save -/
  clean : w.file.dirty = false →
    w.file.timeout = none ∧ w.file.ceilingTimeout = none ∧ w.since = none ∧ w.last ≠ .failed
  /-- a dirty file is dirty by a call or by a failed write -/
  unsaved : w.file.dirty = true → w.last = .failed ∨ w.since.isSome
  /-- the first call since a write that did not fail started the ceiling -/
  ceiling : w.last ≠ .failed → ∀ t, w.since = some t →
    w.file.ceilingTimeout = some (t + maxWriteDelay) ∧ w.now ≤ t + maxWriteDelay
  /-- since a failed write there is only the delay -/
  delay : w.last = .failed → w.file.ceilingTimeout = none ∧
    (w.since = none → w.file.timeout = none) ∧
    ∀ t, w.since = some t → ∃ due, w.file.timeout = some due ∧ w.now ≤ due ∧
      due ≤ t + maxWriteDelay

theorem Inv.start : Inv {} where
  clean := fun _ => ⟨rfl, rfl, rfl, fun h => by cases h⟩
  unsaved := fun h => by cases h
  ceiling := fun _ t h => by cases h
  delay := fun h => by cases h

variable {w w' : World}

theorem Inv.bounded (h : Inv w) : InTime w ∧ Quiet w := by
  constructor
  · intro t ht
    by_cases hlast : w.last = .failed
    · obtain ⟨due, htimeout, hnow, hdue⟩ := (h.delay hlast).2.2 t ht
      exact ⟨hnow.trans hdue, .timeout, due, htimeout, hdue⟩
    · obtain ⟨hceiling, hnow⟩ := h.ceiling hlast t ht
      exact ⟨hnow, .ceiling, _, hceiling, le_rfl⟩
  · intro hlast hsince timer
    have hclean : w.file.dirty = false := by
      by_contra hdirty
      rcases h.unsaved (by simpa using hdirty) with hfailed | hsome
      · rw [hlast] at hfailed
        cases hfailed
      · rw [hsince] at hsome
        cases hsome
    obtain ⟨htimeout, hceiling, -⟩ := h.clean hclean
    cases timer with
    | timeout => exact htimeout
    | ceiling => exact hceiling

/-! ## The steps -/

/-- The first change starts both timers. -/
theorem schedule_of_clean (hactive : w.file.writesDisabled = false)
    (hdirty : w.file.dirty = false) :
    w.schedule =
      { w with
        file := { w.file with
          dirty := true, timeout := some (w.now + writeDelay), firstDirtyAt := some w.now,
          ceilingTimeout := some (w.now + maxWriteDelay) }
        since := some (w.since.getD w.now) } := by
  simp [World.schedule, SessionStateFile.schedule, hactive, hdirty]

/-- A later change starts the delay again. -/
theorem schedule_of_dirty (hactive : w.file.writesDisabled = false) (hdirty : w.file.dirty = true) :
    w.schedule =
      { w with
        file := { w.file with dirty := true, timeout := some (w.now + writeDelay) }
        since := some (w.since.getD w.now) } := by
  simp [World.schedule, SessionStateFile.schedule, hactive, hdirty]

theorem Inv.schedule (h : Inv w) (hactive : w.file.writesDisabled = false)
    (hspaced : Spaced w .schedule) : Inv w.schedule := by
  cases hdirty : w.file.dirty with
  | false =>
    rw [schedule_of_clean hactive hdirty]
    obtain ⟨-, -, hsince, hlast⟩ := h.clean hdirty
    constructor
    · intro hclean
      cases hclean
    · intro _
      exact Or.inr rfl
    · rintro - t ht
      rw [hsince] at ht
      cases ht
      exact ⟨rfl, Nat.le_add_right _ _⟩
    · intro hfailed
      exact absurd hfailed hlast
  | true =>
    rw [schedule_of_dirty hactive hdirty]
    constructor
    · intro hclean
      cases hclean
    · intro _
      exact Or.inr rfl
    · rintro hlast t ht
      rcases h.unsaved hdirty with hfailed | hsome
      · exact absurd hfailed hlast
      · obtain ⟨first, hfirst⟩ := Option.isSome_iff_exists.1 hsome
        rw [hfirst] at ht
        cases ht
        exact h.ceiling hlast _ hfirst
    · intro hfailed
      refine ⟨(h.delay hfailed).1, by rintro ⟨⟩, fun t ht => ?_⟩
      refine ⟨w.now + writeDelay, rfl, Nat.le_add_right _ _, ?_⟩
      cases hsince : w.since with
      | none =>
        rw [hsince] at ht
        cases ht
        exact Nat.add_le_add_left (by decide) _
      | some first =>
        rw [hsince] at ht
        cases ht
        exact hspaced hactive hfailed _ hsince

/-- An attempt to write a dirty file. -/
theorem flush_of_dirty (hdirty : w.file.dirty = true) (written : Bool) :
    w.flush written =
      { w with
        file := { w.file with
          dirty := !written, timeout := none, ceilingTimeout := none
          firstDirtyAt := if written then none else w.file.firstDirtyAt }
        since := none
        last := if written then .written else .failed } := by
  cases written <;> simp [World.flush, SessionStateFile.flush, hdirty]

theorem Inv.attempt (hdirty : w.file.dirty = true) (written : Bool) : Inv (w.flush written) := by
  rw [flush_of_dirty hdirty]
  constructor
  · intro hclean
    refine ⟨rfl, rfl, rfl, ?_⟩
    cases written with
    | true => rintro ⟨⟩
    | false => cases hclean
  · intro hdirty'
    cases written with
    | true => cases hdirty'
    | false => exact Or.inl rfl
  · rintro - t ⟨⟩
  · intro _
    exact ⟨rfl, fun _ => rfl, by rintro t ⟨⟩⟩

theorem Inv.pass (h : Inv w) {time : ℕ} (hdue : w.file.AllDueFrom (w.now + time)) :
    Inv { w with now := w.now + time } where
  clean := h.clean
  unsaved := h.unsaved
  ceiling := by
    intro hlast t ht
    obtain ⟨hceiling, -⟩ := h.ceiling hlast t ht
    exact ⟨hceiling, hdue .ceiling _ hceiling⟩
  delay := by
    intro hfailed
    obtain ⟨hceiling, hnone, hsome⟩ := h.delay hfailed
    refine ⟨hceiling, hnone, fun t ht => ?_⟩
    obtain ⟨due, htimeout, -, hle⟩ := hsome t ht
    exact ⟨due, htimeout, hdue .timeout due htimeout, hle⟩

/-- Only a dirty file has an armed timer. -/
theorem Inv.dirty_of_due (h : Inv w) {timer : Timer} {due : ℕ}
    (hdue : w.file.due timer = some due) : w.file.dirty = true := by
  by_contra hdirty
  obtain ⟨htimeout, hceiling, -⟩ := h.clean (by simpa using hdirty)
  cases timer with
  | timeout => exact absurd (htimeout.symm.trans hdue) (by rintro ⟨⟩)
  | ceiling => exact absurd (hceiling.symm.trans hdue) (by rintro ⟨⟩)

theorem flush_writesDisabled (w : World) (written : Bool) :
    (w.flush written).file.writesDisabled = w.file.writesDisabled := by
  rw [World.flush, SessionStateFile.flush]
  cases w.file.dirty <;> cases written <;> rfl

theorem Inv.step {label : Label} (h : w.file.writesDisabled = false → Inv w)
    (hspaced : Spaced w label) (hstep : step w label = some w')
    (hactive : w'.file.writesDisabled = false) : Inv w' := by
  cases label with
  | schedule =>
    cases hstep
    have hactive' : w.file.writesDisabled = false := by
      by_contra hdisabled
      rw [World.schedule, SessionStateFile.schedule, if_pos (by simpa using hdisabled)] at hactive
      exact hdisabled hactive
    exact (h hactive').schedule hactive' hspaced
  | fire timer written =>
    rw [StateFile.step] at hstep
    split at hstep
    · next hdue =>
      cases hstep
      rw [flush_writesDisabled] at hactive
      have hactive' : w.file.writesDisabled = false := by
        cases timer <;> exact hactive
      have hdirty := (h hactive').dirty_of_due hdue
      apply Inv.attempt
      cases timer <;> exact hdirty
    · cases hstep
  | pass time =>
    rw [StateFile.step] at hstep
    split at hstep
    · next hdue =>
      cases hstep
      exact (h hactive).pass hdue
    · cases hstep
  | kill written =>
    cases hstep
    rw [flush_writesDisabled] at hactive
    cases hactive

/-- A change of the time `t` whose only timer is due too late. -/
structure Late (t : ℕ) (w : World) : Prop where
  active : w.file.writesDisabled = false
  since : w.since = some t
  dirty : w.file.dirty = true
  ceiling : w.file.ceilingTimeout = none
  near : t + maxWriteDelay < w.now + writeDelay
  timeout : ∃ due, w.file.timeout = some due ∧ w.now ≤ due ∧ t + maxWriteDelay < due

/-- A call that is not spaced arms the only timer too late. -/
theorem late_of_not_spaced {label : Label} (h : w.file.writesDisabled = false → Inv w)
    (hspaced : ¬ Spaced w label) (hstep : step w label = some w') : ∃ t, Late t w' := by
  cases label with
  | schedule =>
    cases hstep
    simp only [Spaced, not_forall, not_le] at hspaced
    obtain ⟨hactive, hfailed, t, ht, hlate⟩ := hspaced
    have hinv := h hactive
    have hdirty : w.file.dirty = true := by
      by_contra hclean
      exact (hinv.clean (by simpa using hclean)).2.2.2 hfailed
    rw [schedule_of_dirty hactive hdirty]
    exact ⟨t, hactive, by rw [ht]; rfl, rfl, (hinv.delay hfailed).1, hlate,
      w.now + writeDelay, rfl, Nat.le_add_right _ _, hlate⟩
  | fire timer written => exact absurd trivial hspaced
  | pass time => exact absurd trivial hspaced
  | kill written => exact absurd trivial hspaced

theorem Late.not_bounded {t : ℕ} (h : Late t w) : ¬ Bounded w := by
  intro hbounded
  obtain ⟨-, timer, due, hdue, hle⟩ := (hbounded h.active).1 t h.since
  obtain ⟨late, htimeout, -, hlate⟩ := h.timeout
  cases timer with
  | timeout =>
    cases htimeout.symm.trans hdue
    exact absurd hle (not_le.2 hlate)
  | ceiling => exact absurd (h.ceiling.symm.trans hdue) (by rintro ⟨⟩)

/-! ## Runs -/

/-- **Bounded delay.** Along every run an unsaved change is written, or attempted to be, within
30 s of the first call since the last attempt, and no timer survives a write with nothing
scheduled since, exactly when no call comes more than 25 s after the first one since a failed
write. -/
theorem bounded_iff (labels : List Label) :
    Run.Along step Bounded {} labels ↔ Run.Meets step Spaced {} labels :=
  Run.along_iff_meets (I := fun w => w.file.writesDisabled = false → Inv w) (P := Bounded)
    (fun _ _ _ h hspaced hs hactive => Inv.step h hspaced hs hactive)
    (fun _ h hactive => (h hactive).bounded)
    (fun _ _ _ h hspaced hs =>
      have ⟨_, hlate⟩ := late_of_not_spaced h hspaced hs
      hlate.not_bounded)
    fun _ => .start

/-- An event every 4 s, the first write of which fails: 33 s after the failure nothing has been
attempted. -/
theorem burst_after_failure :
    ¬ Run.Along step Bounded {}
      ([.schedule, .pass 5000, .fire .timeout false, .schedule] ++
        (List.replicate 8 [.pass 4000, .schedule]).flatten ++ [.pass 1000]) := by
  intro h
  have hlast : Bounded ⟨⟨true, some 42000, some 0, none, false⟩, 38000, some 5000, .failed⟩ :=
    h.last (by decide)
  have hnow : 38000 ≤ 5000 + maxWriteDelay := ((hlast rfl).1 5000 rfl).1
  exact absurd hnow (by decide)

end StateFile
end Mullion
