import Mullion.Lib.Run
import Mullion.Task.Dispatch

/-!
# The cap on running tasks

How many rows are `in_progress`, under any interleaving of enqueues, dispatches, retries and sweeps:
never more than the cap, if all goes well.

The count changes only by guarded writes of one row, and what such a write does to it is said once:
it does not grow, unless the write itself sets the status, and then by one
(`inFlight_updateTask_le`, `inFlight_updateTask_succ`). Every segment of every call is then a bound
on the count after it. A dispatch takes its slot in the transaction that checked the cap
(`dispatchPlace_slots`). A retry checks the cap when it reserves and takes its slot at its commit,
any number of segments later (`retrySpawn_slots`), and by then the slot may be gone
(`two_retries_share_slot`). `cap_iff` has it that the cap holds along a run exactly when every retry
that takes a slot finds one free at that moment.
-/

namespace Mullion
namespace Claim

/-! ## What one write does -/

/-- A write that makes no row `in_progress` takes no slot. -/
theorem inFlight_updateTask_le (db : Db) (id : Nat) (g : Task → Bool) (f : Task → Task)
    (hf : ∀ t, (f t).id = t.id)
    (hs : ∀ a, g a → (f a).status = .inProgress → a.status = .inProgress) :
    inFlight (db.updateTask id g f hf) ≤ inFlight db := by
  refine (db.sameOff_updateTask id g f hf).count_le _ fun a' ha' hst => ?_
  rw [Db.get_updateTask] at ha'
  obtain ⟨a, ha, rfl⟩ := Option.map_eq_some_iff.1 ha'
  refine ⟨a, ha, ?_⟩
  by_cases hg : g a
  · rw [if_pos hg] at hst
    simpa using hs a hg (by simpa using hst)
  · rw [if_neg hg] at hst
    exact hst

/-- A write that makes a row `in_progress` takes one slot. -/
theorem inFlight_updateTask_succ {db : Db} {id : Nat} {g : Task → Bool} {f : Task → Task}
    (hf : ∀ t, (f t).id = t.id) {a : Task} (ha : db.tasks.get id = some a) (hg : g a)
    (hs : a.status ≠ .inProgress) (hs' : (f a).status = .inProgress) :
    inFlight (db.updateTask id g f hf) = inFlight db + 1 := by
  have ha' : (db.updateTask id g f hf).tasks.get id = some (f a) := by
    rw [Db.get_updateTask, ha, Option.map_some, if_pos hg]
  exact (db.sameOff_updateTask id g f hf).count_succ _ ha ha' (by simpa using hs) (by simpa using hs')

theorem inFlight_killSession (db : Db) (id : Nat) : inFlight (db.killSession id) = inFlight db := by
  simp only [inFlight, Db.tasks_killSession]

theorem inFlight_insertSession (db : Db) (row : Session) :
    inFlight (db.insertSession row) = inFlight db := rfl

/-! ## Enqueue, hold, give up -/

theorem inFlight_enqueueTask_le (db : Db) (now id : Nat) (auto seedCapable quarantined : Bool) :
    inFlight (enqueueTask db now id auto seedCapable quarantined).1 ≤ inFlight db := by
  unfold enqueueTask
  split
  · exact le_refl _
  · split
    · exact le_refl _
    · repeat' split
      all_goals first
        | exact le_refl _
        | exact inFlight_updateTask_le db id _ _ _ (fun a _ h => by cases h)

theorem inFlight_failQueuedTask_le (db : Db) (id : Nat) (detail : String) (forget : Bool) :
    inFlight (failQueuedTask db id detail forget).1 ≤ inFlight db := by
  unfold failQueuedTask
  split
  · exact le_refl _
  · split
    · exact le_refl _
    · exact inFlight_updateTask_le db id _ _ _ fun a _ h => by cases h

theorem inFlight_giveUpIfOverdue_le (db : Db) (id now : Nat) :
    inFlight (giveUpIfOverdue db id now).1 ≤ inFlight db := by
  unfold giveUpIfOverdue
  split
  · exact le_refl _
  · split
    · exact le_refl _
    · split
      · exact le_refl _
      · exact inFlight_failQueuedTask_le db id _ _

theorem inFlight_holdClaim_le (db : Db) (now : Nat) (task : Task) (since : Option Nat)
    (detail : String) : inFlight (holdClaim db now task since detail).1 ≤ inFlight db := by
  unfold holdClaim
  simp only
  split
  · exact inFlight_updateTask_le db _ _ _ _ fun _ _ h => h
  · exact le_refl _

theorem inFlight_dropHold_le (db : Db) (task : Task) :
    inFlight (dropHold db task) ≤ inFlight db := by
  unfold dropHold
  split
  · exact inFlight_updateTask_le db _ _ _ _ fun _ _ h => h
  · exact le_refl _

theorem inFlight_dispatchBlockers_le (db : Db) (task : Task) (project : Project) (gate : Gate) :
    inFlight (dispatchBlockers db task project gate).1 ≤ inFlight db := by
  have hkeep : ∀ reason, inFlight (db.updateTask task.id isClaimed
      (fun t => { t with failureReason := reason })) ≤ inFlight db :=
    fun reason => inFlight_updateTask_le db _ _ _ _ fun _ _ h => h
  cases gate with
  | unresolved => exact le_refl _
  | blocked blockers =>
    simp only [dispatchBlockers, blockedHold]
    split
    · exact hkeep _
    · exact le_refl _
  | clear =>
    simp only [dispatchBlockers, blockedHold]
    split
    · exact hkeep _
    · exact le_refl _

/-! ## Dispatch -/

/-- **A dispatch takes its slot where it checks the cap.** -/
theorem dispatchPlace_slots (db : Db) (now max : Nat) (task : Task) (project : Project)
    (command : String) (reading : PlacementReading) :
    inFlight (dispatchPlace db now max task project command reading).1 ≤ inFlight db ∨
      inFlight (dispatchPlace db now max task project command reading).1 ≤ max := by
  cases reading with
  | transient detail => exact Or.inl (inFlight_holdClaim_le db now task _ detail)
  | refused detail => exact Or.inl (inFlight_failQueuedTask_le db task.id detail true)
  | chosen hostId checkout =>
    cases checkout with
    | preparing => exact Or.inl (inFlight_holdClaim_le db now task _ _)
    | failed jobDetail =>
      exact Or.inl (inFlight_updateTask_le db _ _ _ _ fun _ _ h => h)
    | present =>
      have hdrop := inFlight_dropHold_le db task
      simp only [dispatchPlace]
      cases hcwd : projectCwdOnHost project hostId with
      | none => exact Or.inl ((inFlight_failQueuedTask_le _ task.id _ false).trans hdrop)
      | some cwd =>
        simp only
        cases hres : dispatchReservation (dropHold db task) max task command
            (failingSinceAfterHold task) hostId cwd with
        | error outcome => exact Or.inl hdrop
        | ok r =>
          obtain ⟨-, hcap, row, hrow, hst, -, -⟩ := dispatchReservation_ok hres
          have hsucc := inFlight_updateTask_succ (f := dispatchReservePatch now) (fun _ => rfl) hrow
            (g := isClaimed) (by simpa [isClaimed] using hst) (by rw [hst]; simp) rfl
          refine Or.inr ?_
          simp only
          rw [hsucc]
          exact hcap

theorem inFlight_dispatchRelease_le (db : Db) (now : Nat) (r : Reservation) (reason : String) :
    inFlight (dispatchRelease db now r reason) ≤ inFlight db :=
  inFlight_updateTask_le db _ _ _ _ fun _ _ h => by cases h

theorem inFlight_dispatchSpawn_le (db : Db) (now : Nat) (r : Reservation)
    (baseSha : Option String) (answer : SpawnAnswer) :
    inFlight (dispatchSpawn db now r baseSha answer).1 ≤ inFlight db := by
  cases answer with
  | created cwd seedDelivered =>
    -- the commit of a dispatch leaves the status as it is
    exact inFlight_updateTask_le (db.insertSession _) _ _ _ _ fun _ _ h => h
  | worktreeFailed detail => exact inFlight_dispatchRelease_le db now r _
  | hostUnsupported detail => exact inFlight_dispatchRelease_le db now r _
  | refused => exact inFlight_dispatchRelease_le db now r _
  | threw message => exact inFlight_dispatchRelease_le db now r _
  | outcomeUnknown detail kept =>
    cases kept with
    | none => exact inFlight_dispatchRelease_le db now r _
    | some cwd =>
      simp only [dispatchSpawn]
      split
      · exact inFlight_updateTask_le (db.insertSession _) _ _ _ _ fun _ _ h => h
      · exact (inFlight_killSession _ _).le

/-- **A segment of a dispatch** takes a slot only below the cap. -/
theorem dispatchResume_slots {cfg : Config} {db db' : Db} {now : Nat} {pc pc' : DispatchPc}
    {a : Answer} (h : dispatchResume cfg db now pc a = some (db', pc')) :
    inFlight db' ≤ inFlight db ∨ inFlight db' ≤ cfg.maxConcurrent := by
  unfold dispatchResume at h
  split at h
  -- in the order of the definition: before the reservation, holding it, and after
  · simp only [Option.some.injEq] at h
    have hle := inFlight_dispatchBlockers_le db ‹_› ‹_› ‹_›
    rw [h] at hle
    exact Or.inl hle
  · simp only [Option.some.injEq] at h
    have hslots := dispatchPlace_slots db now cfg.maxConcurrent ‹_› ‹_›
      (cfg.resolveAgentCommand ‹_› ‹_›) ‹_›
    rw [h] at hslots
    exact hslots
  · cases h; exact Or.inl (le_refl _)
  · cases h; exact Or.inl (le_refl _)
  · cases h; exact Or.inl (inFlight_dispatchRelease_le db now _ _)
  · cases h; exact Or.inl (inFlight_dispatchRelease_le db now _ _)
  · cases h; exact Or.inl (le_refl _)
  · cases h; exact Or.inl (inFlight_dispatchRelease_le db now _ _)
  · cases h; exact Or.inl (le_refl _)
  · rename_i r baseSha answer
    simp only [Option.some.injEq] at h
    have hle := inFlight_dispatchSpawn_le db now r baseSha answer
    rw [h] at hle
    exact Or.inl hle
  · cases h; exact Or.inl (le_refl _)
  · cases h; exact Or.inl (le_refl _)
  · cases h; exact Or.inl (le_refl _)
  · cases h; exact Or.inl (inFlight_dispatchRelease_le db now _ _)
  · cases h; exact Or.inl (inFlight_dispatchRelease_le db now _ _)
  · cases h; exact Or.inl (inFlight_dispatchRelease_le db now _ _)
  · cases h; exact Or.inl (inFlight_dispatchRelease_le db now _ _)
  · cases h

/-! ## Retry -/

theorem inFlight_retryRelease_le (db : Db) (r : RetryReservation) (reason : String) :
    inFlight (retryRelease db r reason) ≤ inFlight db :=
  inFlight_updateTask_le db _ _ _ _ fun _ _ h => by cases h

theorem inFlight_retryResume_le (db : Db) (r : RetryReservation) :
    inFlight (retryResume db r).1 ≤ inFlight db := by
  unfold retryResume
  simp only
  split
  · exact inFlight_retryRelease_le db r _
  · exact le_refl _

theorem inFlight_retryStart_le (cfg : Config) (db : Db) (now id : Nat) :
    inFlight (retryStart cfg db now id).1 ≤ inFlight db := by
  unfold retryStart
  split
  · exact le_refl _
  · have hreserve : inFlight (db.updateTask id (fun t => t.status = .failed)
        (retryReservePatch now)) ≤ inFlight db :=
      inFlight_updateTask_le db _ _ _ _ fun _ _ h => by cases h
    simp only
    split
    · rw [inFlight_killSession]
      exact hreserve
    · exact (inFlight_retryResume_le _ _).trans hreserve

/-- The segment is the commit of a retry that takes a slot: it finds a row that holds
none, or it adopts the session of a task that is still queued. -/
def retryTakes (db : Db) : RetryPc → Answer → Bool
  | .spawning r _ _, .spawn (.created _ _) =>
    db.taskMatches r.task.id (fun t => t.status ≠ .inProgress)
  | .spawning r _ _, .spawn (.outcomeUnknown _ (some _)) => db.taskMatches r.task.id isClaimed
  | _, _ => false

/-- A spawn, and a guarded write that gives the task a slot it did not hold. -/
theorem inFlight_spawn_succ {db : Db} {row : Session} {id : Nat} {g p : Task → Bool}
    {f : Task → Task} (hf : ∀ t, (f t).id = t.id) (hm : db.taskMatches id p)
    (hg : ∀ a, p a → g a ∧ a.status ≠ .inProgress) (hs : ∀ a, (f a).status = .inProgress) :
    inFlight ((db.insertSession row).updateTask id g f hf) = inFlight db + 1 := by
  obtain ⟨a, ha, hp⟩ := Db.taskMatches_iff.1 hm
  obtain ⟨hga, hst⟩ := hg a hp
  have hget : (db.insertSession row).tasks.get id = some a := ha
  rw [inFlight_updateTask_succ hf hget hga hst (hs a), inFlight_insertSession]

/-- **A retry takes its slot at its commit**, and does not look at the cap again. -/
theorem retrySpawn_slots (db : Db) (now : Nat) (r : RetryReservation) (host : RetryHost)
    (path : String) (answer : SpawnAnswer) :
    (retryTakes db (.spawning r host path) (.spawn answer) = true →
      inFlight (retrySpawn db now r host answer).1 = inFlight db + 1) ∧
    (retryTakes db (.spawning r host path) (.spawn answer) = false →
      inFlight (retrySpawn db now r host answer).1 ≤ inFlight db) := by
  cases answer with
  | created cwd seedDelivered =>
    constructor
    · intro hm
      exact inFlight_spawn_succ _ hm (fun a ha => ⟨rfl, by simpa using ha⟩) fun _ => rfl
    · intro hm
      -- the row holds a slot already, or there is none
      refine (Db.sameOff_updateTask (db.insertSession _) _ _ _ _).count_le _ fun a' ha' _ => ?_
      rw [Db.get_updateTask] at ha'
      obtain ⟨a, ha, -⟩ := Option.map_eq_some_iff.1 ha'
      refine ⟨a, ha, ?_⟩
      by_contra hst
      have htakes : db.taskMatches r.task.id (fun t => t.status ≠ .inProgress) :=
        Db.taskMatches_iff.2 ⟨a, ha, by simpa using hst⟩
      exact absurd (htakes.symm.trans hm) (by simp)
  | outcomeUnknown detail kept =>
    cases kept with
    | none => exact ⟨nofun, fun _ => le_refl _⟩
    | some cwd =>
      constructor
      · intro hm
        have hm : db.taskMatches r.task.id isClaimed = true := hm
        simp only [retrySpawn]
        split
        · refine inFlight_spawn_succ _ hm (fun a ha => ⟨ha, ?_⟩) fun _ => rfl
          rw [show a.status = .claimed by simpa [isClaimed] using ha]
          simp
        · rename_i hno
          exact absurd hm hno
      · intro hm
        have hm : db.taskMatches r.task.id isClaimed = false := hm
        simp only [retrySpawn]
        split
        · rename_i hyes
          exact absurd (hm.symm.trans hyes) (by simp)
        · rw [inFlight_killSession, inFlight_insertSession]
  | worktreeFailed detail => exact ⟨nofun, fun _ => le_refl _⟩
  | hostUnsupported detail => exact ⟨nofun, fun _ => le_refl _⟩
  | refused => exact ⟨nofun, fun _ => le_refl _⟩
  | threw message => exact ⟨nofun, fun _ => le_refl _⟩

/-- **A later segment of a retry** takes one slot if it is such a commit, and else
none. -/
theorem retryResumeStep_slots {db db' : Db} {now : Nat} {pc pc' : RetryPc} {a : Answer}
    (h : retryResumeStep db now pc a = some (db', pc')) :
    (retryTakes db pc a = true → inFlight db' = inFlight db + 1) ∧
      (retryTakes db pc a = false → inFlight db' ≤ inFlight db) := by
  unfold retryResumeStep at h
  split at h
  · simp only [Option.some.injEq] at h
    have hle := inFlight_retryResume_le db ‹_›
    rw [h] at hle
    exact ⟨nofun, fun _ => hle⟩
  · simp only [Option.some.injEq] at h
    have hle := inFlight_retryResume_le db ‹_›
    rw [h] at hle
    exact ⟨nofun, fun _ => hle⟩
  · cases h; exact ⟨nofun, fun _ => le_refl _⟩
  · cases h; exact ⟨nofun, fun _ => inFlight_retryRelease_le db _ _⟩
  · cases h; exact ⟨nofun, fun _ => inFlight_retryRelease_le db _ _⟩
  · cases h; exact ⟨nofun, fun _ => inFlight_retryRelease_le db _ _⟩
  · cases h; exact ⟨nofun, fun _ => le_refl _⟩
  · cases h; exact ⟨nofun, fun _ => le_refl _⟩
  · rename_i r host path answer
    simp only [Option.some.injEq] at h
    have hslots := retrySpawn_slots db now r host path answer
    rw [h] at hslots
    exact hslots
  · cases h; exact ⟨nofun, fun _ => inFlight_retryRelease_le db _ _⟩
  · cases h; exact ⟨nofun, fun _ => inFlight_retryRelease_le db _ _⟩
  · cases h; exact ⟨nofun, fun _ => le_refl _⟩
  · cases h; exact ⟨nofun, fun _ => le_refl _⟩
  · cases h; exact ⟨nofun, fun _ => le_refl _⟩
  · cases h; exact ⟨nofun, fun _ => le_refl _⟩
  · cases h

/-! ## The cap -/

/-- The step is the commit of a retry that takes a slot. -/
def takesSlot (w : World) : Label → Bool
  | .resume call answer =>
    match w.calls[call]? with
    | some (.retry pc) => retryTakes w.db pc answer
    | _ => false
  | _ => false

/-- **What a step does to the count**: a retry's commit takes exactly one slot, and
no other step takes one beyond the cap. -/
theorem step_slots {cfg : Config} {w w' : World} {l : Label} (h : step cfg w l = some w') :
    (takesSlot w l = true → inFlight w'.db = inFlight w.db + 1) ∧
      (takesSlot w l = false → inFlight w'.db ≤ max (inFlight w.db) cfg.maxConcurrent) := by
  -- a step that takes no slot is no commit of a retry
  have hquiet : takesSlot w l = false → inFlight w'.db ≤ inFlight w.db →
      (takesSlot w l = true → inFlight w'.db = inFlight w.db + 1) ∧
        (takesSlot w l = false → inFlight w'.db ≤ max (inFlight w.db) cfg.maxConcurrent) := by
    intro hno hle
    exact ⟨fun ht => absurd ht (by simp [hno]), fun _ => le_max_of_le_left hle⟩
  cases l with
  | enqueue id auto seedCapable quarantined =>
    cases h
    exact hquiet rfl (inFlight_enqueueTask_le w.db w.now id auto seedCapable quarantined)
  | tick ms =>
    cases h
    exact hquiet rfl (le_refl _)
  | dispatch id =>
    cases h
    exact hquiet rfl (le_refl _)
  | retry id =>
    cases h
    exact hquiet rfl (inFlight_retryStart_le cfg w.db w.now id)
  | sweep =>
    simp only [step] at h
    split at h <;> cases h <;> exact hquiet rfl (le_refl _)
  | resume call answer =>
    simp only [step, resume] at h
    cases hc : w.calls[call]? with
    | none => rw [hc] at h; cases h
    | some c =>
      rw [hc] at h
      cases c with
      | dispatch pc =>
        have hno : takesSlot w (.resume call answer) = false := by simp only [takesSlot, hc]
        simp only at h
        cases hr : dispatchResume cfg w.db w.now pc answer with
        | none => rw [hr] at h; cases h
        | some p =>
          rw [hr] at h
          cases h
          refine ⟨fun ht => absurd ht (by simp [hno]), fun _ => ?_⟩
          rcases dispatchResume_slots hr with hle | hle
          · exact le_max_of_le_left hle
          · exact le_max_of_le_right hle
      | retry pc =>
        simp only at h
        cases hr : retryResumeStep w.db w.now pc answer with
        | none => rw [hr] at h; cases h
        | some p =>
          rw [hr] at h
          cases h
          obtain ⟨htakes, hrest⟩ := retryResumeStep_slots hr
          simp only [takesSlot, hc]
          exact ⟨htakes, fun hno => le_max_of_le_left (hrest hno)⟩
      | sweep pc =>
        have hno : takesSlot w (.resume call answer) = false := by simp only [takesSlot, hc]
        simp only at h
        cases hr : sweepResume cfg w pc answer with
        | none => rw [hr] at h; cases h
        | some p =>
          rw [hr] at h
          cases h
          refine hquiet hno ?_
          rcases (sweepResume_spec hr).1 with hdb | ⟨id, now, hdb⟩
          · exact (congrArg inFlight hdb).le
          · exact (congrArg inFlight hdb).trans_le (inFlight_giveUpIfOverdue_le w.db id now)

/-- At most `maxConcurrent` tasks are running. -/
def WithinCap (cfg : Config) (w : World) : Prop := inFlight w.db ≤ cfg.maxConcurrent

instance (cfg : Config) (w : World) : Decidable (WithinCap cfg w) :=
  inferInstanceAs (Decidable (inFlight w.db ≤ cfg.maxConcurrent))

/-- A retry that takes a slot finds one free. -/
def SlotFree (cfg : Config) (w : World) (l : Label) : Prop :=
  takesSlot w l = true → inFlight w.db < cfg.maxConcurrent

instance (cfg : Config) (w : World) (l : Label) : Decidable (SlotFree cfg w l) :=
  inferInstanceAs (Decidable (takesSlot w l = true → inFlight w.db < cfg.maxConcurrent))

/-- **The cap.** From any state within the cap, calls in flight or not, and for every
interleaving: the cap holds in every state of the run exactly when every retry finds
a free slot at the commit that takes it. -/
theorem cap_iff (cfg : Config) (w : World) (run : List Label) (hcap : WithinCap cfg w) :
    Run.Along (step cfg) (WithinCap cfg) w run ↔ Run.Meets (step cfg) (SlotFree cfg) w run := by
  refine Run.along_iff_meets (I := WithinCap cfg) ?_ (fun _ h => h) ?_ hcap
  · intro s l s' hs hC h
    obtain ⟨htakes, hrest⟩ := step_slots h
    unfold WithinCap at hs ⊢
    cases ht : takesSlot s l with
    | true =>
      have hfree := hC ht
      have hsucc := htakes ht
      omega
    | false =>
      have hle := hrest ht
      omega
  · intro s l s' hs hC h hs'
    unfold SlotFree at hC
    unfold WithinCap at hs'
    rw [Classical.not_imp] at hC
    have hsucc := (step_slots h).1 hC.1
    omega

/-- One slot, and two failed tasks with a branch. -/
def twoFailedTasks : World :=
  demoWorld (demoDb
    [{ id := 1, projectId := 1, status := .failed, branchName := some "a" },
      { id := 2, projectId := 1, status := .failed, branchName := some "b" }] [] 1
    (by decide) List.nodup_nil fresh_one)

/-- With one slot. -/
def oneSlot : Config := { maxConcurrent := 1, resolveAgentCommand := fun _ _ => "agent" }

/-- Two retries one after the other: the second is refused. -/
theorem cap_of_retries :
    Run.Along (step oneSlot) (WithinCap oneSlot) twoFailedTasks
      [.retry 1, .resume 0 (.worktree "/p/a"), .resume 0 .settled,
        .resume 0 (.spawn (.created "/p/a" true)), .retry 2] :=
  (cap_iff oneSlot twoFailedTasks _ (by decide)).2 (by decide)

/-- **Two retries share a slot.** Both pass the cap before either takes the slot. -/
theorem two_retries_share_slot :
    ¬ ∀ (cfg : Config) (w : World) (run : List Label), WithinCap cfg w →
      Run.Along (step cfg) (WithinCap cfg) w run := by
  intro h
  have hrun := h oneSlot twoFailedTasks
    [.retry 1, .retry 2, .resume 0 (.worktree "/p/a"), .resume 1 (.worktree "/p/b"),
      .resume 0 .settled, .resume 1 .settled, .resume 0 (.spawn (.created "/p/a" true)),
      .resume 1 (.spawn (.created "/p/b" true))] (by decide)
  have hplay : (Run.play (step oneSlot) twoFailedTasks
    [.retry 1, .retry 2, .resume 0 (.worktree "/p/a"), .resume 1 (.worktree "/p/b"),
      .resume 0 .settled, .resume 1 .settled, .resume 0 (.spawn (.created "/p/a" true)),
      .resume 1 (.spawn (.created "/p/b" true))]).map (fun w => inFlight w.db) = some 2 := by
    decide
  obtain ⟨w, hw, htwo⟩ := Option.map_eq_some_iff.1 hplay
  have hlast := hrun.last hw
  unfold WithinCap at hlast
  rw [htwo] at hlast
  exact absurd hlast (by decide)

end Claim
end Mullion
