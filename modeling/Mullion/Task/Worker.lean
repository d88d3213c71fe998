import Mathlib.Logic.Function.Basic
import Mullion.Lib.Run
import Mullion.Task.Dispatch

/-!
# One worker for a task

Who holds a task, and which live sessions were spawned for it, under any interleaving of enqueues,
dispatches, retries and sweeps. There should be one of either: a reservation finds its task free,
and the row names the only worker.

The database and the calls are large, but a single task can be looked at from outside. `Row` is what
of it matters, `Move` what a segment of a call may do to it, and `Single` the invariant: at most one
call holds the task, and every live session spawned for it is its `sessionId`. That a move keeps it
is arithmetic on a few cases (`Single.move`), except for a reservation while a retry holds the task.
The bulk is to show that every segment is a move, one lemma each (`dispatchResume_move`,
`retryResumeStep_move` and so on), for its own task and for all others. `one_worker_iff` has both
promises along a run exactly when no reservation is made of a task that a `retryTask` call still
holds. `retried_task_is_dispatched` is a run where one is.
-/

namespace Mullion
namespace Claim

/-! ## One task, seen from outside -/

/-- The two kinds of calls that reserve a task. -/
inductive Kind
  | dispatch
  | retry
  deriving DecidableEq, Repr

/-- What the database says of a task: its status, its session, and the sessions
spawned for it that were not killed. -/
structure Row where
  status : Option TaskStatus
  session : Option Nat
  live : Nat → Prop

/-- What a segment of a call does to a task, and to what the call holds of it
(`k` before, `k'` after). `res` says that the segment reserves the task. -/
inductive Move (res : Prop) (row : Row) (k : Option Kind) (row' : Row) (k' : Option Kind) : Prop
  | stay (hs : row'.status = row.status) (hse : row'.session = row.session) (hk : k' = k)
      (hl : ∀ x, row'.live x → row.live x)
  | requeue (hs : row.status = some .ready ∨ row.status = some .claimed)
      (hs' : row'.status = some .claimed ∨ row'.status = some .failed)
      (hse : row'.session = row.session) (hk : k' = k) (hl : ∀ x, row'.live x → row.live x)
  | dispatched (hres : res) (hs : row.status = some .claimed) (hse : row.session = none)
      (hs' : row'.status = some .inProgress) (hse' : row'.session = none) (hk : k = none)
      (hk' : k' = some .dispatch) (hl : ∀ x, row'.live x → row.live x)
  | retried (hres : res) (hs : row.status = some .failed) (hs' : row'.status = some .claimed)
      (hse' : row'.session = none) (hk : k = none) (hk' : k' = some .retry)
      (hl : ∀ x, row'.live x → row.live x ∧ row.session ≠ some x)
  | released (hk : k ≠ none) (hk' : k' = none) (hse : row'.session = row.session)
      (hl : ∀ x, row'.live x → row.live x)
  | committed (x : Nat) (hk : k ≠ none) (hk' : k' = none) (hse : row'.session = some x)
      (hl : ∀ y, row'.live y → row.live y ∨ y = x)

/-- The invariant of one task. `holder` says what each call holds of it. -/
structure Single (row : Row) (holder : Nat → Option Kind) : Prop where
  unique : ∀ i j, holder i ≠ none → holder j ≠ none → i = j
  dispatched : ∀ i, holder i = some .dispatch →
    row.status = some .inProgress ∧ row.session = none
  retried : ∀ i, holder i = some .retry →
    (row.status = some .claimed ∨ row.status = some .failed) ∧ row.session = none
  worker : ∀ x, row.live x → row.session = some x

/-- A move that reserves nothing it should not keeps the invariant: a reservation
needs that no retry holds the task. -/
theorem Single.move {res : Prop} {row row' : Row} {holder : Nat → Option Kind} {i : Nat}
    {k' : Option Kind} (h : Single row holder) (hm : Move res row (holder i) row' k')
    (hres : res → ∀ j, holder j ≠ some .retry) :
    Single row' (Function.update holder i k') := by
  -- a call that still holds the task after the move is `i` or held it before
  have hold : ∀ j, j ≠ i → Function.update holder i k' j = holder j :=
    fun j hj => Function.update_of_ne hj _ _
  have hself : Function.update holder i k' i = k' := Function.update_self _ _ _
  cases hm with
  | stay hs hse hk hl =>
    rw [hk, Function.update_eq_self]
    refine ⟨h.unique, fun j hj => ?_, fun j hj => ?_, fun x hx => ?_⟩
    · rw [hs, hse]; exact h.dispatched j hj
    · rw [hs, hse]; exact h.retried j hj
    · rw [hse]; exact h.worker x (hl x hx)
  | requeue hs hs' hse hk hl =>
    rw [hk, Function.update_eq_self]
    refine ⟨h.unique, fun j hj => ?_, fun j hj => ?_, fun x hx => ?_⟩
    · obtain ⟨hst, -⟩ := h.dispatched j hj
      rw [hst] at hs
      rcases hs with hs | hs <;> cases hs
    · exact ⟨hs', by rw [hse]; exact (h.retried j hj).2⟩
    · rw [hse]; exact h.worker x (hl x hx)
  | dispatched hr hs hse hs' hse' hk hk' hl =>
    have hnone : ∀ j, holder j = none := by
      intro j
      cases hj : holder j with
      | none => rfl
      | some kj =>
        cases kj with
        | dispatch => rw [(h.dispatched j hj).1] at hs; cases hs
        | retry => exact absurd hj (hres hr j)
    have honly : ∀ j, Function.update holder i k' j ≠ none → j = i := by
      intro j hj
      by_contra hne
      exact hj ((hold j hne).trans (hnone j))
    refine ⟨fun a b ha hb => (honly a ha).trans (honly b hb).symm, fun j _ => ⟨hs', hse'⟩,
      fun j hj => ?_, fun x hx => ?_⟩
    · have hji := honly j (by rw [hj]; simp)
      rw [hji, hself, hk'] at hj
      cases hj
    · have := h.worker x (hl x hx)
      rw [hse] at this
      cases this
  | retried hr hs hs' hse' hk hk' hl =>
    have hnone : ∀ j, holder j = none := by
      intro j
      cases hj : holder j with
      | none => rfl
      | some kj =>
        cases kj with
        | dispatch => rw [(h.dispatched j hj).1] at hs; cases hs
        | retry => exact absurd hj (hres hr j)
    have honly : ∀ j, Function.update holder i k' j ≠ none → j = i := by
      intro j hj
      by_contra hne
      exact hj ((hold j hne).trans (hnone j))
    refine ⟨fun a b ha hb => (honly a ha).trans (honly b hb).symm, fun j hj => ?_,
      fun j _ => ⟨Or.inl hs', hse'⟩, fun x hx => ?_⟩
    · have hji := honly j (by rw [hj]; simp)
      rw [hji, hself, hk'] at hj
      cases hj
    · obtain ⟨hlive, hne⟩ := hl x hx
      exact absurd (h.worker x hlive) hne
  | released hk hk' hse hl =>
    have hnone : ∀ j, Function.update holder i k' j = none := by
      intro j
      by_cases hj : j = i
      · rw [hj, hself, hk']
      · rw [hold j hj]
        by_contra hne
        exact hj (h.unique j i hne hk)
    refine ⟨fun a b ha => absurd (hnone a) ha, fun j hj => ?_, fun j hj => ?_, fun x hx => ?_⟩
    · rw [hnone j] at hj; cases hj
    · rw [hnone j] at hj; cases hj
    · rw [hse]; exact h.worker x (hl x hx)
  | committed x hk hk' hse hl =>
    have hnone : ∀ j, Function.update holder i k' j = none := by
      intro j
      by_cases hj : j = i
      · rw [hj, hself, hk']
      · rw [hold j hj]
        by_contra hne
        exact hj (h.unique j i hne hk)
    -- the holder's task had no session, so no live session either
    have hsession : row.session = none := by
      cases hki : holder i with
      | none => exact absurd hki hk
      | some ki =>
        cases ki with
        | dispatch => exact (h.dispatched i hki).2
        | retry => exact (h.retried i hki).2
    refine ⟨fun a b ha => absurd (hnone a) ha, fun j hj => ?_, fun j hj => ?_, fun y hy => ?_⟩
    · rw [hnone j] at hj; cases hj
    · rw [hnone j] at hj; cases hj
    · rcases hl y hy with hlive | rfl
      · have := h.worker y hlive
        rw [hsession] at this
        cases this
      · exact hse

/-! ## The segments as moves -/

/-- The task as the database has it. -/
def rowOf (db : Db) (t : Nat) : Row :=
  { status := (db.tasks.get t).map Task.status
    session := (db.tasks.get t).bind Task.sessionId
    live := fun x => ∃ s, db.sessions.get x = some s ∧ s.spawnedFor = some t ∧ s.status ≠ .killed }

theorem rowOf_updateTask_of_ne (db : Db) {id t : Nat} (ht : t ≠ id) (g : Task → Bool)
    (f : Task → Task) (hf : ∀ t, (f t).id = t.id) :
    rowOf (db.updateTask id g f hf) t = rowOf db t := by
  have hget := (db.sameOff_updateTask id g f hf).get t ht
  simp only [rowOf, hget, Db.sessions_updateTask]

/-- A write that keeps status and session is not seen. -/
theorem rowOf_updateTask_of_keeps (db : Db) (id t : Nat) (g : Task → Bool) (f : Task → Task)
    (hf : ∀ t, (f t).id = t.id) (hs : ∀ t, (f t).status = t.status)
    (hse : ∀ t, (f t).sessionId = t.sessionId) :
    rowOf (db.updateTask id g f hf) t = rowOf db t := by
  by_cases ht : t = id
  · subst ht
    simp only [rowOf, Db.get_updateTask, Db.sessions_updateTask]
    cases db.tasks.get t with
    | none => rfl
    | some a => by_cases hg : g a <;> simp [hg, hs, hse]
  · exact rowOf_updateTask_of_ne db ht g f hf

/-- A write whose guard fails is not seen. -/
theorem rowOf_updateTask_of_unmatched (db : Db) {id : Nat} {g : Task → Bool} (f : Task → Task)
    (hf : ∀ t, (f t).id = t.id) (hg : db.taskMatches id g = false) (t : Nat) :
    rowOf (db.updateTask id g f hf) t = rowOf db t := by
  by_cases ht : t = id
  · subst ht
    simp only [Db.taskMatches] at hg
    simp only [rowOf, Db.get_updateTask, Db.sessions_updateTask]
    cases hget : db.tasks.get t with
    | none => rfl
    | some a =>
      rw [hget, Option.any_some] at hg
      simp [hg]
  · exact rowOf_updateTask_of_ne db ht g f hf

/-- A write whose guard holds. -/
theorem rowOf_updateTask_of_matched {db : Db} {id : Nat} {g : Task → Bool} (f : Task → Task)
    (hf : ∀ t, (f t).id = t.id) {a : Task} (ha : db.tasks.get id = some a) (hg : g a) :
    rowOf (db.updateTask id g f hf) id =
      { status := some (f a).status, session := (f a).sessionId, live := (rowOf db id).live } := by
  simp only [rowOf, Db.get_updateTask, Db.sessions_updateTask, ha, Option.map_some,
    Option.bind_some, hg, if_true]

theorem rowOf_of_get {db : Db} {id : Nat} {a : Task} (ha : db.tasks.get id = some a) :
    rowOf db id = { status := some a.status, session := a.sessionId, live := (rowOf db id).live } := by
  simp only [rowOf, ha, Option.map_some, Option.bind_some]

theorem live_killSession {db : Db} {id t x : Nat} (h : (rowOf (db.killSession id) t).live x) :
    (rowOf db t).live x ∧ x ≠ id := by
  obtain ⟨s, hs, hfor, hst⟩ := h
  rw [Db.get_killSession] at hs
  by_cases hx : x = id
  · rw [if_pos hx] at hs
    obtain ⟨s₀, -, rfl⟩ := Option.map_eq_some_iff.1 hs
    exact absurd rfl hst
  · rw [if_neg hx] at hs
    exact ⟨⟨s, hs, hfor, hst⟩, hx⟩

theorem live_insertSession {db : Db} {row : Session} {t x : Nat}
    (h : (rowOf (db.insertSession row) t).live x) :
    (rowOf db t).live x ∨ (x = db.nextSessionId ∧ row.spawnedFor = some t) := by
  obtain ⟨s, hs, hfor, hst⟩ := h
  rw [Db.get_insertSession] at hs
  by_cases hx : x = db.nextSessionId
  · rw [if_pos hx] at hs
    cases hs
    exact Or.inr ⟨hx, hfor⟩
  · rw [if_neg hx] at hs
    exact Or.inl ⟨s, hs, hfor, hst⟩

/-- What a call holds of task `t` when it works on task `id`. -/
def heldIf (id t : Nat) (kind : Kind) : Option Kind := if id = t then some kind else none

/-- What a call holds of a task. A retry that has given its session away to a kill
is past its last write; a dispatch is not. -/
def Call.holds (t : Nat) : Call → Option Kind
  | .dispatch (.clearing r) | .dispatch (.baseRef r) | .dispatch (.prompt r _)
  | .dispatch (.spawning r _) | .dispatch (.killing r _) => heldIf r.task.id t .dispatch
  | .retry (.killingOld r) | .retry (.resuming r _) | .retry (.prompt r _ _)
  | .retry (.spawning r _ _) | .retry (.cleaning r _) => heldIf r.task.id t .retry
  | _ => none

theorem Move.mono {res res' : Prop} {row row' : Row} {k k' : Option Kind} (h : res → res')
    (hm : Move res row k row' k') : Move res' row k row' k' := by
  cases hm with
  | stay hs hse hk hl => exact .stay hs hse hk hl
  | requeue hs hs' hse hk hl => exact .requeue hs hs' hse hk hl
  | dispatched hr hs hse hs' hse' hk hk' hl => exact .dispatched (h hr) hs hse hs' hse' hk hk' hl
  | retried hr hs hs' hse' hk hk' hl => exact .retried (h hr) hs hs' hse' hk hk' hl
  | released hk hk' hse hl => exact .released hk hk' hse hl
  | committed x hk hk' hse hl => exact .committed x hk hk' hse hl

/-- Nothing of the task changed. -/
theorem Move.of_eq {res : Prop} {row row' : Row} {k : Option Kind} (h : row' = row) :
    Move res row k row' k := by
  rw [h]
  exact .stay rfl rfl rfl fun _ hx => hx

/-- A guarded write that takes a queued task to the queue or to `failed`. -/
theorem updateTask_requeue (db : Db) (id t : Nat) (g : Task → Bool) (f : Task → Task)
    (hf : ∀ t, (f t).id = t.id) (hg : ∀ a, g a → a.status = .ready ∨ a.status = .claimed)
    (hs : ∀ a, (f a).status = .claimed ∨ (f a).status = .failed)
    (hse : ∀ a, (f a).sessionId = a.sessionId) (k : Option Kind) :
    Move False (rowOf db t) k (rowOf (db.updateTask id g f hf) t) k := by
  by_cases ht : t = id
  · subst ht
    by_cases hm : db.taskMatches t g
    · obtain ⟨a, ha, hga⟩ := Db.taskMatches_iff.1 hm
      rw [rowOf_updateTask_of_matched f hf ha hga]
      refine .requeue ?_ ?_ ?_ rfl fun _ hx => hx
      · rw [rowOf_of_get ha]
        simpa using hg a hga
      · simpa using hs a
      · rw [rowOf_of_get ha]
        exact hse a
    · exact .of_eq (rowOf_updateTask_of_unmatched db f hf (by simpa using hm) t)
  · exact .of_eq (rowOf_updateTask_of_ne db ht g f hf)

theorem enqueueTask_move (db : Db) (now id t : Nat) (auto seedCapable quarantined : Bool)
    (k : Option Kind) :
    Move False (rowOf db t) k (rowOf (enqueueTask db now id auto seedCapable quarantined).1 t) k := by
  unfold enqueueTask
  split
  · exact .of_eq rfl
  · split
    · exact .of_eq rfl
    · repeat' split
      all_goals first
        | exact .of_eq rfl
        | skip
      refine updateTask_requeue db id t _ _ _ ?_ ?_ ?_ k
      · intro a ha
        simp only [Bool.and_eq_true, decide_eq_true_eq] at ha
        exact Or.inl ha.1
      · exact fun _ => Or.inl rfl
      · exact fun _ => rfl

theorem failQueuedTask_move (db : Db) (id t : Nat) (detail : String) (forget : Bool)
    (k : Option Kind) :
    Move False (rowOf db t) k (rowOf (failQueuedTask db id detail forget).1 t) k := by
  unfold failQueuedTask
  split
  · exact .of_eq rfl
  · split
    · exact .of_eq rfl
    · refine updateTask_requeue db id t _ _ _ ?_ ?_ ?_ k
      · exact fun a ha => Or.inr (by simpa [isClaimed] using ha)
      · exact fun _ => Or.inr rfl
      · exact fun _ => rfl

theorem giveUpIfOverdue_move (db : Db) (id now t : Nat) (k : Option Kind) :
    Move False (rowOf db t) k (rowOf (giveUpIfOverdue db id now).1 t) k := by
  unfold giveUpIfOverdue
  split
  · exact .of_eq rfl
  · split
    · exact .of_eq rfl
    · split
      · exact .of_eq rfl
      · exact failQueuedTask_move db id t _ _ k

/-- The task that a segment of a dispatch reserves, if it does. -/
def dispatchReserved (cfg : Config) (db : Db) : DispatchPc → Answer → Option Nat
  | .protocols task project, .placement (.chosen hostId .present) =>
    match projectCwdOnHost project hostId with
    | none => none
    | some cwd =>
      match dispatchReservation (dropHold db task) cfg.maxConcurrent task
          (cfg.resolveAgentCommand task project) (failingSinceAfterHold task) hostId cwd with
      | .error _ => none
      | .ok r => some r.task.id
  | _, _ => none

/-- The task that the first segment of a retry reserves, if it does. -/
def retryReserved (cfg : Config) (db : Db) (taskId : Nat) : Option Nat :=
  match retryReservation cfg db taskId with
  | .error _ => none
  | .ok r => some r.task.id

theorem rowOf_dropHold (db : Db) (task : Task) (t : Nat) :
    rowOf (dropHold db task) t = rowOf db t := by
  unfold dropHold
  split
  · exact rowOf_updateTask_of_keeps db _ t _ _ _ (fun _ => rfl) (fun _ => rfl)
  · rfl

theorem holdClaim_row (db : Db) (now : Nat) (task : Task) (since : Option Nat) (detail : String)
    (t : Nat) : rowOf (holdClaim db now task since detail).1 t = rowOf db t := by
  unfold holdClaim
  simp only
  split
  · exact rowOf_updateTask_of_keeps db _ t _ _ _ (fun _ => rfl) (fun _ => rfl)
  · rfl

theorem dispatchBlockers_move (db : Db) (task : Task) (project : Project) (gate : Gate) (t : Nat) :
    Move False (rowOf db t) none (rowOf (dispatchBlockers db task project gate).1 t)
      ((Call.dispatch (dispatchBlockers db task project gate).2).holds t) := by
  have hkeep : ∀ reason, rowOf (db.updateTask task.id isClaimed
      (fun t => { t with failureReason := reason })) t = rowOf db t :=
    fun reason => rowOf_updateTask_of_keeps db _ t _ _ _ (fun _ => rfl) (fun _ => rfl)
  cases gate with
  | unresolved => exact .of_eq rfl
  | blocked blockers =>
    simp only [dispatchBlockers, blockedHold]
    split
    · exact .of_eq (hkeep _)
    · exact .of_eq rfl
  | clear =>
    simp only [dispatchBlockers, blockedHold]
    split
    · exact .of_eq (hkeep _)
    · exact .of_eq rfl

theorem dispatchPlace_move (cfg : Config) (db : Db) (now : Nat) (task : Task) (project : Project)
    (reading : PlacementReading) (t : Nat) :
    Move (dispatchReserved cfg db (.protocols task project) (.placement reading) = some t) (rowOf db t)
      none
      (rowOf (dispatchPlace db now cfg.maxConcurrent task project
        (cfg.resolveAgentCommand task project) reading).1 t)
      ((Call.dispatch (dispatchPlace db now cfg.maxConcurrent task project
        (cfg.resolveAgentCommand task project) reading).2).holds t) := by
  cases reading with
  | transient detail => exact .of_eq (holdClaim_row db now task _ detail t)
  | refused detail => exact (failQueuedTask_move db task.id t detail true none).mono False.elim
  | chosen hostId checkout =>
    cases checkout with
    | preparing => exact .of_eq (holdClaim_row db now task _ _ t)
    | failed jobDetail =>
      exact .of_eq (rowOf_updateTask_of_keeps db _ t _ _ _ (fun _ => rfl) (fun _ => rfl))
    | present =>
      simp only [dispatchPlace]
      cases hcwd : projectCwdOnHost project hostId with
      | none =>
        have hmove := failQueuedTask_move (dropHold db task) task.id t
          ("the placement host " ++ hostId ++ " has no path for this project") false none
        rw [rowOf_dropHold] at hmove
        exact hmove.mono False.elim
      | some cwd =>
        simp only
        cases hres : dispatchReservation (dropHold db task) cfg.maxConcurrent task
            (cfg.resolveAgentCommand task project) (failingSinceAfterHold task) hostId cwd with
        | error outcome => exact .of_eq (rowOf_dropHold db task t)
        | ok r =>
          obtain ⟨htask, -, row, hrow, hst, hse, -⟩ := dispatchReservation_ok hres
          simp only [Call.holds, htask, heldIf]
          by_cases ht : task.id = t
          · subst ht
            rw [if_pos rfl, ← rowOf_dropHold db task]
            rw [rowOf_updateTask_of_matched _ _ hrow (by simpa [isClaimed] using hst),
              rowOf_of_get hrow, hst, hse]
            refine .dispatched ?_ rfl rfl rfl hse rfl rfl fun _ hx => hx
            simp only [dispatchReserved, hcwd, hres, htask]
          · rw [if_neg ht]
            refine .of_eq ?_
            rw [rowOf_updateTask_of_ne _ (Ne.symm ht), rowOf_dropHold]

/-- A call lets go of a task without writing its row. -/
theorem Move.dropped {res : Prop} {row row' : Row} (id t : Nat) (kind : Kind)
    (hs : row'.status = row.status) (hse : row'.session = row.session)
    (hl : ∀ x, row'.live x → row.live x) : Move res row (heldIf id t kind) row' none := by
  unfold heldIf
  split
  · exact .released (by simp) rfl hse hl
  · exact .stay hs hse rfl hl

theorem dispatchRelease_move (db : Db) (now : Nat) (r : Reservation)
    (reason : String) (t : Nat) :
    Move False (rowOf db t) (heldIf r.task.id t .dispatch)
      (rowOf (dispatchRelease db now r reason) t) none := by
  unfold heldIf dispatchRelease
  by_cases ht : r.task.id = t
  · subst ht
    rw [if_pos rfl]
    refine .released (by simp) rfl ?_ fun _ hx => hx
    by_cases hm : db.taskMatches r.task.id isReservedByDispatch
    · obtain ⟨a, ha, hg⟩ := Db.taskMatches_iff.1 hm
      rw [rowOf_updateTask_of_matched _ _ ha hg, rowOf_of_get ha]
      rfl
    · rw [rowOf_updateTask_of_unmatched db _ _ (by simpa using hm)]
  · rw [if_neg ht]
    exact .of_eq (rowOf_updateTask_of_ne db (Ne.symm ht) _ _ _)

/-- A spawn for another task is not seen. -/
theorem live_spawn_of_ne {db : Db} {row : Session} {t x : Nat} (ht : row.spawnedFor ≠ some t)
    (h : (rowOf (db.insertSession row) t).live x) : (rowOf db t).live x := by
  rcases live_insertSession h with h | ⟨-, h⟩
  · exact h
  · exact absurd h ht

/-- A spawn, and the guarded write that makes the new session the task's. -/
theorem spawn_commit_move (db : Db) (row : Session) (id t : Nat) (kind : Kind)
    (g : Task → Bool) (f : Task → Task) (hf : ∀ t, (f t).id = t.id)
    (hfor : row.spawnedFor = some id) (hm : (db.insertSession row).taskMatches id g)
    (hse : ∀ a, (f a).sessionId = some db.nextSessionId) :
    Move False (rowOf db t) (heldIf id t kind)
      (rowOf ((db.insertSession row).updateTask id g f hf) t) none := by
  unfold heldIf
  by_cases ht : id = t
  · subst ht
    rw [if_pos rfl]
    obtain ⟨a, ha, hg⟩ := Db.taskMatches_iff.1 hm
    rw [rowOf_updateTask_of_matched f hf ha hg]
    refine .committed db.nextSessionId (by simp) rfl (hse a) fun y hy => ?_
    rcases live_insertSession hy with h | ⟨h, -⟩
    · exact Or.inl h
    · exact Or.inr h
  · rw [if_neg ht, rowOf_updateTask_of_ne _ (Ne.symm ht)]
    refine .stay rfl rfl rfl fun x hx => live_spawn_of_ne ?_ hx
    rw [hfor]
    exact fun h => ht (Option.some.inj h)

/-- A spawn whose session is killed at once. -/
theorem spawn_kill_live {db : Db} {row : Session} {t x : Nat}
    (h : (rowOf ((db.insertSession row).killSession db.nextSessionId) t).live x) :
    (rowOf db t).live x := by
  obtain ⟨h, hne⟩ := live_killSession h
  rcases live_insertSession h with h | ⟨h, -⟩
  · exact h
  · exact absurd h hne

theorem dispatchSpawn_move (db : Db) (now : Nat) (r : Reservation)
    (baseSha : Option String) (answer : SpawnAnswer) (t : Nat)
    (hrow : r.task.id = t → (rowOf db t).status ≠ none) :
    Move False (rowOf db t) (heldIf r.task.id t .dispatch)
      (rowOf (dispatchSpawn db now r baseSha answer).1 t)
      ((Call.dispatch (dispatchSpawn db now r baseSha answer).2).holds t) := by
  cases answer with
  | created cwd seedDelivered =>
    by_cases ht : r.task.id = t
    · refine spawn_commit_move db _ r.task.id t .dispatch _ _ _ rfl ?_ fun _ => rfl
      subst ht
      cases hget : db.tasks.get r.task.id with
      | none => exact absurd (by simp [rowOf, hget]) (hrow rfl)
      | some a => exact Db.taskMatches_iff.2 ⟨a, hget, rfl⟩
    · simp only [dispatchSpawn, heldIf, if_neg ht]
      rw [rowOf_updateTask_of_ne _ (Ne.symm ht)]
      refine .stay rfl rfl rfl fun x hx => live_spawn_of_ne ?_ hx
      exact fun h => ht (Option.some.inj h)
  | worktreeFailed detail => exact dispatchRelease_move db now r _ t
  | hostUnsupported detail => exact dispatchRelease_move db now r _ t
  | refused => exact dispatchRelease_move db now r _ t
  | threw message => exact dispatchRelease_move db now r _ t
  | outcomeUnknown detail kept =>
    cases kept with
    | none => exact dispatchRelease_move db now r _ t
    | some cwd =>
      simp only [dispatchSpawn]
      split
      · rename_i hm
        exact spawn_commit_move db _ r.task.id t .dispatch _ _ _ rfl hm fun _ => rfl
      · refine .stay ?_ ?_ rfl fun x hx => spawn_kill_live hx
        · simp [rowOf]
        · simp [rowOf]

/-- **A segment of a dispatch is a move.** -/
theorem dispatchResume_move {cfg : Config} {db db' : Db} {now : Nat} {pc pc' : DispatchPc}
    {a : Answer} (t : Nat) (h : dispatchResume cfg db now pc a = some (db', pc'))
    (hrow : (Call.dispatch pc).holds t ≠ none → (rowOf db t).status ≠ none) :
    Move (dispatchReserved cfg db pc a = some t) (rowOf db t) ((Call.dispatch pc).holds t)
      (rowOf db' t) ((Call.dispatch pc').holds t) := by
  unfold dispatchResume at h
  split at h
  -- in the order of the definition: before the reservation, holding it, and after
  · simp only [Option.some.injEq] at h
    have hmove := dispatchBlockers_move db ‹_› ‹_› ‹_› t
    rw [h] at hmove
    exact hmove.mono False.elim
  · simp only [Option.some.injEq] at h
    have hmove := dispatchPlace_move cfg db now ‹_› ‹_› ‹_› t
    rw [h] at hmove
    exact hmove
  · cases h; exact .of_eq rfl
  · cases h; exact .of_eq rfl
  · cases h; exact (dispatchRelease_move db now _ _ t).mono False.elim
  · cases h; exact (dispatchRelease_move db now _ _ t).mono False.elim
  · cases h; exact .of_eq rfl
  · cases h; exact (dispatchRelease_move db now _ _ t).mono False.elim
  · cases h; exact .of_eq rfl
  · rename_i r baseSha answer
    simp only [Option.some.injEq] at h
    have hmove := dispatchSpawn_move db now r baseSha answer t fun ht =>
      hrow (by simp [Call.holds, heldIf, ht])
    rw [h] at hmove
    exact hmove.mono False.elim
  · cases h; exact .dropped _ t _ rfl rfl fun _ hx => hx
  · cases h; exact .of_eq rfl
  · cases h; exact .of_eq rfl
  · cases h; exact (dispatchRelease_move db now _ _ t).mono False.elim
  · cases h; exact (dispatchRelease_move db now _ _ t).mono False.elim
  · cases h; exact (dispatchRelease_move db now _ _ t).mono False.elim
  · cases h; exact (dispatchRelease_move db now _ _ t).mono False.elim
  · cases h

/-! ### Retry -/

theorem retryRelease_move (db : Db) (r : RetryReservation) (reason : String)
    (t : Nat) :
    Move False (rowOf db t) (heldIf r.task.id t .retry) (rowOf (retryRelease db r reason) t) none := by
  unfold heldIf retryRelease
  by_cases ht : r.task.id = t
  · subst ht
    rw [if_pos rfl]
    refine .released (by simp) rfl ?_ fun _ hx => hx
    by_cases hm : db.taskMatches r.task.id isClaimed
    · obtain ⟨a, ha, hg⟩ := Db.taskMatches_iff.1 hm
      rw [rowOf_updateTask_of_matched _ _ ha hg, rowOf_of_get ha]
      rfl
    · rw [rowOf_updateTask_of_unmatched db _ _ (by simpa using hm)]
  · rw [if_neg ht]
    exact .of_eq (rowOf_updateTask_of_ne db (Ne.symm ht) _ _ _)

theorem retryResume_move (db : Db) (r : RetryReservation) (t : Nat) :
    Move False (rowOf db t) (heldIf r.task.id t .retry) (rowOf (retryResume db r).1 t)
      ((Call.retry (retryResume db r).2).holds t) := by
  unfold retryResume
  simp only
  split
  · exact retryRelease_move db r _ t
  · exact .of_eq rfl

theorem retrySpawn_move (db : Db) (now : Nat) (r : RetryReservation)
    (host : RetryHost) (answer : SpawnAnswer) (t : Nat)
    (hrow : r.task.id = t → (rowOf db t).status ≠ none) :
    Move False (rowOf db t) (heldIf r.task.id t .retry)
      (rowOf (retrySpawn db now r host answer).1 t)
      ((Call.retry (retrySpawn db now r host answer).2).holds t) := by
  cases answer with
  | created cwd seedDelivered =>
    by_cases ht : r.task.id = t
    · refine spawn_commit_move db _ r.task.id t .retry _ _ _ rfl ?_ fun _ => rfl
      subst ht
      cases hget : db.tasks.get r.task.id with
      | none => exact absurd (by simp [rowOf, hget]) (hrow rfl)
      | some a => exact Db.taskMatches_iff.2 ⟨a, hget, rfl⟩
    · simp only [retrySpawn, heldIf, if_neg ht]
      rw [rowOf_updateTask_of_ne _ (Ne.symm ht)]
      refine .stay rfl rfl rfl fun x hx => live_spawn_of_ne ?_ hx
      exact fun h => ht (Option.some.inj h)
  | worktreeFailed detail => exact .of_eq rfl
  | hostUnsupported detail => exact .of_eq rfl
  | refused => exact .of_eq rfl
  | threw message => exact .of_eq rfl
  | outcomeUnknown detail kept =>
    cases kept with
    | none => exact .of_eq rfl
    | some cwd =>
      simp only [retrySpawn]
      split
      · rename_i hm
        exact spawn_commit_move db _ r.task.id t .retry _ _ _ rfl hm fun _ => rfl
      · refine .dropped _ t _ ?_ ?_ fun x hx => spawn_kill_live hx
        · simp [rowOf]
        · simp [rowOf]

/-- **A later segment of a retry is a move, and never a reservation.** -/
theorem retryResumeStep_move {db db' : Db} {now : Nat} {pc pc' : RetryPc} {a : Answer} (t : Nat)
    (h : retryResumeStep db now pc a = some (db', pc'))
    (hrow : (Call.retry pc).holds t ≠ none → (rowOf db t).status ≠ none) :
    Move False (rowOf db t) ((Call.retry pc).holds t) (rowOf db' t)
      ((Call.retry pc').holds t) := by
  unfold retryResumeStep at h
  split at h
  · simp only [Option.some.injEq] at h
    have hmove := retryResume_move db ‹_› t
    rw [h] at hmove
    exact hmove
  · simp only [Option.some.injEq] at h
    have hmove := retryResume_move db ‹_› t
    rw [h] at hmove
    exact hmove
  · cases h; exact .of_eq rfl
  · cases h; exact retryRelease_move db _ _ t
  · cases h; exact retryRelease_move db _ _ t
  · cases h; exact retryRelease_move db _ _ t
  · cases h; exact .of_eq rfl
  · cases h; exact .of_eq rfl
  · rename_i r host worktree answer
    simp only [Option.some.injEq] at h
    have hmove := retrySpawn_move db now r host answer t fun ht =>
      hrow (by simp [Call.holds, heldIf, ht])
    rw [h] at hmove
    exact hmove
  · cases h; exact retryRelease_move db _ _ t
  · cases h; exact retryRelease_move db _ _ t
  · cases h; exact .of_eq rfl
  · cases h; exact .of_eq rfl
  · cases h; exact .of_eq rfl
  · cases h; exact .of_eq rfl
  · cases h

/-- The reservation of a retry, seen from its task. -/
theorem rowOf_retryReserve {db : Db} {id : Nat} {a : Task} (now : Nat)
    (ha : db.tasks.get id = some a) (hs : a.status = .failed) :
    rowOf (db.updateTask id (fun t => t.status = .failed) (retryReservePatch now)) id =
      { status := some .claimed, session := none, live := (rowOf db id).live } := by
  rw [rowOf_updateTask_of_matched _ _ ha (by simpa using hs)]
  rfl

/-- **The first segment of a retry is a move.** -/
theorem retryStart_move (cfg : Config) (db : Db) (now id t : Nat) :
    Move (retryReserved cfg db id = some t) (rowOf db t) none
      (rowOf (retryStart cfg db now id).1 t)
      ((Call.retry (retryStart cfg db now id).2).holds t) := by
  unfold retryStart
  cases hr : retryReservation cfg db id with
  | error outcome => exact .of_eq rfl
  | ok r =>
    obtain ⟨hget, hst, -, -, -⟩ := retryReservation_ok hr
    have hid : r.task.id = id := Table.get_key hget
    have hres : retryReserved cfg db id = some id := by simp only [retryReserved, hr, hid]
    generalize hdb : db.updateTask id (fun t => t.status = .failed) (retryReservePatch now) = db₁
    by_cases ht : id = t
    · subst ht
      have hrow₁ := rowOf_retryReserve now hget hst
      have hrow := rowOf_of_get hget
      rw [hst] at hrow
      rw [hdb] at hrow₁
      cases hold : r.task.sessionId with
      | some old =>
        simp only [hold, Call.holds, hid, heldIf, if_true]
        refine .retried hres ?_ ?_ ?_ rfl rfl fun x hx => ?_
        · rw [hrow]
        · rw [show (rowOf (db₁.killSession old) id).status = (rowOf db₁ id).status by simp [rowOf],
            hrow₁]
        · rw [show (rowOf (db₁.killSession old) id).session = (rowOf db₁ id).session by simp [rowOf],
            hrow₁]
        · obtain ⟨hx, hne⟩ := live_killSession hx
          rw [hrow₁] at hx
          refine ⟨hx, ?_⟩
          rw [hrow, hold]
          exact fun h => hne (Option.some.inj h).symm
      | none =>
        simp only [hold, retryResume]
        split
        · -- reserved and released in one segment: the task is failed again
          obtain ⟨a, ha, hga⟩ : ∃ a, db₁.tasks.get r.task.id = some a ∧ isClaimed a := by
            have := congrArg Row.status hrow₁
            simp only [rowOf, Option.map_eq_some_iff] at this
            obtain ⟨a, ha, hs⟩ := this
            exact ⟨a, by rw [hid]; exact ha, by simp [isClaimed, hs]⟩
          have hsession : a.sessionId = none := by
            have := congrArg Row.session hrow₁
            rw [← hid, rowOf_of_get ha] at this
            exact this
          refine .stay ?_ ?_ rfl fun x hx => ?_
          · rw [← hid, retryRelease, rowOf_updateTask_of_matched _ _ ha hga, hid, hrow]
            rfl
          · rw [← hid, retryRelease, rowOf_updateTask_of_matched _ _ ha hga, hid, hrow, hold]
            exact hsession
          · rw [← hid, retryRelease, rowOf_updateTask_of_matched _ _ ha hga, hid, hrow₁] at hx
            exact hx
        · simp only [Call.holds, hid, heldIf, if_true, hrow₁]
          refine .retried hres ?_ rfl rfl rfl rfl fun x hx => ⟨hx, ?_⟩
          · rw [hrow]
          · rw [hrow, hold]
            exact (Option.some_ne_none _).symm
    · have hne : rowOf db₁ t = rowOf db t := by
        rw [← hdb]
        exact rowOf_updateTask_of_ne db (Ne.symm ht) _ _ _
      cases hold : r.task.sessionId with
      | some old =>
        simp only [hold, Call.holds, hid, heldIf, if_neg ht]
        refine .stay ?_ ?_ rfl fun x hx => ?_
        · rw [← hne]
          simp [rowOf]
        · rw [← hne]
          simp [rowOf]
        · rw [← hne]
          exact (live_killSession hx).1
      | none =>
        have hmove := retryResume_move db₁ r t
        rw [hne, hid, heldIf, if_neg ht] at hmove
        simp only [hold]
        exact hmove.mono False.elim

/-! ## The whole system -/

/-- What each call holds of a task. -/
def World.holder (w : World) (t : Nat) (i : Nat) : Option Kind := (w.calls[i]?).bind (Call.holds t)

/-- A call starts: it is the last one, and held nothing before. -/
theorem holder_append {w v : World} {c : Call} (h : v.calls = w.calls ++ [c]) (t : Nat) :
    w.holder t w.calls.length = none ∧
      v.holder t = Function.update (w.holder t) w.calls.length (c.holds t) := by
  refine ⟨by simp [World.holder], ?_⟩
  funext i
  by_cases hi : i = w.calls.length
  · subst hi
    simp [World.holder, h]
  · rw [Function.update_of_ne hi, World.holder, World.holder, h]
    rcases Nat.lt_or_gt_of_ne hi with hlt | hgt
    · rw [List.getElem?_append_left hlt]
    · rw [List.getElem?_eq_none (by simp; omega), List.getElem?_eq_none (by omega)]

/-- A call moves on. -/
theorem holder_set {w v : World} {i : Nat} {c c' : Call} (hc : w.calls[i]? = some c)
    (h : v.calls = w.calls.set i c') (t : Nat) :
    w.holder t i = c.holds t ∧ v.holder t = Function.update (w.holder t) i (c'.holds t) := by
  refine ⟨by simp [World.holder, hc], ?_⟩
  have hlt : i < w.calls.length := (List.getElem?_eq_some_iff.1 hc).1
  funext j
  by_cases hj : j = i
  · subst hj
    simp [World.holder, h, hlt]
  · rw [Function.update_of_ne hj, World.holder, World.holder, h, List.getElem?_set_ne (Ne.symm hj)]

theorem holds_dispatchStart (db : Db) (id t : Nat) :
    (Call.dispatch (dispatchStart db id)).holds t = none := by
  unfold dispatchStart
  split
  · rfl
  · split
    · rfl
    · split <;> rfl

/-- The task whose reservation the step passes. -/
def reservedTask (cfg : Config) (w : World) : Label → Option Nat
  | .retry id => retryReserved cfg w.db id
  | .resume call answer =>
    match w.calls[call]? with
    | some (.dispatch pc) => dispatchReserved cfg w.db pc answer
    | _ => none
  | _ => none

/-- The invariant of the system: every task is held at most once and has at most its
own worker. -/
def Inv (w : World) : Prop := ∀ t, Single (rowOf w.db t) (w.holder t)

/-- A held task has a row. -/
theorem Single.row {row : Row} {holder : Nat → Option Kind} (h : Single row holder) {i : Nat}
    (hi : holder i ≠ none) : row.status ≠ none := by
  cases hk : holder i with
  | none => exact absurd hk hi
  | some k =>
    cases k with
    | dispatch => rw [(h.dispatched i hk).1]; simp
    | retry => rcases (h.retried i hk).1 with hs | hs <;> rw [hs] <;> simp

/-- **A step is a move of one call on every task.** -/
theorem step_move {cfg : Config} {w w' : World} {l : Label} (hi : Inv w)
    (h : step cfg w l = some w') (t : Nat) :
    ∃ i k', Move (reservedTask cfg w l = some t) (rowOf w.db t) (w.holder t i) (rowOf w'.db t) k' ∧
      w'.holder t = Function.update (w.holder t) i k' := by
  -- a step that starts no call and moves none
  have hquiet : w'.calls = w.calls →
      Move (reservedTask cfg w l = some t) (rowOf w.db t) (w.holder t 0) (rowOf w'.db t) (w.holder t 0) →
      ∃ i k', Move (reservedTask cfg w l = some t) (rowOf w.db t) (w.holder t i) (rowOf w'.db t) k' ∧
        w'.holder t = Function.update (w.holder t) i k' := by
    intro hcalls hm
    refine ⟨0, _, hm, ?_⟩
    rw [Function.update_eq_self]
    funext i
    rw [World.holder, World.holder, hcalls]
  cases l with
  | enqueue id auto seedCapable quarantined =>
    cases h
    exact hquiet rfl ((enqueueTask_move w.db w.now id t auto seedCapable quarantined _).mono
      False.elim)
  | tick ms =>
    cases h
    exact hquiet rfl (.of_eq rfl)
  | dispatch id =>
    cases h
    obtain ⟨hnone, hupd⟩ := holder_append (v := { w with calls := w.calls ++ [_] }) rfl t
    refine ⟨_, _, ?_, hupd⟩
    rw [hnone, holds_dispatchStart]
    exact .of_eq rfl
  | retry id =>
    cases h
    obtain ⟨hnone, hupd⟩ := holder_append (w := w)
      (v := { w with db := (retryStart cfg w.db w.now id).1,
                      calls := w.calls ++ [.retry (retryStart cfg w.db w.now id).2] }) rfl t
    refine ⟨_, _, ?_, hupd⟩
    rw [hnone]
    exact retryStart_move cfg w.db w.now id t
  | sweep =>
    simp only [step] at h
    split at h
    · cases h
      exact hquiet rfl (.of_eq rfl)
    · cases h
      obtain ⟨hnone, hupd⟩ := holder_append (w := w)
        (v := { w with sweepInFlight := true, calls := w.calls ++ [.sweep .starting] }) rfl t
      refine ⟨_, _, ?_, hupd⟩
      rw [hnone]
      exact .of_eq rfl
  | resume call answer =>
    simp only [step, resume] at h
    cases hc : w.calls[call]? with
    | none => rw [hc] at h; cases h
    | some c =>
      rw [hc] at h
      cases c with
      | dispatch pc =>
        simp only at h
        cases hr : dispatchResume cfg w.db w.now pc answer with
        | none => rw [hr] at h; cases h
        | some p =>
          obtain ⟨db, pc'⟩ := p
          rw [hr] at h
          cases h
          obtain ⟨hheld, hupd⟩ := holder_set hc
            (v := { w with db, calls := w.calls.set call (.dispatch pc') }) rfl t
          refine ⟨call, _, ?_, hupd⟩
          rw [hheld]
          refine (dispatchResume_move t hr fun hne => (hi t).row (i := call) ?_).mono ?_
          · rw [hheld]
            exact hne
          · intro hres
            simp only [reservedTask, hc]
            exact hres
      | retry pc =>
        simp only at h
        cases hr : retryResumeStep w.db w.now pc answer with
        | none => rw [hr] at h; cases h
        | some p =>
          obtain ⟨db, pc'⟩ := p
          rw [hr] at h
          cases h
          obtain ⟨hheld, hupd⟩ := holder_set hc
            (v := { w with db, calls := w.calls.set call (.retry pc') }) rfl t
          refine ⟨call, _, ?_, hupd⟩
          rw [hheld]
          refine (retryResumeStep_move t hr fun hne => (hi t).row (i := call) ?_).mono
            False.elim
          rw [hheld]
          exact hne
      | sweep pc =>
        simp only at h
        cases hr : sweepResume cfg w pc answer with
        | none => rw [hr] at h; cases h
        | some p =>
          obtain ⟨w₁, pc'⟩ := p
          rw [hr] at h
          cases h
          obtain ⟨hdb, hcalls⟩ := sweepResume_spec hr
          have hrow : Move (reservedTask cfg w (.resume call answer) = some t) (rowOf w.db t)
              (w.holder t call) (rowOf w₁.db t) (w.holder t call) := by
            rcases hdb with hdb | ⟨id, now, hdb⟩
            · rw [hdb]
              exact .of_eq rfl
            · rw [hdb]
              exact (giveUpIfOverdue_move w.db id now t _).mono False.elim
          refine ⟨call, _, hrow, ?_⟩
          rw [Function.update_eq_self]
          -- the sweep holds nothing, nor does the dispatch it starts
          have hlt : call < w.calls.length := (List.getElem?_eq_some_iff.1 hc).1
          funext i
          by_cases hic : i = call
          · subst hic
            rcases hcalls with hcalls | ⟨db, id, hcalls⟩
            · rw [World.holder, World.holder, hc, hcalls, List.getElem?_set_self hlt]
              rfl
            · rw [World.holder, World.holder, hc, hcalls, List.getElem?_set_self (by simp; omega)]
              rfl
          · rw [World.holder, World.holder, List.getElem?_set_ne (Ne.symm hic)]
            rcases hcalls with hcalls | ⟨db, id, hcalls⟩
            · rw [hcalls]
            · rw [hcalls]
              by_cases hlen : i < w.calls.length
              · rw [List.getElem?_append_left hlen]
              · rw [List.getElem?_append_right (by omega), List.getElem?_eq_none (l := w.calls)
                  (by omega)]
                by_cases hz : i - w.calls.length = 0
                · simp [hz, holds_dispatchStart]
                · rw [List.getElem?_eq_none (by simp; omega)]

/-- **A step keeps the invariant**, unless it reserves a task that a retry holds. -/
theorem Inv.step {cfg : Config} {w w' : World} {l : Label} (hi : Inv w)
    (hC : ∀ t, reservedTask cfg w l = some t → ∀ i, w.holder t i ≠ some .retry)
    (h : step cfg w l = some w') : Inv w' := by
  intro t
  obtain ⟨i, k', hmove, hupd⟩ := step_move hi h t
  rw [hupd]
  exact (hi t).move hmove (hC t)

/-! ## One worker -/

/-- Nobody holds the task. -/
def Free (w : World) (t : Nat) : Prop := ∀ c ∈ w.calls, c.holds t = none

/-- A retry holds the task. -/
def Retrying (w : World) (t : Nat) : Prop := ∃ c ∈ w.calls, c.holds t = some .retry

instance (w : World) (t : Nat) : Decidable (Free w t) :=
  inferInstanceAs (Decidable (∀ c ∈ w.calls, c.holds t = none))

instance (w : World) (t : Nat) : Decidable (Retrying w t) :=
  inferInstanceAs (Decidable (∃ c ∈ w.calls, c.holds t = some .retry))

/-- Every live session that was spawned for a task is the session on its row. -/
def OnlyWorker (db : Db) : Prop :=
  ∀ t x s, db.sessions.get x = some s → s.spawnedFor = some t → s.status ≠ .killed →
    (db.tasks.get t).bind Task.sessionId = some x

/-- The step reserves no task that a retry holds. -/
def NotRetrying (cfg : Config) (w : World) (l : Label) : Prop :=
  ∀ t ∈ reservedTask cfg w l, ¬ Retrying w t

instance (cfg : Config) (w : World) (l : Label) : Decidable (NotRetrying cfg w l) :=
  inferInstanceAs (Decidable (∀ t ∈ reservedTask cfg w l, ¬ Retrying w t))

/-- A step that reserves a task finds it free, and after the step every task has at
most the worker on its row. -/
def OneWorker (cfg : Config) (w : World) (l : Label) (w' : World) : Prop :=
  (∀ t ∈ reservedTask cfg w l, Free w t) ∧ OnlyWorker w'.db

theorem exists_holder {w : World} {t i : Nat} {k : Kind} (h : w.holder t i = some k) :
    ∃ c ∈ w.calls, c.holds t = some k := by
  obtain ⟨c, hc, hk⟩ := Option.bind_eq_some_iff.1 h
  exact ⟨c, List.mem_of_getElem? hc, hk⟩

theorem holder_of_mem {w : World} {t : Nat} {c : Call} (hc : c ∈ w.calls) :
    ∃ i, w.holder t i = c.holds t := by
  obtain ⟨i, hi⟩ := List.mem_iff_getElem?.1 hc
  exact ⟨i, by rw [World.holder, hi]; rfl⟩

/-- The reserved row is queued (for a dispatch) or failed (for a retry): no dispatch
holds it. -/
theorem Inv.reserved {cfg : Config} {w : World} {l : Label} {t : Nat} (hi : Inv w)
    (hres : reservedTask cfg w l = some t) (i : Nat) : w.holder t i ≠ some .dispatch := by
  intro hheld
  have hst := ((hi t).dispatched i hheld).1
  cases l with
  | retry id =>
    simp only [reservedTask, retryReserved] at hres
    split at hres
    · cases hres
    · rename_i r hr
      cases hres
      obtain ⟨hget, hfailed, -⟩ := retryReservation_ok hr
      rw [Table.get_key hget, rowOf_of_get hget, hfailed] at hst
      cases hst
  | resume call answer =>
    simp only [reservedTask] at hres
    split at hres
    · unfold dispatchReserved at hres
      split at hres
      · split at hres
        · cases hres
        · split at hres
          · cases hres
          · rename_i r hr
            cases hres
            obtain ⟨htask, -, row, hrow, hclaimed, -⟩ := dispatchReservation_ok hr
            rw [htask, ← rowOf_dropHold, rowOf_of_get hrow, hclaimed] at hst
            cases hst
      · cases hres
    · cases hres
  | _ => cases hres

/-- No call is in flight. -/
def World.Idle (w : World) : Prop := w.calls = []

/-- **One worker for a task.** From any state with no call in flight in which every
live worker is on its task's row, and for every interleaving of enqueues,
dispatches, retries and sweeps: all reservations of the run find their task free and
the row stays the only worker, exactly when no reservation is made of a task that a
`retryTask` call still holds. -/
theorem one_worker_iff (cfg : Config) (w : World) (run : List Label) (hidle : w.Idle)
    (hworker : OnlyWorker w.db) :
    Run.AlongSteps (step cfg) (OneWorker cfg) w run ↔
      Run.Meets (step cfg) (NotRetrying cfg) w run := by
  have hnone : ∀ t i, w.holder t i = none := by
    intro t i
    rw [World.holder, hidle]
    rfl
  have hstart : Inv w := by
    refine fun t => ⟨fun i _ hne => absurd (hnone t i) hne, fun i hi => ?_, fun i hi => ?_, ?_⟩
    · rw [hnone t i] at hi
      cases hi
    · rw [hnone t i] at hi
      cases hi
    · rintro x ⟨s, hs, hfor, hst⟩
      exact hworker t x s hs hfor hst
  have keep : ∀ s l s', Inv s → NotRetrying cfg s l → step cfg s l = some s' → Inv s' := by
    intro s l s' hi hC h
    exact hi.step (fun t hres i hk => hC t hres (exists_holder hk)) h
  refine Run.alongSteps_iff_meets (I := Inv) keep ?_ hstart
  intro s l s' hi h
  constructor
  · rintro ⟨hfree, -⟩ t hres ⟨c, hc, hk⟩
    rw [hfree t hres c hc] at hk
    cases hk
  · intro hC
    refine ⟨fun t hres c hc => ?_, fun t x r hr hfor hst =>
      ((keep s l s' hi hC h) t).worker x ⟨r, hr, hfor, hst⟩⟩
    cases hk : c.holds t with
    | none => rfl
    | some k =>
      cases k with
      | dispatch =>
        obtain ⟨i, hheld⟩ := holder_of_mem (t := t) hc
        exact absurd (hheld.trans hk) (hi.reserved hres i)
      | retry => exact absurd ⟨c, hc, hk⟩ (hC t hres)

/-! ### A retry and a dispatch of the same task -/

/-- One failed task with a branch. -/
def failedTaskWorld : World :=
  demoWorld (demoDb [{ id := 1, projectId := 1, status := .failed, branchName := some "b" }] [] 1
    (by decide) List.nodup_nil fresh_one)

/-- A retry that runs alone, and a dispatch that comes after it. -/
theorem one_worker_of_retry :
    Run.AlongSteps (step demoConfig) (OneWorker demoConfig) failedTaskWorld
      [.retry 1, .resume 0 (.worktree "/p/w"), .resume 0 .settled,
        .resume 0 (.spawn (.created "/p/w" true)), .dispatch 1] := by
  refine (one_worker_iff demoConfig failedTaskWorld _ rfl ?_).2 (by decide)
  intro t x s hs
  cases hs

/-- **A retried task is dispatched.** The retry has put the task back to `claimed`
and waits for the worktree; a dispatch finds a queued task without a session and
reserves it too. -/
theorem retried_task_is_dispatched :
    ¬ ∀ (cfg : Config) (w : World) (run : List Label), w.Idle → OnlyWorker w.db →
      Run.AlongSteps (step cfg) (OneWorker cfg) w run := by
  intro h
  have hsteps := h demoConfig failedTaskWorld ([.retry 1, .dispatch 1, .resume 1 (.gate .clear)] ++
    [.resume 1 (.placement (.chosen "local" .present))]) rfl (fun t x s hs => by cases hs)
  have hplay : (Run.play (step demoConfig) failedTaskWorld
      [.retry 1, .dispatch 1, .resume 1 (.gate .clear)]).map (fun w =>
        (reservedTask demoConfig w (.resume 1 (.placement (.chosen "local" .present))),
          decide (Free w 1),
          (step demoConfig w (.resume 1 (.placement (.chosen "local" .present)))).isSome)) =
      some (some 1, false, true) := by decide
  obtain ⟨w, hw, hview⟩ := Option.map_eq_some_iff.1 hplay
  simp only [Prod.mk.injEq, decide_eq_false_iff_not] at hview
  obtain ⟨hres, hheld, hnext⟩ := hview
  obtain ⟨w', hw'⟩ := Option.isSome_iff_exists.1 hnext
  exact hheld ((hsteps.last hw hw').1 1 hres)

end Claim
end Mullion
