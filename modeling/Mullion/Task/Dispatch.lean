import Mathlib.Data.List.Sort
import Mullion.Task.Claim

/-!
# The dispatch sweep, and any number of calls at once

`dispatchQueuedTasks` (`task-dispatch.ts`) walks the queue and dispatches one task
after the other; sweeps, dispatches, retries and enqueues run side by side.

* `SweepPc`, `sweepLoop`, `sweepResume` — the sweep, its back-off and its give-up;
* `World` — the database, the clock, the process memory of the sweep, and the
  calls that were started, each at its `Pc`;
* `Label`, `step` — a call starts, or resumes with what its await brought, or time
  passes.
-/

namespace Mullion
namespace Claim

/-! ## Back-off and give-up -/

/-- `DISPATCH_RETRY_TTL_MS`. -/
def dispatchRetryTtlMs : Nat := 5 * 60 * 1000

/-- `DISPATCH_RETRY_MAX_TTL_MS`. -/
def dispatchRetryMaxTtlMs : Nat := 60 * 60 * 1000

/-- `DISPATCH_GIVE_UP_AFTER_MS`. -/
def dispatchGiveUpAfterMs : Nat := 6 * 60 * 60 * 1000

/-- `DISPATCH_BACKOFF_MAX_ENTRIES`. -/
def dispatchBackoffMaxEntries : Nat := 500

/-- An entry of `dispatchBackoffState`. -/
structure Backoff where
  taskId : Nat
  nextAttemptAt : Nat
  attempts : Nat
  deriving DecidableEq, Repr

/-- `dispatchBackoffMs`. -/
def dispatchBackoffMs (attempts : Nat) : Nat :=
  min (dispatchRetryTtlMs * 2 ^ (attempts - 1)) dispatchRetryMaxTtlMs

/-- `isBackedOff`. -/
def isBackedOff (backoff : List Backoff) (taskId now : Nat) : Bool :=
  backoff.any (fun b => b.taskId = taskId && now < b.nextAttemptAt)

/-- `recordDispatchFailure`: the map keeps insertion order, and the oldest entry
makes room for a new one. -/
def recordDispatchFailure (backoff : List Backoff) (taskId now : Nat) : List Backoff :=
  match backoff.find? (fun b => b.taskId = taskId) with
  | some prior =>
    let entry := { prior with
      nextAttemptAt := now + dispatchBackoffMs (prior.attempts + 1)
      attempts := prior.attempts + 1 }
    backoff.map (fun b => if b.taskId = taskId then entry else b)
  | none =>
    let kept := if dispatchBackoffMaxEntries ≤ backoff.length then backoff.tail else backoff
    kept ++ [{ taskId, nextAttemptAt := now + dispatchBackoffMs 1, attempts := 1 }]

/-- `clearDispatchBackoff`. -/
def clearDispatchBackoff (backoff : List Backoff) (taskId : Nat) : List Backoff :=
  backoff.filter (fun b => b.taskId ≠ taskId)

/-- `giveUpIfOverdue`. -/
def giveUpIfOverdue (db : Db) (taskId now : Nat) : Db × Bool :=
  match db.tasks.get taskId with
  | none => (db, false)
  | some row =>
    match row.dispatchFailingSince with
    | none => (db, false)
    | some since =>
      if row.status ≠ .claimed ∨ now - since < dispatchGiveUpAfterMs then (db, false)
      else
        let detail := if row.dispatchHeld then
            "gave up after 6h waiting for a host that matches the task's Platform:/Host: requirement to become eligible"
          else "gave up after 6h of failed dispatch attempts — last: " ++
            row.failureReason.getD "unknown"
        failQueuedTask db taskId detail row.dispatchHeld

/-! ## The world -/

/-- Where a sweep waits. -/
inductive SweepPc
  /-- about to read the queue -/
  | starting
  /-- for the call `call`, which dispatches `taskId` -/
  | waiting (call taskId : Nat) (queue : List Nat) (now : Nat)
  /-- the queue is walked -/
  | walked
  | finished
  deriving DecidableEq, Repr

/-- A call that was started. -/
inductive Call
  | dispatch (pc : DispatchPc)
  | retry (pc : RetryPc)
  | sweep (pc : SweepPc)
  deriving DecidableEq, Repr

/-- The database, the clock, the sweep's process memory and the calls. -/
structure World where
  db : Db
  now : Nat
  calls : List Call
  sweepInFlight : Bool
  sweepPending : Bool
  backoff : List Backoff

/-- What can happen. -/
inductive Label
  | enqueue (taskId : Nat) (auto seedCapable quarantined : Bool)
  | dispatch (taskId : Nat)
  | retry (taskId : Nat)
  | sweep
  | resume (call : Nat) (answer : Answer)
  | tick (ms : Nat)
  deriving DecidableEq, Repr

/-- The queue as a sweep reads it: the claimed tasks by board order, then by id. -/
def queuedTasks (db : Db) : List Nat :=
  ((db.tasks.rows.filter (fun t => t.status = .claimed)).insertionSort
    (fun a b => a.boardOrder < b.boardOrder ∨ (a.boardOrder = b.boardOrder ∧ a.id ≤ b.id))).map
    Task.id

/-- The loop of `runOneSweep` from one candidate to the next dispatch. -/
def sweepLoop (cfg : Config) (w : World) (now : Nat) : List Nat → World × SweepPc
  | [] => (w, .walked)
  | taskId :: queue =>
    if isBackedOff w.backoff taskId now then sweepLoop cfg w now queue
    else if cfg.maxConcurrent ≤ inFlight w.db then (w, .walked)
    else
      ({ w with calls := w.calls ++ [.dispatch (dispatchStart w.db taskId)] },
        .waiting w.calls.length taskId queue now)

/-- What a sweep does with the outcome of a dispatch; the flag says whether it goes
on. -/
def sweepOutcome (w : World) (taskId now : Nat) : DispatchTaskOutcome → World × Bool
  | .ok => ({ w with backoff := clearDispatchBackoff w.backoff taskId }, true)
  | .cap _ => (w, false)
  | .placementRefused _ | .notQueued | .blockedHeld _ => (w, true)
  | .placementHeld _ => ({ w with db := (giveUpIfOverdue w.db taskId now).1 }, true)
  | .worktreeFailed _ | .spawnFailed _ | .threw =>
    match giveUpIfOverdue w.db taskId now with
    | (db, true) => ({ w with db, backoff := clearDispatchBackoff w.backoff taskId }, true)
    | (db, false) => ({ w with db, backoff := recordDispatchFailure w.backoff taskId now }, true)

/-- One segment of `dispatchQueuedTasks`. -/
def sweepResume (cfg : Config) (w : World) : SweepPc → Answer → Option (World × SweepPc)
  | .starting, .settled =>
    some (sweepLoop cfg { w with sweepPending := false } w.now (queuedTasks w.db))
  | .waiting call taskId queue now, .settled =>
    match w.calls[call]? with
    | some (.dispatch (.finished .threw)) =>
      some ({ w with sweepInFlight := false }, .finished)
    | some (.dispatch (.finished outcome)) =>
      match sweepOutcome w taskId now outcome with
      | (w, true) => some (sweepLoop cfg w now queue)
      | (w, false) => some (w, .walked)
    | _ => none
  | .walked, .settled =>
    if w.sweepPending then some (w, .starting)
    else some ({ w with sweepInFlight := false }, .finished)
  | _, _ => none

/-- A stretch of the sweep loop writes nothing; it may start a dispatch. -/
theorem sweepLoop_spec (cfg : Config) (w : World) (now : Nat) (queue : List Nat) :
    (sweepLoop cfg w now queue).1.db = w.db ∧
      ((sweepLoop cfg w now queue).1.calls = w.calls ∨
        ∃ id, (sweepLoop cfg w now queue).1.calls =
          w.calls ++ [.dispatch (dispatchStart w.db id)]) := by
  induction queue with
  | nil => exact ⟨rfl, Or.inl rfl⟩
  | cons id queue ih =>
    rw [sweepLoop]
    split
    · exact ih
    · split
      · exact ⟨rfl, Or.inl rfl⟩
      · exact ⟨rfl, Or.inr ⟨id, rfl⟩⟩

/-- The outcome of a dispatch makes a sweep write at most a give-up. -/
theorem sweepOutcome_spec (w : World) (id now : Nat) (outcome : DispatchTaskOutcome) :
    (sweepOutcome w id now outcome).1.calls = w.calls ∧
      ((sweepOutcome w id now outcome).1.db = w.db ∨
        (sweepOutcome w id now outcome).1.db = (giveUpIfOverdue w.db id now).1) := by
  cases outcome with
  | placementHeld detail => exact ⟨rfl, Or.inr rfl⟩
  | worktreeFailed detail =>
    simp only [sweepOutcome]
    rcases hg : giveUpIfOverdue w.db id now with ⟨db, gaveUp⟩
    cases gaveUp <;> exact ⟨rfl, Or.inr rfl⟩
  | spawnFailed detail =>
    simp only [sweepOutcome]
    rcases hg : giveUpIfOverdue w.db id now with ⟨db, gaveUp⟩
    cases gaveUp <;> exact ⟨rfl, Or.inr rfl⟩
  | threw =>
    simp only [sweepOutcome]
    rcases hg : giveUpIfOverdue w.db id now with ⟨db, gaveUp⟩
    cases gaveUp <;> exact ⟨rfl, Or.inr rfl⟩
  | _ => exact ⟨rfl, Or.inl rfl⟩

/-- **A segment of a sweep**: at most a give-up on the task it waited for, and at
most one new dispatch, which holds nothing yet. -/
theorem sweepResume_spec {cfg : Config} {w w' : World} {pc pc' : SweepPc} {a : Answer}
    (h : sweepResume cfg w pc a = some (w', pc')) :
    (w'.db = w.db ∨ ∃ id now, w'.db = (giveUpIfOverdue w.db id now).1) ∧
      (w'.calls = w.calls ∨ ∃ db id, w'.calls = w.calls ++ [.dispatch (dispatchStart db id)]) := by
  unfold sweepResume at h
  split at h
  · simp only [Option.some.injEq] at h
    obtain ⟨hdb, hcalls⟩ := sweepLoop_spec cfg { w with sweepPending := false } w.now
      (queuedTasks w.db)
    rw [h] at hdb hcalls
    refine ⟨Or.inl hdb, ?_⟩
    rcases hcalls with hcalls | ⟨id, hcalls⟩
    · exact Or.inl hcalls
    · exact Or.inr ⟨_, id, hcalls⟩
  · split at h
    · cases h
      exact ⟨Or.inl rfl, Or.inl rfl⟩
    · rename_i call id queue now _ outcome _ _
      obtain ⟨hcalls, hdb⟩ := sweepOutcome_spec w id now outcome
      split at h
      · rename_i w₁ hw₁
        rw [hw₁] at hcalls hdb
        simp only [Option.some.injEq] at h
        obtain ⟨hdb', hcalls'⟩ := sweepLoop_spec cfg w₁ now queue
        rw [h] at hdb' hcalls'
        simp only at hcalls hdb
        refine ⟨?_, ?_⟩
        · rw [hdb']
          rcases hdb with hdb | hdb
          · exact Or.inl hdb
          · exact Or.inr ⟨id, now, hdb⟩
        · rcases hcalls' with hcalls' | ⟨id', hcalls'⟩
          · exact Or.inl (hcalls'.trans hcalls)
          · exact Or.inr ⟨_, id', by rw [hcalls', hcalls]⟩
      · rename_i w₁ hw₁
        rw [hw₁] at hcalls hdb
        cases h
        refine ⟨?_, Or.inl hcalls⟩
        rcases hdb with hdb | hdb
        · exact Or.inl hdb
        · exact Or.inr ⟨id, now, hdb⟩
    · cases h
  · split at h
    · cases h
      exact ⟨Or.inl rfl, Or.inl rfl⟩
    · cases h
      exact ⟨Or.inl rfl, Or.inl rfl⟩
  · cases h

/-! ## Steps -/

/-- Resume the call at `call`. -/
def resume (cfg : Config) (w : World) (call : Nat) (answer : Answer) : Option World :=
  match w.calls[call]? with
  | none => none
  | some (.dispatch pc) =>
    match dispatchResume cfg w.db w.now pc answer with
    | none => none
    | some (db, pc) => some { w with db, calls := w.calls.set call (.dispatch pc) }
  | some (.retry pc) =>
    match retryResumeStep w.db w.now pc answer with
    | none => none
    | some (db, pc) => some { w with db, calls := w.calls.set call (.retry pc) }
  | some (.sweep pc) =>
    match sweepResume cfg w pc answer with
    | none => none
    | some (w, pc) => some { w with calls := w.calls.set call (.sweep pc) }

/-- One step: a call starts or resumes, or time passes. -/
def step (cfg : Config) (w : World) : Label → Option World
  | .enqueue taskId auto seedCapable quarantined =>
    some { w with db := (enqueueTask w.db w.now taskId auto seedCapable quarantined).1 }
  | .dispatch taskId => some { w with calls := w.calls ++ [.dispatch (dispatchStart w.db taskId)] }
  | .retry taskId =>
    let (db, pc) := retryStart cfg w.db w.now taskId
    some { w with db, calls := w.calls ++ [.retry pc] }
  | .sweep =>
    if w.sweepInFlight then some { w with sweepPending := true }
    else some { w with sweepInFlight := true, calls := w.calls ++ [.sweep .starting] }
  | .resume call answer => resume cfg w call answer
  | .tick ms => some { w with now := w.now + ms }

/-! ## Small worlds -/

/-- A database with one project and the given tasks and sessions. -/
def demoDb (tasks : List Task) (sessions : List Session) (next : Nat)
    (ht : (tasks.map Task.id).Nodup := by decide) (hs : (sessions.map Session.id).Nodup := by decide)
    (hf : ∀ id ∈ sessions.map Session.id, id < next := by decide) : Db :=
  { projects := ⟨[{ id := 1, cwd := "/p" }], by decide⟩
    sessions := ⟨sessions, hs⟩
    tasks := ⟨tasks, ht⟩
    nextSessionId := next
    fresh := hf }

theorem nodup_one : [1].Nodup := List.nodup_singleton 1

theorem fresh_one : ∀ id ∈ ([] : List Nat), id < 1 := fun _ h => absurd h List.not_mem_nil

/-- A quiet world over a database. -/
def demoWorld (db : Db) : World :=
  { db, now := 0, calls := [], sweepInFlight := false, sweepPending := false, backoff := [] }

def demoConfig : Config := { maxConcurrent := 2, resolveAgentCommand := fun _ _ => "agent" }

end Claim
end Mullion
