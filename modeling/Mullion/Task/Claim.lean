import Mullion.Schema

/-!
# Claiming, dispatching and retrying a task

The calls of `task-claim.ts` that give a task its worker.  A call runs to its
next `await` without interruption, so each is cut there into segments: a segment
is a function of the database, and a `Pc` says where the call waits and what it
remembers.  What an await brings (a placement, a host's answer, the outcome of a
spawn) is an argument of the segment that follows it.

* `enqueueTask` — one segment: `ready → claimed`;
* `DispatchPc` and `dispatch…` — `dispatchClaimedTask`: the reservation
  `claimed → in_progress`, the checkout, the spawn, and the commit;
* `RetryPc` and `retry…` — `retryTask`: the reservation `failed → claimed`, the
  resumed worktree, the spawn, and the commit to `in_progress`;
* `failQueuedTask` — `claimed → failed`.
-/

namespace Mullion
namespace Claim

/-! ## Branch names and worktree paths -/

/-- The characters `sanitizeRefComponent` keeps. -/
def isRefChar (c : Char) : Bool := c.isAlphanum || c = '_' || c = '.' || c = '-'

/-- `String.prototype.slice(0, n)`, which counts UTF-16 units: half of a pair is
left as a lone surrogate, shown here by the replacement character. -/
def sliceUtf16 : Nat → List Char → List Char
  | _, [] => []
  | 0, _ => []
  | n + 1, c :: cs =>
    if c.toNat < 0x10000 then c :: sliceUtf16 n cs
    else match n with
      | 0 => [Char.ofNat 0xfffd]
      | n + 1 => c :: sliceUtf16 n cs

/-- Runs of `-` become one. -/
def squeezeDashes : List Char → List Char
  | [] => []
  | c :: cs =>
    match c, squeezeDashes cs with
    | '-', '-' :: rest => '-' :: rest
    | c, rest => c :: rest

/-- Strip `-` and `.` at both ends. -/
def stripRef (cs : List Char) : List Char :=
  let strip := List.dropWhile (fun c => c = '-' || c = '.')
  (strip (strip cs).reverse).reverse

/-- `sanitizeRefComponent` (`MAX_REF_COMPONENT_LENGTH` is 200). -/
def sanitizeRefComponent (value : String) : String :=
  let cleaned := stripRef (squeezeDashes
    ((sliceUtf16 200 value.toList).map (fun c => if isRefChar c then c else '-')))
  if cleaned.isEmpty then "session" else String.ofList cleaned

/-- `deriveTaskBranchName`. -/
def deriveTaskBranchName (task : Task) : String :=
  let slug := sanitizeRefComponent task.title
  "mullion/task-" ++ toString task.id ++ "-" ++ (if slug = "session" then "untitled" else slug)

/-- `deriveWorktreePath` with the default base directory; `cwd` is absolute. -/
def deriveWorktreePath (cwd seed : String) : String :=
  cwd ++ "/.mullion-worktrees/" ++ sanitizeRefComponent seed

/-! ## Outcomes -/

inductive EnqueueTaskOutcome
  | ok
  | notFound
  | archived
  | noSeedChannel
  | agentQuarantined
  | notReady (status : TaskStatus)
  deriving DecidableEq, Repr

/-- `DispatchTaskOutcome`; `threw` is the rejected promise of a call that fails
after its commit. -/
inductive DispatchTaskOutcome
  | ok
  | notQueued
  | cap (limit : Nat)
  | worktreeFailed (detail : String)
  | spawnFailed (detail : Option String)
  | placementRefused (detail : String)
  | placementHeld (detail : String)
  | blockedHeld (detail : String)
  | threw
  deriving DecidableEq, Repr

/-- `RetryTaskOutcome`. -/
inductive RetryTaskOutcome
  | ok
  | notFound
  | notFailed (status : TaskStatus)
  | superseded
  | cap (limit : Nat)
  | noWorktree
  | remoteNotSupported
  | worktreeFailed
  | spawnFailed (detail : String)
  | threw
  deriving DecidableEq, Repr

/-- What `createSessionRecord` answers. -/
inductive SpawnAnswer
  /-- The session row, with its directory; whether the first prompt was applied. -/
  | created (cwd : String) (initialPromptApplied : Bool)
  | worktreeFailed (detail : Option String)
  | hostUnsupported (detail : String)
  /-- Any other refusal; nothing was created. -/
  | refused
  /-- The spawn may have landed; `kept` is the directory of the row that was kept,
  when there is one. -/
  | outcomeUnknown (detail : Option String) (kept : Option String)
  | threw (message : String)
  deriving DecidableEq, Repr

/-! ## Guards of the writes -/

/-- `eq(tasks.status, "claimed")`. -/
def isClaimed (t : Task) : Bool := t.status = .claimed

/-- `eq(tasks.status, "in_progress")`. -/
def isInProgress (t : Task) : Bool := t.status = .inProgress

/-! ## Enqueue -/

/-- The patch of `enqueueTask`. -/
def queuePatch (now : Nat) (branchName worktreePath : String) (t : Task) : Task :=
  { t.setStatus .claimed with
    queuedAt := some now
    worktreePath := some worktreePath
    branchName := some branchName
    failureReason := none
    dispatchFailingSince := none
    dispatchHeld := false }

/-- `enqueueTask`. The resolved agent decides `seedCapable`, the quota readings
decide `quarantined`; there is no await before the transaction, so the row it
reads is the row read at the top. -/
def enqueueTask (db : Db) (now : Nat) (taskId : Nat) (auto seedCapable quarantined : Bool) :
    Db × EnqueueTaskOutcome :=
  match db.tasks.get taskId with
  | none => (db, .notFound)
  | some task =>
    match db.projects.get task.projectId with
    | none => (db, .notFound)
    | some project =>
      if task.archivedAt.isSome then (db, .archived)
      else if !seedCapable && auto then (db, .noSeedChannel)
      else if quarantined && auto then (db, .agentQuarantined)
      else if task.status ≠ .ready then (db, .notReady task.status)
      else
        let branchName := deriveTaskBranchName task
        (db.updateTask taskId (fun t => t.status = .ready && t.archivedAt.isNone)
          (queuePatch now branchName (deriveWorktreePath project.cwd branchName)), .ok)

/-- The patch of `failQueuedTask`, with the `extra` its callers give: the branch and
the path are forgotten or kept. -/
def failQueuedPatch (detail : String) (forgetBranch : Bool) (t : Task) : Task :=
  { t.setStatus .failed with
    failureReason := some detail
    failureDiagnostics := none
    dispatchFailingSince := none
    dispatchHeld := false
    worktreePath := if forgetBranch then none else t.worktreePath
    branchName := if forgetBranch then none else t.branchName }

/-- `failQueuedTask`. The flag says whether the row was still `claimed`. -/
def failQueuedTask (db : Db) (taskId : Nat) (detail : String) (forgetBranch : Bool) : Db × Bool :=
  match db.tasks.get taskId with
  | none => (db, false)
  | some task =>
    match db.projects.get task.projectId with
    | none => (db, false)
    | some _ =>
      (db.updateTask taskId isClaimed (failQueuedPatch detail forgetBranch),
        db.taskMatches taskId isClaimed)

/-! ## Dispatch: before the reservation -/

/-- What `dependencyGate` says of the task's blockers, read again from GitHub when
it has to be. -/
inductive Gate
  | clear
  | blocked (blockers : String)
  /-- The blockers could not be read: the task is dispatched anyway. -/
  | unresolved
  deriving DecidableEq, Repr

/-- `BLOCKED_HOLD_PREFIX`. -/
def blockedHoldPrefix : String := "Waiting for "

/-- `blockedHoldDetail`. -/
def blockedHoldDetail (blockers : String) : String := blockedHoldPrefix ++ blockers ++ " to close"

/-- Whether the row carries the text of an earlier blocked hold. -/
def isBlockedHold (task : Task) : Bool :=
  task.failureReason.any (fun reason => blockedHoldPrefix.toList.isPrefixOf reason.toList)

/-- `blockedHold`, from the answer on. -/
def blockedHold (db : Db) (task : Task) : Gate → Db × Option DispatchTaskOutcome
  | .unresolved => (db, none)
  | .blocked blockers =>
    let detail := blockedHoldDetail blockers
    let db := if task.failureReason ≠ some detail then
        db.updateTask task.id isClaimed (fun t => { t with failureReason := some detail })
      else db
    (db, some (.blockedHeld detail))
  | .clear =>
    let db := if isBlockedHold task then
        db.updateTask task.id isClaimed (fun t => { t with failureReason := none })
      else db
    (db, none)

/-- Where the placement stands with the project's checkout on the chosen host. -/
inductive Checkout
  | present
  | preparing
  | failed (detail : String)
  deriving DecidableEq, Repr

/-- What the placement policy answers. -/
inductive PlacementReading
  /-- A refusal that may pass by itself. -/
  | transient (detail : String)
  | refused (detail : String)
  | chosen (hostId : HostId) (checkout : Checkout)
  deriving DecidableEq, Repr

/-- What a dispatch remembers once it holds its task. -/
structure Reservation where
  task : Task
  /-- The agent's command line. -/
  command : String
  branchName : String
  /-- The start of the current run of failed attempts. -/
  failingSince : Option Nat
  hostId : HostId
  cwd : String
  /-- The spell of the task that the reservation began. -/
  spell : Nat
  deriving DecidableEq, Repr

/-- Where `dispatchClaimedTask` waits. -/
inductive DispatchPc
  /-- for the blockers, `blockedHold` -/
  | blockers (task : Task) (project : Project)
  /-- `ensureRemoteHostProtocols` -/
  | protocols (task : Task) (project : Project)
  /-- `clearOrphanedCheckout` -/
  | clearing (r : Reservation)
  /-- `resolveHostBaseRef` -/
  | baseRef (r : Reservation)
  /-- the issue context and the sessions directory of the prompt -/
  | prompt (r : Reservation) (baseSha : Option String)
  /-- `createSessionRecord` -/
  | spawning (r : Reservation) (baseSha : Option String)
  /-- `killSession` of a session the task did not wait for -/
  | killing (r : Reservation) (detail : String)
  /-- `withLiveStatus`, after the commit -/
  | liveStatus
  | finished (outcome : DispatchTaskOutcome)
  deriving DecidableEq, Repr

/-- `dispatchClaimedTask`, up to its first await. -/
def dispatchStart (db : Db) (taskId : Nat) : DispatchPc :=
  match db.tasks.get taskId with
  | none => .finished .notQueued
  | some task =>
    if task.status ≠ .claimed ∨ task.sessionId.isSome then .finished .notQueued
    else
      match db.projects.get task.projectId with
      | none => .finished .notQueued
      | some project => .blockers task project

/-- After the blockers are known. -/
def dispatchBlockers (db : Db) (task : Task) (project : Project) (gate : Gate) : Db × DispatchPc :=
  match blockedHold db task gate with
  | (db, some outcome) => (db, .finished outcome)
  | (db, none) => (db, .protocols task project)

/-- `refuseClaim`. -/
def refuseClaim (db : Db) (task : Task) (detail : String) (forgetBranch : Bool) :
    Db × DispatchPc :=
  ((failQueuedTask db task.id detail forgetBranch).1, .finished (.placementRefused detail))

/-- The patch of a hold, of a failed attempt before the reservation, and of a hold
that is dropped. -/
def holdPatch (reason : Option String) (since : Option Nat) (held : Bool) (t : Task) : Task :=
  { t with
    failureReason := reason
    dispatchFailingSince := since
    dispatchHeld := held }

/-- `holdClaim`. -/
def holdClaim (db : Db) (now : Nat) (task : Task) (failingSince : Option Nat) (detail : String) :
    Db × DispatchPc :=
  let db := if task.failureReason ≠ some detail ∨ failingSince = none ∨ !task.dispatchHeld then
      db.updateTask task.id isClaimed (holdPatch (some detail) (some (failingSince.getD now)) true)
    else db
  (db, .finished (.placementHeld detail))

/-- The number of tasks that hold a slot (`CONCURRENCY_CAPPED_STATUSES`). -/
def inFlight (db : Db) : Nat := db.tasks.count (fun t => t.status = .inProgress)

/-- The reads of the reservation transaction of `dispatchClaimedTask`. -/
def dispatchReservation (db : Db) (maxConcurrent : Nat) (task : Task) (command : String)
    (failingSince : Option Nat) (hostId : HostId) (cwd : String) :
    Except DispatchTaskOutcome Reservation :=
  match db.tasks.get task.id with
  | none => .error .notQueued
  | some current =>
    if current.status ≠ .claimed ∨ current.sessionId.isSome then .error .notQueued
    else if maxConcurrent ≤ inFlight db then .error (.cap maxConcurrent)
    else .ok
      { task, command
        branchName := task.branchName.getD (deriveTaskBranchName task)
        failingSince, hostId, cwd
        spell := current.spell + 1 }

/-- The reservation finds the task queued, without a session. -/
theorem dispatchReservation_ok {db : Db} {max : Nat} {task : Task} {command : String}
    {since : Option Nat} {hostId : HostId} {cwd : String} {r : Reservation}
    (h : dispatchReservation db max task command since hostId cwd = .ok r) :
    r.task = task ∧ inFlight db < max ∧ ∃ row, db.tasks.get task.id = some row ∧
      row.status = .claimed ∧ row.sessionId = none ∧ r.spell = row.spell + 1 := by
  unfold dispatchReservation at h
  split at h
  · cases h
  · rename_i row hrow
    split at h
    · cases h
    · rename_i hok
      split at h
      · cases h
      · rename_i hcap
        cases h
        rw [not_or, not_not, Bool.not_eq_true, Option.isSome_eq_false_iff] at hok
        exact ⟨rfl, by omega, row, hrow, hok.1, by simpa using hok.2, rfl⟩

/-- The patch of that transaction. -/
def dispatchReservePatch (now : Nat) (t : Task) : Task :=
  { t.setStatus .inProgress with
    claimedAt := some now
    startedAt := some now }

/-- A hold that no longer describes the task is dropped. -/
def dropHold (db : Db) (task : Task) : Db :=
  if task.dispatchHeld then
    db.updateTask task.id isClaimed (holdPatch none none false)
  else db

/-- The start of the current run of failures, once a hold is dropped. -/
def failingSinceAfterHold (task : Task) : Option Nat :=
  if task.dispatchHeld then none else task.dispatchFailingSince

/-- After the host protocols are known: the placement, and the reservation. -/
def dispatchPlace (db : Db) (now maxConcurrent : Nat) (task : Task) (project : Project)
    (command : String) : PlacementReading → Db × DispatchPc
  | .transient detail => holdClaim db now task task.dispatchFailingSince detail
  | .refused detail => refuseClaim db task detail true
  | .chosen hostId (.failed jobDetail) =>
    let detail := "could not prepare a checkout on " ++ hostId ++ ": " ++ jobDetail
    (db.updateTask task.id isClaimed
      (holdPatch (some detail) (some (task.dispatchFailingSince.getD now)) false),
      .finished (.worktreeFailed detail))
  | .chosen hostId .preparing =>
    holdClaim db now task task.dispatchFailingSince ("preparing checkout on " ++ hostId)
  | .chosen hostId .present =>
    let db := dropHold db task
    match projectCwdOnHost project hostId with
    | none =>
      refuseClaim db task ("the placement host " ++ hostId ++ " has no path for this project") false
    | some cwd =>
      match dispatchReservation db maxConcurrent task command (failingSinceAfterHold task)
          hostId cwd with
      | .error outcome => (db, .finished outcome)
      | .ok r => (db.updateTask task.id isClaimed (dispatchReservePatch now), .clearing r)

/-! ## Dispatch: holding the task -/

/-- The guard of `release` in `dispatchClaimedTask`. -/
def isReservedByDispatch (t : Task) : Bool := t.status = .inProgress && t.sessionId.isNone

/-- The patch of that `release`. -/
def dispatchReleasePatch (since : Nat) (reason : String) (t : Task) : Task :=
  { t.setStatus .claimed with
    claimedAt := none
    startedAt := none
    failureReason := some reason
    failureDiagnostics := none
    dispatchFailingSince := some since
    dispatchHeld := false
    baseSha := none
    seedDelivered := none }

/-- `release` of `dispatchClaimedTask`: the task goes back to the queue if it still
has the reservation's status and no session. -/
def dispatchRelease (db : Db) (now : Nat) (r : Reservation) (reason : String) : Db :=
  db.updateTask r.task.id isReservedByDispatch
    (dispatchReleasePatch (r.failingSince.getD now) reason)

/-- The row a spawn leaves. -/
def spawnedSession (now : Nat) (taskId projectId : Nat) (hostId : HostId) (cwd : String) :
    Session :=
  { id := 0, projectId, hostId := some hostId, cwd := some cwd,
    createdAt := storedTime now,
    spawnedFor := some taskId }

/-- The patch of a dispatch's commit (`reason` is `none`) and of its adoption of a
session whose spawn may have landed. -/
def dispatchCommitPatch (r : Reservation) (baseSha : Option String) (sessionId : Nat)
    (cwd : String) (seedDelivered : Bool) (reason : Option String) (t : Task) : Task :=
  { t with
    sessionId := some sessionId
    worktreePath := some cwd
    branchName := some r.branchName
    agentCommand := some r.command
    baseSha
    seedDelivered := some seedDelivered
    failureReason := reason
    dispatchFailingSince := none
    dispatchHeld := false }

/-- Why a task is released, or its session adopted, after a spawn whose outcome is
unknown. -/
def outcomeUnknownReason (hostId : HostId) : Option String → String
  | some detail => "session spawn outcome unknown on host " ++ hostId ++ ": " ++ detail
  | none => "session spawn outcome unknown"

/-- After `createSessionRecord`. -/
def dispatchSpawn (db : Db) (now : Nat) (r : Reservation) (baseSha : Option String) :
    SpawnAnswer → Db × DispatchPc
  | .created cwd seedDelivered =>
    let spawned := db.insertSession (spawnedSession now r.task.id r.task.projectId r.hostId cwd)
    -- guarded by the task's id alone
    (spawned.updateTask r.task.id (fun _ => true)
      (dispatchCommitPatch r baseSha db.nextSessionId cwd seedDelivered none), .liveStatus)
  | .worktreeFailed detail =>
    let reason := match detail with
      | some detail => "worktree creation failed on host " ++ r.hostId ++ ": " ++ detail
      | none => "worktree creation failed"
    (dispatchRelease db now r reason, .finished (.worktreeFailed reason))
  | .hostUnsupported detail =>
    (dispatchRelease db now r detail, .finished (.spawnFailed (some detail)))
  | .refused =>
    (dispatchRelease db now r "session spawn failed", .finished (.spawnFailed none))
  | .outcomeUnknown detail kept =>
    let reason := outcomeUnknownReason r.hostId detail
    match kept with
    | none => (dispatchRelease db now r reason, .finished (.spawnFailed (some reason)))
    | some cwd =>
      let spawned := db.insertSession (spawnedSession now r.task.id r.task.projectId r.hostId cwd)
      if spawned.taskMatches r.task.id isInProgress then
        (spawned.updateTask r.task.id isInProgress
          (dispatchCommitPatch r baseSha db.nextSessionId cwd false (some reason)),
          .finished (.spawnFailed (some reason)))
      else (spawned.killSession db.nextSessionId, .killing r reason)
  | .threw message =>
    (dispatchRelease db now r message, .finished (.spawnFailed (some message)))

/-! ## Retry -/

/-- What a retry remembers from its reservation on. -/
structure RetryReservation where
  task : Task
  project : Project
  /-- The agent's command line. -/
  command : String
  branchName : String
  /-- The spell of the task that the reservation began. -/
  spell : Nat
  deriving DecidableEq, Repr

/-- The worker's host and the project's root there. -/
structure RetryHost where
  hostId : HostId
  cwd : String
  deriving DecidableEq, Repr

/-- Where `retryTask` waits. -/
inductive RetryPc
  /-- `killSession` of the task's old session -/
  | killingOld (r : RetryReservation)
  /-- `resumeTaskWorktree` -/
  | resuming (r : RetryReservation) (host : RetryHost)
  /-- the issue context and the sessions directory of the prompt -/
  | prompt (r : RetryReservation) (host : RetryHost) (worktree : String)
  /-- `createSessionRecord` -/
  | spawning (r : RetryReservation) (host : RetryHost) (worktree : String)
  /-- `removeCheckoutIfClean` of the resumed worktree, before the release -/
  | cleaning (r : RetryReservation) (reason : String)
  /-- `killSession` of a session the task did not wait for -/
  | killing (detail : String)
  /-- `withLiveStatus`, after the commit -/
  | liveStatus
  | finished (outcome : RetryTaskOutcome)
  deriving DecidableEq, Repr

/-- The patch of `release` in `retryTask`. -/
def retryReleasePatch (reason : String) (t : Task) : Task :=
  { t.setStatus .failed with
    failureReason := some reason
    failureDiagnostics := none }

/-- The write of `release` in `retryTask`. -/
def retryRelease (db : Db) (r : RetryReservation) (reason : String) : Db :=
  db.updateTask r.task.id isClaimed (retryReleasePatch reason)

/-- After the old session is dealt with: the worker's host, and the worktree on
it. The row read at the top still names the old session. -/
def retryResume (db : Db) (r : RetryReservation) : Db × RetryPc :=
  let hostId := db.resolveTaskWorkerHost r.task
  match projectCwdOnHost r.project hostId with
  | none =>
    (retryRelease db r "the worker's host has no path for this project", .finished .worktreeFailed)
  | some cwd => (db, .resuming r { hostId, cwd })

/-- The settings the calls read; `resolveAgentCommand` stands for the choice of the
agent, which the settings and the issue decide. -/
structure Config where
  maxConcurrent : Nat
  resolveAgentCommand : Task → Project → String

/-- The reads of the reservation transaction of `retryTask`; there is no await
before it. -/
def retryReservation (cfg : Config) (db : Db) (taskId : Nat) :
    Except RetryTaskOutcome RetryReservation :=
  match db.tasks.get taskId with
  | none => .error .notFound
  | some task =>
    match db.projects.get task.projectId with
    | none => .error .notFound
    | some project =>
      if task.status ≠ .failed then .error (.notFailed task.status)
      else if task.supersededAt.isSome then .error .superseded
      else
        match task.branchName with
        | none => .error .noWorktree
        | some branchName =>
          if cfg.maxConcurrent ≤ inFlight db then .error (.cap cfg.maxConcurrent)
          else .ok
            { task, project, command := cfg.resolveAgentCommand task project, branchName,
              spell := task.spell + 1 }

/-- The reservation of a retry finds the task failed. -/
theorem retryReservation_ok {cfg : Config} {db : Db} {taskId : Nat} {r : RetryReservation}
    (h : retryReservation cfg db taskId = .ok r) :
    db.tasks.get taskId = some r.task ∧ r.task.status = .failed ∧ r.task.supersededAt = none ∧
      inFlight db < cfg.maxConcurrent ∧ r.spell = r.task.spell + 1 := by
  unfold retryReservation at h
  split at h
  · cases h
  · rename_i task htask
    split at h
    · cases h
    · split at h
      · cases h
      · rename_i hst
        split at h
        · cases h
        · rename_i hsup
          split at h
          · cases h
          · split at h
            · cases h
            · rename_i hcap
              cases h
              exact ⟨htask, not_not.1 hst, by simpa using hsup, by omega, rfl⟩

/-- The patch of that transaction. -/
def retryReservePatch (now : Nat) (t : Task) : Task :=
  { t.setStatus .claimed with
    claimedAt := some now
    failureReason := none
    failureDiagnostics := none
    dispatchFailingSince := none
    dispatchHeld := false
    completedAt := none
    sessionId := none
    prUrl := none
    prNumber := none
    archivedAt := none }

/-- `retryTask`, up to its first await. -/
def retryStart (cfg : Config) (db : Db) (now : Nat) (taskId : Nat) : Db × RetryPc :=
  match retryReservation cfg db taskId with
  | .error outcome => (db, .finished outcome)
  | .ok r =>
    let db := db.updateTask taskId (fun t => t.status = .failed) (retryReservePatch now)
    match r.task.sessionId with
    | some old => (db.killSession old, .killingOld r)
    | none => retryResume db r

/-- The patch of a retry's commit. -/
def retryCommitPatch (now : Nat) (r : RetryReservation) (sessionId : Nat) (cwd : String)
    (seedDelivered : Bool) (t : Task) : Task :=
  { t.setStatus .inProgress with
    startedAt := some now
    sessionId := some sessionId
    worktreePath := some cwd
    agentCommand := some r.command
    seedDelivered := some seedDelivered }

/-- The patch of a retry's adoption of a session whose spawn may have landed. -/
def retryAdoptPatch (now : Nat) (r : RetryReservation) (sessionId : Nat) (cwd reason : String)
    (t : Task) : Task :=
  { retryCommitPatch now r sessionId cwd false t with
    failureReason := some reason
    dispatchFailingSince := none
    completedAt := none }

/-- After `createSessionRecord`. -/
def retrySpawn (db : Db) (now : Nat) (r : RetryReservation) (host : RetryHost) :
    SpawnAnswer → Db × RetryPc
  | .created cwd seedDelivered =>
    let spawned := db.insertSession (spawnedSession now r.task.id r.task.projectId host.hostId cwd)
    -- guarded by the task's id alone
    (spawned.updateTask r.task.id (fun _ => true)
      (retryCommitPatch now r db.nextSessionId cwd seedDelivered), .liveStatus)
  | .outcomeUnknown detail (some cwd) =>
    let reason := detail.getD "session spawn outcome unknown"
    let spawned := db.insertSession (spawnedSession now r.task.id r.task.projectId host.hostId cwd)
    if spawned.taskMatches r.task.id isClaimed then
      (spawned.updateTask r.task.id isClaimed
        (retryAdoptPatch now r db.nextSessionId cwd reason), .finished (.spawnFailed reason))
    else (spawned.killSession db.nextSessionId, .killing reason)
  | .outcomeUnknown detail none =>
    (db, .cleaning r (detail.getD "session spawn outcome unknown"))
  | .worktreeFailed _ | .hostUnsupported _ | .refused => (db, .cleaning r "session spawn failed")
  | .threw message => (db, .cleaning r message)

/-! ## Resuming a call -/

/-- What an await brings. -/
inductive Answer
  /-- The awaited work is done; nothing of it is used. -/
  | settled
  /-- The awaited promise is rejected. -/
  | threw (message : String)
  | gate (gate : Gate)
  | placement (reading : PlacementReading)
  | cleared
  | notCleared (reason : String)
  /-- Whether the previous attempt's worktree was cleared is unknown. -/
  | clearUnknown (message : String)
  | baseRef (sha : Option String)
  | baseRefFailed (detail : String)
  | spawn (answer : SpawnAnswer)
  | worktree (path : String)
  | noWorktree
  /-- The host's agent has no route to resume a worktree. -/
  | notSupported
  deriving DecidableEq, Repr

/-- One segment of `dispatchClaimedTask`; `none` when it does not wait for such an
answer. -/
def dispatchResume (cfg : Config) (db : Db) (now : Nat) :
    DispatchPc → Answer → Option (Db × DispatchPc)
  | .blockers task project, .gate gate => some (dispatchBlockers db task project gate)
  | .protocols task project, .placement reading => some
    (dispatchPlace db now cfg.maxConcurrent task project (cfg.resolveAgentCommand task project)
      reading)
  | .protocols _ _, .threw _ => some (db, .finished .threw)
  | .clearing r, .cleared => some (db, .baseRef r)
  | .clearing r, .notCleared reason =>
    let detail := "a previous attempt left an unclean worktree at " ++
      deriveWorktreePath r.cwd r.branchName ++ " (" ++ reason ++ ")"
    some (dispatchRelease db now r detail, .finished (.worktreeFailed detail))
  | .clearing r, .clearUnknown message =>
    let detail := "clearing the previous attempt's worktree: " ++ message
    some (dispatchRelease db now r detail, .finished (.worktreeFailed detail))
  | .baseRef r, .baseRef sha => some (db, .prompt r sha)
  | .baseRef r, .baseRefFailed detail =>
    some (dispatchRelease db now r detail, .finished (.worktreeFailed detail))
  | .prompt r baseSha, .settled => some (db, .spawning r baseSha)
  | .spawning r baseSha, .spawn answer => some (dispatchSpawn db now r baseSha answer)
  | .killing _ reason, .settled => some (db, .finished (.spawnFailed (some reason)))
  | .liveStatus, .settled => some (db, .finished .ok)
  | .liveStatus, .threw _ => some (db, .finished .threw)
  -- the catch of the whole body, as long as nothing is committed
  | .clearing r, .threw message | .baseRef r, .threw message | .prompt r _, .threw message
  | .killing r _, .threw message =>
    some (dispatchRelease db now r message, .finished (.spawnFailed (some message)))
  | _, _ => none

/-- One segment of `retryTask`. -/
def retryResumeStep (db : Db) (now : Nat) : RetryPc → Answer → Option (Db × RetryPc)
  -- a failed kill does not stop the retry
  | .killingOld r, .settled | .killingOld r, .threw _ => some (retryResume db r)
  | .resuming r host, .worktree path => some (db, .prompt r host path)
  | .resuming r _, .noWorktree => some
    (retryRelease db r "could not resume the preserved branch", .finished .worktreeFailed)
  | .resuming r _, .notSupported => some
    (retryRelease db r
      "this host's agent build doesn't support retrying a remote-hosted task yet",
      .finished .remoteNotSupported)
  | .resuming r _, .threw message =>
    some (retryRelease db r message, .finished (.spawnFailed message))
  | .prompt r host worktree, .settled => some (db, .spawning r host worktree)
  | .prompt r _ _, .threw message => some (db, .cleaning r message)
  | .spawning r host _, .spawn answer => some (retrySpawn db now r host answer)
  -- a failed removal does not stop the release
  | .cleaning r reason, .settled | .cleaning r reason, .threw _ =>
    some (retryRelease db r reason, .finished (.spawnFailed reason))
  | .killing reason, .settled => some (db, .finished (.spawnFailed reason))
  | .killing _, .threw _ => some (db, .finished .threw)
  | .liveStatus, .settled => some (db, .finished .ok)
  | .liveStatus, .threw _ => some (db, .finished .threw)
  | _, _ => none

end Claim
end Mullion
