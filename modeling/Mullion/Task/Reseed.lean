import Mullion.Task.Dispatch

/-!
# Re-seeding a task, and everybody else

`reseedTaskIfSessionExited` (`task-reseed.ts`), cut at its awaits like the calls
it runs beside, and the other writers of a task's row: whatever a route, a
reconciler, a sync or a merge writes there, it writes in one transaction.

* `ReseedPc`, `reseedStart`, `reseedResume` — the re-seed;
* `Board`, `Event`, `boardStep` — dispatches, retries, sweeps and re-seeds among
  all other writers.
-/

namespace Mullion
namespace Claim

/-- Where `reseedTaskIfSessionExited` waits; `spell` is the spell of the task when
the call began. -/
inductive ReseedPc
  /-- `terminate` of the session that is still alive -/
  | terminating (task : Task) (sessionId : Nat) (spell : Option Nat)
  /-- `createSessionRecord` on the worker's host -/
  | spawning (task : Task) (hostId : HostId) (spell : Option Nat)
  /-- `killSession` of a session the task did not wait for -/
  | killing
  | finished (reseeded : Bool)
  deriving DecidableEq, Repr

/-- The patch of a re-seed. -/
def reseedPatch (sessionId : Nat) (seedDelivered : Bool) (t : Task) : Task :=
  { t with
    sessionId := some sessionId
    seedDelivered := some seedDelivered }

/-- After `createSessionRecord` in `reseedTaskIfSessionExited`. -/
def reseedSpawn (db : Db) (now : Nat) (task : Task) (hostId : HostId) :
    SpawnAnswer → Db × ReseedPc
  | .created cwd seedDelivered =>
    let spawned := db.insertSession (spawnedSession now task.id task.projectId hostId cwd)
    (spawned.updateTask task.id isInProgress (reseedPatch db.nextSessionId seedDelivered),
      .finished (spawned.taskMatches task.id isInProgress))
  | .outcomeUnknown _ (some cwd) =>
    let spawned := db.insertSession (spawnedSession now task.id task.projectId hostId cwd)
    if spawned.taskMatches task.id isInProgress then
      (spawned.updateTask task.id isInProgress (reseedPatch db.nextSessionId false),
        .finished true)
    else (spawned.killSession db.nextSessionId, .killing)
  | .outcomeUnknown _ none | .worktreeFailed _ | .hostUnsupported _ | .refused | .threw _ =>
    (db, .finished false)

/-- `reseedTaskIfSessionExited`, up to its first await. -/
def reseedStart (db : Db) (task : Task) (force : Bool) : Db × ReseedPc :=
  match task.sessionId, task.worktreePath, task.agentCommand with
  | some sessionId, some _, some _ =>
    let spell := (db.tasks.get task.id).map Task.spell
    match db.sessions.get sessionId with
    | some session =>
      if session.status = .active then
        if force then
          (db.setSessionStatus sessionId .active .killed, .terminating task sessionId spell)
        else (db, .finished false)
      else (db, .spawning task (db.resolveTaskWorkerHost task) spell)
    | none => (db, .spawning task (db.resolveTaskWorkerHost task) spell)
  | _, _, _ => (db, .finished false)

/-- One segment of `reseedTaskIfSessionExited`. -/
def reseedResume (db : Db) (now : Nat) : ReseedPc → Answer → Option (Db × ReseedPc)
  | .terminating task _ spell, .settled =>
    some (db, .spawning task (db.resolveTaskWorkerHost task) spell)
  | .terminating _ sessionId _, .threw _ =>
    some (db.setSessionStatus sessionId .killed .active, .finished false)
  | .spawning task hostId _, .spawn answer => some (reseedSpawn db now task hostId answer)
  | .killing, .settled | .killing, .threw _ => some (db, .finished false)
  | _, _ => none

/-! ## The board -/

/-- The calls of `World`, and the re-seeds. -/
structure Board where
  world : World
  reseeds : List ReseedPc

/-- What can happen to the board. -/
inductive Event
  | call (label : Label)
  | reseed (task : Task) (force : Bool)
  | resumeReseed (call : Nat) (answer : Answer)
  /-- Another writer of the task's status writes the row; the columns it leaves
  alone are read back into `row`. It names no session that does not exist yet. -/
  | write (taskId : Nat) (row : Task)
  /-- Somebody ends or revives a session. -/
  | session (sessionId : Nat) (old new : SessionStatus)

/-- A write of another writer: any columns, but it is a write of the status. -/
def writePatch (row : Task) (t : Task) : Task := { row with id := t.id, spell := t.spell + 1 }

/-- One step of the board. -/
def boardStep (cfg : Config) (b : Board) : Event → Option Board
  | .call label => (step cfg b.world label).map fun world => { b with world }
  | .reseed task force =>
    let (db, pc) := reseedStart b.world.db task force
    some { world := { b.world with db }, reseeds := b.reseeds ++ [pc] }
  | .resumeReseed call answer =>
    match b.reseeds[call]? with
    | none => none
    | some pc =>
      match reseedResume b.world.db b.world.now pc answer with
      | none => none
      | some (db, pc) => some
        { world := { b.world with db }, reseeds := b.reseeds.set call pc }
  | .write taskId row =>
    if row.sessionId.all (· < b.world.db.nextSessionId) then
      let db := b.world.db.updateTask taskId (fun _ => true) (writePatch row)
      some { b with world := { b.world with db } }
    else none
  | .session sessionId old new =>
    let db := b.world.db.setSessionStatus sessionId old new
    some { b with world := { b.world with db } }

end Claim
end Mullion
