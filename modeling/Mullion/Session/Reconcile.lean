import Mullion.Session.Liveness
import Mullion.Task.Writes

/-!
# Sessions whose program exited

`reconcileExitedSessions` (`session-reconciler.ts`) and `repairExited`
(`session-live-info.ts`), cut at their awaits, among everything that runs beside
them.

* `Thread` — one host's part of a pass; `ThreadPc` says where it waits;
* `walkRow`, `flipRow`, `failTasks` — `reconcileRow` from one await to the next;
* `repairStart`, `repairResume` — the repair of a row that was wrongly exited;
* `Mark` — what the log of a run records of the passes;
* `System`, `Event`, `step` — passes and repairs among the calls of the board,
  spawns, kills and listings.
-/

namespace Mullion
namespace Reconcile

open Claim (Board boardStep)

/-- `NEW_SESSION_GRACE_MS`. -/
def newSessionGraceMs : Nat := 20000

/-- What the log records. A pass is named by its thread, an exit by its number. -/
inductive Mark
  | invalidated
  /-- A listing or a request starts. -/
  | probe (k : Nat) (hostId : HostId)
  /-- A thread learns what a probe says of a session. -/
  | answered (thread sessionId k : Nat) (liveness : Liveness)
  /-- A thread moves a session from `active` to `exited`. -/
  | exited (exit thread sessionId : Nat)
  /-- A thread calls `terminate` for an exit. -/
  | terminated (exit thread : Nat)
  /-- A thread fails the tasks of an exit. -/
  | failed (exit thread : Nat)
  deriving DecidableEq, Repr

/-- What the parties share. -/
structure Shared where
  board : Board
  scopes : Scopes
  /-- `repairedSessionIds`. -/
  repaired : List (Nat × Nat)
  /-- The number of exits so far, and the log. -/
  exits : Nat
  log : List Mark

namespace Shared

def db (sh : Shared) : Db := sh.board.world.db

def now (sh : Shared) : Nat := sh.board.world.now

def setDb (sh : Shared) (db : Db) : Shared :=
  { sh with board := { sh.board with world := { sh.board.world with db } } }

def record (sh : Shared) (marks : List Mark) : Shared := { sh with log := sh.log ++ marks }

@[simp] theorem db_setDb (sh : Shared) (db : Db) : (sh.setDb db).db = db := rfl

@[simp] theorem now_setDb (sh : Shared) (db : Db) : (sh.setDb db).now = sh.now := rfl

@[simp] theorem log_setDb (sh : Shared) (db : Db) : (sh.setDb db).log = sh.log := rfl

@[simp] theorem db_record (sh : Shared) (marks : List Mark) : (sh.record marks).db = sh.db := rfl

@[simp] theorem now_record (sh : Shared) (marks : List Mark) : (sh.record marks).now = sh.now := rfl

@[simp] theorem log_record (sh : Shared) (marks : List Mark) :
    (sh.record marks).log = sh.log ++ marks := rfl

/-- `invalidateOwnedScopesCache`. -/
def invalidate (sh : Shared) : Shared :=
  { sh with scopes := sh.scopes.invalidateOwnedScopesCache }.record [.invalidated]

/-- `liveness` of a host, up to its await. -/
def ask (sh : Shared) (hostId : HostId) : Shared × Nat :=
  let (scopes, k) := sh.scopes.ask sh.now hostId
  let sh' := { sh with scopes }
  (if scopes.probes.length = sh.scopes.probes.length then sh' else sh'.record [.probe k hostId], k)

end Shared

/-! ## A pass -/

/-- The rows a thread has still to look at, and what the host said of them. -/
structure Walk where
  rows : List Session
  livenessById : List (Nat × Liveness)
  deriving DecidableEq, Repr

/-- The arguments of `removeCheckoutIfClean`. -/
structure Removal where
  projectId : Nat
  hostId : HostId
  worktreePath : String
  parentCwd : String
  deriving DecidableEq, Repr

/-- Where one host's part of a pass waits. -/
inductive ThreadPc
  /-- `liveness` of all rows -/
  | polling (rows : List Session) (k : Nat)
  /-- before the next row -/
  | walking (walk : Walk)
  /-- `liveness` of one row, once more -/
  | rechecking (row : Session) (k : Nat) (walk : Walk)
  /-- `terminate` -/
  | terminating (row : Session) (exit : Nat) (walk : Walk)
  /-- `cleanupPreviewWorktree`; `exit` is the exit that the thread has won -/
  | cleaning (row : Session) (exit : Option Nat) (walk : Walk)
  /-- `syncTaskTransition` -/
  | syncing (task : Task) (project : Project) (walk : Walk)
  /-- `removeCheckoutIfClean` -/
  | removing (removal : Removal) (walk : Walk)
  | finished
  deriving DecidableEq, Repr

/-- One host's part of a pass. -/
structure Thread where
  hostId : HostId
  pc : ThreadPc
  deriving DecidableEq, Repr

/-- `reconcileRow`, up to its first await. -/
def walkRow (sh : Shared) (hostId : HostId) (row : Session) (walk : Walk) : Shared × ThreadPc :=
  match walk.livenessById.lookup row.id with
  | some .dead =>
    if sh.now - row.createdAt < newSessionGraceMs then (sh, .walking walk)
    else
      let (sh, k) := sh.invalidate.ask hostId
      (sh, .rechecking row k walk)
  | some .alive | some .unknown | none => (sh, .walking walk)

/-- The row is moved to `exited`, and what runs up to the next await. -/
def flipRow (sh : Shared) (hostId : HostId) (me : Nat) (row : Session) (walk : Walk) :
    Shared × ThreadPc :=
  let flipped := (sh.db.sessions.get row.id).any (fun s => s.status = .active)
  let sh := sh.setDb (sh.db.setSessionStatus row.id .active .exited)
  if flipped then
    let exit := sh.exits
    let sh := { sh with exits := exit + 1 }.record [.exited exit me row.id]
    if hostId = localHostId then (sh.record [.terminated exit me], .terminating row exit walk)
    else (sh, .cleaning row (some exit) walk)
  else (sh, .cleaning row none walk)

/-- The guard of the write that fails the session's task. -/
def isTaskOf (sessionId : Nat) (t : Task) : Bool :=
  t.sessionId = some sessionId && (t.status = .claimed || t.status = .inProgress)

/-- The patch of that write. -/
def exitPatch (now : Nat) (t : Task) : Task :=
  { t.setStatus .failed with
    failureReason := some "session exited before the task reached reviewing"
    completedAt := some now }

@[simp] theorem exitPatch_id (now : Nat) (t : Task) : (exitPatch now t).id = t.id := rfl

/-- `UPDATE tasks SET … WHERE session_id = … AND status IN …`. -/
def failTasksOf (db : Db) (now sessionId : Nat) : Db :=
  { db with tasks := db.tasks.updateWhere (isTaskOf sessionId) (exitPatch now) (exitPatch_id now) }

/-- The tasks of an exit fail. The first of them is synced. -/
def failTasks (sh : Shared) (me : Nat) (row : Session) (exit : Nat) (walk : Walk) :
    Shared × ThreadPc :=
  let updatedTask := (sh.db.tasks.rows.find? (isTaskOf row.id)).map (exitPatch sh.now)
  let sh := (sh.setDb (failTasksOf sh.db sh.now row.id)).record [.failed exit me]
  match updatedTask with
  | none => (sh, .walking walk)
  | some task =>
    match sh.db.projects.get task.projectId with
    | none => (sh, .walking walk)
    | some project => (sh, .syncing task project walk)

/-- After `syncTaskTransition`: the worktree goes. -/
def removeTaskWorktree (task : Task) (project : Project) (walk : Walk) : ThreadPc :=
  match task.worktreePath with
  | none => .walking walk
  | some worktreePath =>
    .removing { projectId := project.id, hostId := project.hostId, worktreePath,
                parentCwd := project.cwd } walk

/-- One segment of a thread; `me` is its number. A row that throws is skipped. -/
def threadResume (sh : Shared) (hostId : HostId) (me : Nat) :
    ThreadPc → Answer → Option (Shared × ThreadPc)
  | .polling _ _, .threw => some (sh, .finished)
  | .polling rows k, answer =>
    (sh.scopes.answer hostId k answer).map fun liveness =>
      (sh.record (rows.map fun r => .answered me r.id k (liveness r.id)),
        .walking { rows, livenessById := rows.map fun r => (r.id, liveness r.id) })
  | .walking { rows := [], .. }, .settled => some (sh, .finished)
  | .walking { rows := row :: rows, livenessById }, .settled =>
    some (walkRow sh hostId row { rows, livenessById })
  | .rechecking _ _ walk, .threw => some (sh, .walking walk)
  | .rechecking row k walk, answer =>
    (sh.scopes.answer hostId k answer).map fun liveness =>
      let sh := sh.record [.answered me row.id k (liveness row.id)]
      if liveness row.id = .dead then flipRow sh hostId me row walk else (sh, .walking walk)
  | .terminating row exit walk, .settled => some (sh, .cleaning row (some exit) walk)
  | .cleaning row (some exit) walk, .settled => some (failTasks sh me row exit walk)
  | .cleaning _ none walk, .settled => some (sh, .walking walk)
  | .syncing task project walk, .settled => some (sh, removeTaskWorktree task project walk)
  | .removing _ walk, .settled | .removing _ walk, .threw | .terminating _ _ walk, .threw
  | .cleaning _ _ walk, .threw | .syncing _ _ walk, .threw => some (sh, .walking walk)
  | _, _ => none

/-- A thread for each host, in the order of the rows. -/
def startThreads (active : List Session) : Shared → List HostId → Shared × List Thread
  | sh, [] => (sh, [])
  | sh, hostId :: hosts =>
    let (asked, k) := sh.ask hostId
    let rows := active.filter (fun s => sh.db.resolveSessionHostId s = hostId)
    let (sh, threads) := startThreads active asked hosts
    (sh, { hostId, pc := .polling rows k } :: threads)

/-- `reconcileExitedSessions`, up to its awaits. -/
def startPass (sh : Shared) : Shared × List Thread :=
  let active := sh.db.sessions.rows.filter (fun s => s.status = .active)
  startThreads active sh (active.map sh.db.resolveSessionHostId).eraseDups

/-! ## The repair -/

/-- Where `repairExited` waits. -/
inductive RepairPc
  | probing (session : Session) (hostId : HostId) (k : Nat)
  | finished
  deriving DecidableEq, Repr

/-- `repairExited`, up to its first await; `session` is the row its caller has read. -/
def repairStart (sh : Shared) (hostId : HostId) (session : Session) (derivedExited : Bool) :
    Shared × RepairPc :=
  if derivedExited = false then (sh, .finished)
  else if session.status ≠ .exited ∨ sh.repaired.lookup session.id = some session.createdAt then
    (sh, .finished)
  else
    let (sh, k) := sh.invalidate.ask hostId
    (sh, .probing session hostId k)

/-- After the answer: only `alive` repairs. -/
def repairResume (sh : Shared) : RepairPc → Answer → Option (Shared × RepairPc)
  | .probing _ _ _, .threw => some (sh, .finished)
  | .probing session hostId k, answer =>
    (sh.scopes.answer hostId k answer).map fun liveness =>
      if liveness session.id = .alive then
        ({ sh with repaired := (session.id, session.createdAt) :: sh.repaired }.setDb
          (sh.db.setSessionStatus session.id .exited .active), .finished)
      else (sh, .finished)
  | _, _ => none

/-! ## The system -/

/-- What is shared, and the passes and repairs that were started. -/
structure System where
  shared : Shared
  threads : List Thread
  repairs : List RepairPc

/-- What can happen. -/
inductive Event
  /-- A dispatch, a retry, a sweep or a re-seed goes on, time passes, somebody writes a
  task, or somebody ends or revives a session. -/
  | board (event : Claim.Event)
  /-- `createSessionRecord` inserts its row, before the spawn. -/
  | insert (row : Session)
  /-- `createSessionRecord` takes its row back. -/
  | delete (sessionId : Nat)
  /-- A scope was started or stopped. -/
  | invalidate
  /-- Somebody else asks a host. -/
  | ask (hostId : HostId)
  | settle (k : Nat) (listing : Listing)
  | pass
  | resume (thread : Nat) (answer : Answer)
  | repair (hostId : HostId) (session : Session) (derivedExited : Bool)
  | resumeRepair (call : Nat) (answer : Answer)

/-- `DELETE FROM sessions WHERE id = …`. -/
def deleteSession (db : Db) (id : Nat) : Db :=
  { db with
    sessions := db.sessions.deleteWhere (fun s => s.id = id)
    fresh := fun k hk => db.fresh k (Table.keys_deleteWhere_subset _ _ hk) }

/-- One step. -/
def step (cfg : Claim.Config) (s : System) : Event → Option System
  | .board event =>
    (boardStep cfg s.shared.board event).map fun board =>
      { s with shared := { s.shared with board } }
  | .insert row =>
    let created := { row with status := .active, createdAt := storedTime s.shared.now }
    some { s with shared := s.shared.setDb (s.shared.db.insertSession created) }
  | .delete sessionId =>
    some { s with shared := s.shared.setDb (deleteSession s.shared.db sessionId) }
  | .invalidate => some { s with shared := s.shared.invalidate }
  | .ask hostId => some { s with shared := (s.shared.ask hostId).1 }
  | .settle k listing =>
    (s.shared.scopes.settleListing k listing).map fun scopes =>
      { s with shared := { s.shared with scopes } }
  | .pass =>
    let (shared, threads) := startPass s.shared
    some { s with shared, threads := s.threads ++ threads }
  | .resume thread answer =>
    match s.threads[thread]? with
    | none => none
    | some th =>
      (threadResume s.shared th.hostId thread th.pc answer).map fun (shared, pc) =>
        { s with shared, threads := s.threads.set thread { th with pc } }
  | .repair hostId session derivedExited =>
    let (shared, pc) := repairStart s.shared hostId session derivedExited
    some { s with shared, repairs := s.repairs ++ [pc] }
  | .resumeRepair call answer =>
    match s.repairs[call]? with
    | none => none
    | some pc =>
      (repairResume s.shared pc answer).map fun (shared, pc) =>
        { s with shared, repairs := s.repairs.set call pc }

/-- The process has just started, on any board. -/
def System.start (board : Board) : System where
  shared := { board, scopes := {}, repaired := [], exits := 0, log := [] }
  threads := []
  repairs := []

end Reconcile
end Mullion
