import Mullion.Lib.Table

/-!
# The rows the task services work on

The `projects`, `sessions` and `tasks` rows, with the columns that the modelled
services read or write, and the host a row resolves to.

* `Project`, `Session`, `Task` — the rows; a `Db` holds the three tables;
* `projectCwdOnHost`, `resolveProjectHostId`, `resolveSessionHostId`,
  `resolveTaskWorkerHost` — where a project, a session and a task's worker live;
* `killSession` — the row writes of a kill.
-/

namespace Mullion

/-- A host id. -/
abbrev HostId := String

/-- `LOCAL_HOST_ID`. -/
def localHostId : HostId := "local"

/-- The parsed `hostCwdsMeta` column. -/
structure HostCwdsMeta where
  auto : List HostId := []
  declined : List HostId := []
  managed : List HostId := []
  deriving DecidableEq, Repr

/-- A `projects` row. `hostCwds` is the parsed column; `settings` holds the nullable
settings that are set, by column. -/
structure Project where
  id : Nat
  hostId : HostId := localHostId
  cwd : String := "/"
  hostCwds : List (HostId × String) := []
  hostCwdsMeta : HostCwdsMeta := {}
  settings : List (String × String) := []
  conventionalCommitTitlesResolvedAt : Option Nat := none
  deriving DecidableEq, Repr

inductive SessionKind
  | terminal
  | dock
  deriving DecidableEq, Repr

inductive SessionStatus
  | active
  | exited
  | killed
  deriving DecidableEq, Repr

/-- What a `timestamp` column keeps of a time: whole seconds. -/
def storedTime (ms : Nat) : Nat := ms / 1000 * 1000

/-- A `sessions` row. `spawnedFor` is no column: it records the task whose worker
the session was spawned as. -/
structure Session where
  id : Nat
  projectId : Nat
  hostId : Option HostId := none
  cwd : Option String := none
  name : Option String := none
  kind : SessionKind := .terminal
  status : SessionStatus := .active
  createdAt : Nat := 0
  spawnedFor : Option Nat := none
  deriving DecidableEq, Repr

inductive TaskStatus
  | backlog
  | ready
  | claimed
  | inProgress
  | reviewing
  | done
  | failed
  deriving DecidableEq, Repr

/-- A `tasks` row. Times are milliseconds. `spell` is no column: it counts the
writes of the status, so that two equal readings of it mean that nobody wrote the
status in between. -/
structure Task where
  id : Nat
  projectId : Nat
  issueNumber : Option Nat := none
  title : String := ""
  boardOrder : Nat := 0
  status : TaskStatus := .backlog
  sessionId : Option Nat := none
  reviewSessionId : Option Nat := none
  seedDelivered : Option Bool := none
  worktreePath : Option String := none
  branchName : Option String := none
  agentCommand : Option String := none
  baseSha : Option String := none
  prUrl : Option String := none
  prNumber : Option Nat := none
  failureReason : Option String := none
  failureDiagnostics : Option String := none
  dispatchFailingSince : Option Nat := none
  dispatchHeld : Bool := false
  queuedAt : Option Nat := none
  claimedAt : Option Nat := none
  startedAt : Option Nat := none
  completedAt : Option Nat := none
  archivedAt : Option Nat := none
  supersededAt : Option Nat := none
  spell : Nat := 0
  deriving DecidableEq, Repr

/-- A write of the status column. -/
def Task.setStatus (t : Task) (status : TaskStatus) : Task :=
  { t with status, spell := t.spell + 1 }

/-- The tables, and the sequence that gives a session its id: it is ahead of every
id, so an id is never given twice. -/
structure Db where
  projects : Table Project Project.id
  sessions : Table Session Session.id
  tasks : Table Task Task.id
  nextSessionId : Nat
  fresh : ∀ id ∈ sessions.keys, id < nextSessionId

/-! ## Where a row lives -/

/-- `projectCwdOnHost`. -/
def projectCwdOnHost (project : Project) (hostId : HostId) : Option String :=
  if hostId = project.hostId then some project.cwd else project.hostCwds.lookup hostId

namespace Db

/-- `resolveProjectHostId`. -/
def resolveProjectHostId (db : Db) (projectId : Nat) : HostId :=
  match db.projects.get projectId with
  | some project => project.hostId
  | none => localHostId

/-- `resolveSessionHostId`. -/
def resolveSessionHostId (db : Db) (row : Session) : HostId :=
  match row.hostId with
  | some hostId => hostId
  | none => db.resolveProjectHostId row.projectId

/-- `resolveTaskWorkerHost`, for a caller that holds no project row. -/
def resolveTaskWorkerHost (db : Db) (task : Task) : HostId :=
  match task.sessionId.bind db.sessions.get with
  | some row => db.resolveSessionHostId row
  | none => db.resolveProjectHostId task.projectId

/-! ## Writes -/

/-- `UPDATE tasks SET … WHERE id = … AND …`. -/
def updateTask (db : Db) (id : Nat) (guard : Task → Bool) (f : Task → Task)
    (hf : ∀ t, (f t).id = t.id := by exact fun t => Eq.trans rfl (Eq.refl t.id)) : Db :=
  { db with tasks := db.tasks.updateIf id guard f hf }

/-- Whether that update finds its row (`changes > 0`). -/
def taskMatches (db : Db) (id : Nat) (guard : Task → Bool) : Bool := (db.tasks.get id).any guard

/-- `UPDATE sessions SET status = … WHERE id = … AND status = …`. -/
def setSessionStatus (db : Db) (id : Nat) (old new : SessionStatus) : Db :=
  { db with
    sessions := db.sessions.updateIf id (fun s => s.status = old) (fun s => { s with status := new })
      fun _ => rfl
    fresh := by
      rw [Table.keys_updateIf]
      exact db.fresh }

/-- `killSession`, up to its first await: a live session is marked killed before
its process is stopped, an exited one is dismissed. -/
def killSession (db : Db) (id : Nat) : Db :=
  match db.sessions.get id with
  | none => db
  | some row =>
    match row.status with
    | .active => db.setSessionStatus id .active .killed
    | .exited => db.setSessionStatus id .exited .killed
    | .killed => db

/-- `INSERT INTO sessions`: the row gets the next id of the sequence. -/
def insertSession (db : Db) (row : Session) : Db :=
  { db with
    sessions := db.sessions.insert { row with id := db.nextSessionId }
    nextSessionId := db.nextSessionId + 1
    fresh := fun id hid => by
      rcases Table.mem_keys_insert.1 hid with h | h
      · exact Nat.lt_succ_of_lt (db.fresh id h)
      · rw [h]
        exact Nat.lt_succ_self _ }

/-! ## What the writes leave alone -/

@[simp] theorem projects_updateTask (db : Db) (id : Nat) (g : Task → Bool) (f : Task → Task)
    (hf : ∀ t, (f t).id = t.id) : (db.updateTask id g f hf).projects = db.projects := rfl

@[simp] theorem sessions_updateTask (db : Db) (id : Nat) (g : Task → Bool) (f : Task → Task)
    (hf : ∀ t, (f t).id = t.id) : (db.updateTask id g f hf).sessions = db.sessions := rfl

@[simp] theorem tasks_setSessionStatus (db : Db) (id : Nat) (old new : SessionStatus) :
    (db.setSessionStatus id old new).tasks = db.tasks := rfl

@[simp] theorem tasks_killSession (db : Db) (id : Nat) : (db.killSession id).tasks = db.tasks := by
  unfold killSession
  split
  · rfl
  · split <;> rfl

@[simp] theorem tasks_insertSession (db : Db) (row : Session) :
    (db.insertSession row).tasks = db.tasks := rfl

/-- The row of the task after a guarded update. -/
theorem get_updateTask (db : Db) (id : Nat) (g : Task → Bool) (f : Task → Task)
    (hf : ∀ t, (f t).id = t.id) :
    (db.updateTask id g f hf).tasks.get id =
      (db.tasks.get id).map (fun t => if g t then f t else t) :=
  Table.get_updateIf db.tasks id g f hf

theorem taskMatches_iff {db : Db} {id : Nat} {g : Task → Bool} :
    db.taskMatches id g ↔ ∃ t, db.tasks.get id = some t ∧ g t := by
  unfold taskMatches
  cases db.tasks.get id <;> simp

theorem sameOff_updateTask (db : Db) (id : Nat) (g : Task → Bool) (f : Task → Task)
    (hf : ∀ t, (f t).id = t.id) :
    Table.SameOff id db.tasks (db.updateTask id g f hf).tasks :=
  Table.sameOff_updateIf db.tasks id g f hf

/-- The sequence gives an id that no row has. -/
theorem nextSessionId_fresh (db : Db) : db.nextSessionId ∉ db.sessions.keys :=
  fun h => Nat.lt_irrefl _ (db.fresh _ h)

theorem get_insertSession (db : Db) (row : Session) (id : Nat) :
    (db.insertSession row).sessions.get id =
      if id = db.nextSessionId then some { row with id := db.nextSessionId }
      else db.sessions.get id := by
  have hfree : Session.id { row with id := db.nextSessionId } ∉ db.sessions.keys :=
    nextSessionId_fresh db
  exact Table.get_insert hfree id

/-- A kill marks the session killed and touches no other session. -/
theorem get_killSession (db : Db) (id i : Nat) :
    (db.killSession id).sessions.get i =
      if i = id then (db.sessions.get i).map (fun s => { s with status := .killed })
      else db.sessions.get i := by
  have hset : ∀ old row, db.sessions.get id = some row → row.status = old →
      (db.setSessionStatus id old .killed).sessions.get i =
        if i = id then (db.sessions.get i).map (fun s => { s with status := .killed })
        else db.sessions.get i := by
    intro old row hrow hold
    by_cases hi : i = id
    · subst hi
      rw [if_pos rfl, setSessionStatus, Table.get_updateIf, hrow]
      simp [hold]
    · rw [if_neg hi]
      have hoff : Table.SameOff id db.sessions (db.setSessionStatus id old .killed).sessions :=
        Table.sameOff_updateIf _ _ _ _ (by intro; rfl)
      exact hoff.get i hi
  unfold killSession
  cases hrow : db.sessions.get id with
  | none =>
    by_cases hi : i = id
    · rw [if_pos hi, hi, hrow]
      rfl
    · rw [if_neg hi]
  | some row =>
    cases hs : row.status with
    | active => simpa only [hs] using hset .active row hrow hs
    | exited => simpa only [hs] using hset .exited row hrow hs
    | killed =>
      by_cases hi : i = id
      · subst hi
        simp only [hs, if_true, hrow, Option.map_some]
        rw [← hs]
      · simp only [hs, if_neg hi]

end Db

end Mullion
