import Mullion.Schema

/-!
# Merging a duplicate project into its survivor

`mergeProjects` (`project-merge.ts`): one transaction that re-points the rows of the
duplicate at the survivor and deletes the duplicate.

* `Store` — the tables the merge touches, and `Store.deleteProject`, which cascades;
* `mergedHostCwds`, `liveTaskClash`, `checkMergeable` — the refusals;
* `mergeTask` — one task of the duplicate: moved, superseded by the survivor's copy,
  or in the place of the survivor's copy;
* `mergeProjects` — the transaction, and the superseded copies whose workers are
  handed to `stopSupersededWorker`.
-/

namespace Mullion
namespace Merge

/-! ## The tables -/

inductive PreviewKind
  | project
  | external
  | target
  deriving DecidableEq, Repr

/-- A `previews` row. -/
structure Preview where
  id : Nat
  kind : PreviewKind
  projectId : Option Nat
  targetId : Option String := none
  branch : String := ""
  deriving DecidableEq, Repr

/-- A `project_preview_targets` row. -/
structure PreviewTarget where
  id : String
  projectId : Nat
  deriving DecidableEq, Repr

/-- A `session_browsers` row. -/
structure SessionBrowser where
  id : Nat
  sessionId : Nat
  projectId : Nat
  deriving DecidableEq, Repr

/-- A `devices` row. -/
structure Device where
  id : Nat
  projectId : Option Nat
  deriving DecidableEq, Repr

/-- A `browser_cookies` row. -/
structure BrowserCookie where
  id : Nat
  projectId : Nat
  label : String
  deriving DecidableEq, Repr

/-- A row that only belongs to a project: `project_urls`, `project_tooling`,
`webhook_registrations`, `pending_browser_closes`. -/
structure ProjectRow where
  id : Nat
  projectId : Nat
  deriving DecidableEq, Repr

/-- The tables a merge touches. -/
structure Store where
  db : Db
  previews : Table Preview Preview.id
  projectPreviewTargets : Table PreviewTarget PreviewTarget.id
  sessionBrowsers : Table SessionBrowser SessionBrowser.id
  devices : Table Device Device.id
  projectUrls : Table ProjectRow ProjectRow.id
  browserCookies : Table BrowserCookie BrowserCookie.id
  projectTooling : Table ProjectRow ProjectRow.id
  webhookRegistrations : Table ProjectRow ProjectRow.id
  pendingBrowserCloses : Table ProjectRow ProjectRow.id

/-- `DELETE FROM projects WHERE id = …`, with everything that cascades. -/
def Store.deleteProject (st : Store) (id : Nat) : Store :=
  let gone := fun (s : Session) => decide (s.projectId = id)
  { db :=
      { st.db with
        projects := st.db.projects.deleteWhere (fun p => p.id = id)
        sessions := st.db.sessions.deleteWhere gone
        tasks := st.db.tasks.deleteWhere (fun t => t.projectId = id)
        fresh := fun k hk => st.db.fresh k (Table.keys_deleteWhere_subset _ _ hk) }
    previews := st.previews.deleteWhere (fun p => p.projectId = some id ||
      p.targetId.any (fun target =>
        st.projectPreviewTargets.rows.any (fun t => t.id = target && t.projectId = id)))
    projectPreviewTargets := st.projectPreviewTargets.deleteWhere (fun t => t.projectId = id)
    sessionBrowsers := st.sessionBrowsers.deleteWhere (fun b => b.projectId = id ||
      st.db.sessions.rows.any (fun s => s.id = b.sessionId && gone s))
    devices := st.devices.deleteWhere (fun d => d.projectId = some id)
    projectUrls := st.projectUrls.deleteWhere (fun u => u.projectId = id)
    browserCookies := st.browserCookies.deleteWhere (fun c => c.projectId = id)
    projectTooling := st.projectTooling.deleteWhere (fun t => t.projectId = id)
    webhookRegistrations := st.webhookRegistrations.deleteWhere (fun w => w.projectId = id)
    pendingBrowserCloses := st.pendingBrowserCloses.deleteWhere (fun c => c.projectId = id) }

/-! ## Refusals -/

inductive MergeRefusalCode
  | notFound
  | sameProject
  | sameHost
  | hostPathConflict
  | hostCwdsLimit
  | stackIdentityConflict
  | liveTaskConflict
  deriving DecidableEq, Repr

structure MergeRefusal where
  code : MergeRefusalCode
  message : String
  deriving DecidableEq, Repr

/-- `MAX_HOST_CWDS`. -/
def maxHostCwds : Nat := 32

/-- `Map.prototype.set`: an entry keeps its place, a new one comes last. -/
def setEntry (map : List (HostId × String)) (hostId : HostId) (cwd : String) :
    List (HostId × String) :=
  if map.any (fun e => e.1 = hostId) then
    map.map (fun e => if e.1 = hostId then (hostId, cwd) else e)
  else map ++ [(hostId, cwd)]

/-- `mergedHostCwds`: the survivor's entries win, its own host is not mapped, and the
duplicate's host is. -/
def mergedHostCwds (survivor duplicate : Project) : List (HostId × String) :=
  let merged := survivor.hostCwds.foldl (fun map e => setEntry map e.1 e.2) duplicate.hostCwds
  setEntry (merged.filter (fun e => e.1 ≠ survivor.hostId)) duplicate.hostId duplicate.cwd

/-- `LIVE_TASK_STATUSES`. -/
def isLive (t : Task) : Bool :=
  t.status = .claimed || t.status = .inProgress || t.status = .reviewing

/-- The issue numbers of a project's live tasks. -/
def liveIssues (db : Db) (projectId : Nat) : List Nat :=
  (db.tasks.rows.filter (fun t => t.projectId = projectId && isLive t)).filterMap Task.issueNumber

/-- `liveTaskClash`. -/
def liveTaskClash (db : Db) (survivorId duplicateId : Nat) : Option Nat :=
  (liveIssues db duplicateId).find? (fun n => decide (n ∈ liveIssues db survivorId))

/-- `name LIKE 'docker-stack:%'`, which folds the case of ASCII letters. -/
def isStackName (name : String) : Bool :=
  "docker-stack:".toList.isPrefixOf (name.toList.map Char.toLower)

/-- `activeStackNames`. -/
def activeStackNames (db : Db) (projectId : Nat) : List String :=
  (db.sessions.rows.filter (fun s => s.projectId = projectId && s.kind = .dock &&
    s.status = .active && s.name.any isStackName)).filterMap Session.name

/-- `checkMergeable`. -/
def checkMergeable (db : Db) (survivor duplicate : Project) : Option MergeRefusal :=
  if survivor.id = duplicate.id then
    some ⟨.sameProject, "A project cannot be merged into itself."⟩
  else if survivor.hostId = duplicate.hostId then
    some ⟨.sameHost, "Both projects live on the same host, so they are two checkouts there rather than one repo on two hosts. Merge is for a project's clone on another host."⟩
  else
    match survivor.hostCwds.lookup duplicate.hostId with
    | some path =>
      if path ≠ duplicate.cwd then
        some ⟨.hostPathConflict, "The survivor already maps this host to a different path (" ++
          path ++ "). Edit that mapping first."⟩
      else checkRest
    | none => checkRest
where
  checkRest : Option MergeRefusal :=
    if maxHostCwds < (mergedHostCwds survivor duplicate).length then
      some ⟨.hostCwdsLimit, "The merged project would map more than " ++ toString maxHostCwds ++
        " hosts."⟩
    else
      match liveTaskClash db survivor.id duplicate.id with
      | some n => some ⟨.liveTaskConflict, "Issue #" ++ toString n ++
          " has a live task in both projects. Finish or give up one first."⟩
      | none =>
        let taken := activeStackNames db survivor.id
        match (activeStackNames db duplicate.id).filter (fun n => decide (n ∈ taken)) with
        | [] => none
        | clash => some ⟨.stackIdentityConflict,
            "Both projects have an active docker stack session (" ++ ", ".intercalate clash ++
              "). Stop one first."⟩

/-! ## The survivor's row -/

/-- `FILLABLE_SETTINGS`. -/
def fillableSettings : List String :=
  ["autoApprove", "mergeOnApprove", "defaultAgent", "defaultReviewAgent", "setupRecipe",
    "maxAutoReturnRounds", "conventionalCommitTitles", "autoTagRelease", "injectAgentGuide",
    "injectProjectBriefing", "injectWorkflowConventions", "devServerUrl", "autoFetch",
    "placementConstraints", "preProvision", "gitIdentity"]

/-- The settings that the survivor leaves unset and the duplicate sets. -/
def fill (survivor duplicate : Project) : List (String × String) :=
  duplicate.settings.filter (fun e =>
    decide (e.1 ∈ fillableSettings) && (survivor.settings.lookup e.1).isNone)

/-- The survivor's row after the merge. -/
def mergedProject (survivor duplicate row : Project) : Project :=
  let filled := fill survivor duplicate
  let drop := fun (hosts : List HostId) => hosts.filter (fun h => h ≠ duplicate.hostId)
  { row with
    hostCwds := (mergedHostCwds survivor duplicate).filter
      (fun e => !(e.2.toList.all Char.isWhitespace))
    hostCwdsMeta :=
      { auto := drop survivor.hostCwdsMeta.auto
        declined := drop survivor.hostCwdsMeta.declined
        managed := drop survivor.hostCwdsMeta.managed }
    settings := row.settings ++ filled
    conventionalCommitTitlesResolvedAt :=
      if filled.any (fun e => e.1 = "conventionalCommitTitles") then
        duplicate.conventionalCommitTitlesResolvedAt
      else row.conventionalCommitTitlesResolvedAt }

@[simp] theorem mergedProject_id (survivor duplicate row : Project) :
    (mergedProject survivor duplicate row).id = row.id := rfl

@[simp] theorem mergedProject_hostId (survivor duplicate row : Project) :
    (mergedProject survivor duplicate row).hostId = row.hostId := rfl

/-! ## Tasks -/

/-- `supersededMergeReason`. -/
def supersededMergeReason (fromProjectId : Nat) : String :=
  "Merged from project #" ++ toString fromProjectId ++ ": superseded."

/-- `replacedByMergeReason`. -/
def replacedByMergeReason (taskId fromProjectId : Nat) : String :=
  "Replaced by task #" ++ toString taskId ++ " when project #" ++ toString fromProjectId ++
    " was merged."

/-- A superseded copy: off the board and off the issue, and failed unless it is done.
`copy` is the row as it was read. -/
def supersede (copy : Task) (now : Nat) (reason : String) (row : Task) : Task :=
  let row := if copy.status ≠ .done then row.setStatus .failed else row
  { row with
    issueNumber := none
    archivedAt := some (copy.archivedAt.getD now)
    supersededAt := some now
    failureReason := some (copy.failureReason.getD reason) }

@[simp] theorem supersede_id (copy : Task) (now : Nat) (reason : String) (row : Task) :
    (supersede copy now reason row).id = row.id := by
  unfold supersede
  split <;> rfl

/-- `UPDATE tasks SET project_id = …`. -/
def moveTask (toId : Nat) (row : Task) : Task := { row with projectId := toId }

@[simp] theorem moveTask_id (toId : Nat) (row : Task) : (moveTask toId row).id = row.id := rfl

/-- The row of a superseded copy of the duplicate. -/
def supersedeMoved (toId : Nat) (copy : Task) (now : Nat) (reason : String) (row : Task) : Task :=
  moveTask toId (supersede copy now reason row)

@[simp] theorem supersedeMoved_id (toId : Nat) (copy : Task) (now : Nat) (reason : String)
    (row : Task) : (supersedeMoved toId copy now reason row).id = row.id :=
  supersede_id copy now reason row

/-- The tasks while the duplicate's are walked, the moved ids, and the superseded
copies whose worker is to be stopped. -/
structure TaskMerge where
  tasks : Table Task Task.id
  movedTaskIds : List Nat
  supersededLive : List Task

/-- The copy holds a worker or a review session, and is not done. -/
def needsStop (copy : Task) : Bool :=
  (copy.sessionId.isSome || copy.reviewSessionId.isSome) && decide (copy.status ≠ .done)

/-- `noteSuperseded`. -/
def noteSuperseded (copies : List Task) (copy : Task) : List Task :=
  if needsStop copy then copies ++ [copy] else copies

/-- The survivor's task of an issue. -/
def copyOf (tasks : Table Task Task.id) (toId : Nat) : Option Nat → Option Task
  | none => none
  | some n => tasks.rows.find? (fun t => t.projectId = toId && t.issueNumber = some n)

/-- One task of the duplicate, as it was read before the walk. -/
def mergeTask (fromId toId now : Nat) (m : TaskMerge) (t : Task) : TaskMerge :=
  match copyOf m.tasks toId t.issueNumber with
  | none =>
    { m with
      tasks := m.tasks.update t.id (moveTask toId) (moveTask_id toId)
      movedTaskIds := m.movedTaskIds ++ [t.id] }
  | some clash =>
    if isLive t then
      -- the live task replaces the survivor's copy
      let tasks := m.tasks.update clash.id
        (supersede clash now (replacedByMergeReason t.id fromId)) (supersede_id clash now _)
      { tasks := tasks.update t.id (moveTask toId) (moveTask_id toId)
        movedTaskIds := m.movedTaskIds ++ [clash.id, t.id]
        supersededLive := noteSuperseded m.supersededLive clash }
    else
      -- the survivor tracks the issue, and nothing runs on this copy
      { tasks := m.tasks.update t.id
          (supersedeMoved toId t now (supersededMergeReason fromId))
          (supersedeMoved_id toId t now _)
        movedTaskIds := m.movedTaskIds ++ [t.id]
        supersededLive := noteSuperseded m.supersededLive t }

/-! ## The merge -/

structure MergeCounts where
  tasks : Nat
  liveTasks : Nat
  sessions : Nat
  runningSessions : Nat
  previews : Nat
  deriving DecidableEq, Repr

/-- `countRows`. -/
def countRows (st : Store) (projectId : Nat) : MergeCounts where
  tasks := st.db.tasks.count (fun t => t.projectId = projectId)
  liveTasks := st.db.tasks.count (fun t => t.projectId = projectId && isLive t)
  sessions := st.db.sessions.count (fun s => s.projectId = projectId)
  runningSessions := st.db.sessions.count (fun s => s.projectId = projectId && s.status = .active)
  previews := st.previews.count (fun p => p.projectId = some projectId)

/-- `MergeResult`, with the copies that go to `stopSupersededWorker` once the
transaction has committed. -/
inductive MergeResult
  | ok (counts : MergeCounts) (movedTaskIds : List Nat) (stopped : List Task)
  | refused (refusal : MergeRefusal)
  deriving DecidableEq, Repr

/-- Sessions of the duplicate without a host of their own are pinned to its host, and
all move. -/
def mergeSession (duplicate : Project) (toId : Nat) (s : Session) : Session :=
  { s with hostId := some (s.hostId.getD duplicate.hostId), projectId := toId }

@[simp] theorem mergeSession_id (duplicate : Project) (toId : Nat) (s : Session) :
    (mergeSession duplicate toId s).id = s.id := rfl

/-- `UPDATE previews SET project_id = …`. -/
def movePreview (toId : Nat) (p : Preview) : Preview := { p with projectId := some toId }

@[simp] theorem movePreview_id (toId : Nat) (p : Preview) : (movePreview toId p).id = p.id := rfl

/-- `UPDATE browser_cookies SET project_id = …`. -/
def moveCookie (toId : Nat) (c : BrowserCookie) : BrowserCookie := { c with projectId := toId }

@[simp] theorem moveCookie_id (toId : Nat) (c : BrowserCookie) : (moveCookie toId c).id = c.id := rfl

/-- The duplicate's tasks as they are read. -/
def duplicateTasks (db : Db) (duplicateId : Nat) : List Task :=
  db.tasks.rows.filter (fun t => t.projectId = duplicateId)

/-- The walk over the duplicate's tasks. -/
def mergeTasks (db : Db) (fromId toId now : Nat) : TaskMerge :=
  (duplicateTasks db fromId).foldl (mergeTask fromId toId now)
    { tasks := db.tasks, movedTaskIds := [], supersededLive := [] }

/-- The rows of the duplicate, re-pointed at the survivor. -/
def repointRows (st : Store) (survivor duplicate : Project) (now : Nat) : Store :=
  let src := duplicate.id
  let toId := survivor.id
  let branches := (st.previews.rows.filter (fun p => p.projectId = some toId &&
    p.kind = .project)).map Preview.branch
  let labels := (st.browserCookies.rows.filter (fun c => c.projectId = toId)).map BrowserCookie.label
  { db :=
      { projects := st.db.projects.update toId (mergedProject survivor duplicate)
          (mergedProject_id survivor duplicate)
        sessions := st.db.sessions.updateWhere (fun s => s.projectId = src)
          (mergeSession duplicate toId) (mergeSession_id duplicate toId)
        tasks := (mergeTasks st.db src toId now).tasks
        nextSessionId := st.db.nextSessionId
        fresh := fun id hid => st.db.fresh id (Table.keys_updateWhere .. ▸ hid) }
    sessionBrowsers := st.sessionBrowsers.updateWhere (fun b => b.projectId = src)
      (fun b => { b with projectId := toId }) fun _ => rfl
    devices := st.devices.updateWhere (fun d => d.projectId = some src)
      (fun d => { d with projectId := some toId }) fun _ => rfl
    projectUrls := st.projectUrls.updateWhere (fun u => u.projectId = src)
      (fun u => { u with projectId := toId }) fun _ => rfl
    projectPreviewTargets := st.projectPreviewTargets.updateWhere (fun t => t.projectId = src)
      (fun t => { t with projectId := toId }) fun _ => rfl
    -- the survivor's row of a branch wins
    previews := (st.previews.deleteWhere (fun p => p.projectId = some src &&
        p.kind = .project && decide (p.branch ∈ branches))).updateWhere
      (fun p => p.projectId = some src) (movePreview toId) (movePreview_id toId)
    -- the survivor's row of a label wins
    browserCookies := (st.browserCookies.deleteWhere (fun c => c.projectId = src &&
        decide (c.label ∈ labels))).updateWhere
      (fun c => c.projectId = src) (moveCookie toId) (moveCookie_id toId)
    projectTooling := moveOrDrop st.projectTooling src toId
    webhookRegistrations := moveOrDrop st.webhookRegistrations src toId
    pendingBrowserCloses := st.pendingBrowserCloses }
where
  /-- One row for a project: the survivor's stays, or the duplicate's moves. -/
  moveOrDrop (t : Table ProjectRow ProjectRow.id) (src toId : Nat) : Table ProjectRow ProjectRow.id :=
    if t.rows.any (fun r => r.projectId = toId) then t.deleteWhere (fun r => r.projectId = src)
    else t.updateWhere (fun r => r.projectId = src) (fun r => { r with projectId := toId })
      fun _ => rfl

/-- `mergeProjects`. -/
def mergeProjects (st : Store) (survivorId duplicateId now : Nat) : Store × MergeResult :=
  match st.db.projects.get survivorId, st.db.projects.get duplicateId with
  | some survivor, some duplicate =>
    match checkMergeable st.db survivor duplicate with
    | some refusal => (st, .refused refusal)
    | none =>
      let merged := mergeTasks st.db duplicate.id survivor.id now
      ((repointRows st survivor duplicate now).deleteProject duplicate.id,
        .ok (countRows st duplicate.id) merged.movedTaskIds merged.supersededLive)
  | _, _ => (st, .refused ⟨.notFound, "Project not found."⟩)

end Merge
end Mullion
