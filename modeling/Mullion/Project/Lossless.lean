import Mullion.Project.Walk

/-!
# A merge loses nothing, except a host

`mergeProjects` moves everything of a duplicate project to the survivor in one transaction, and
where the unique indexes leave no room for two rows it drops the worse one. `Lossless` is what such
a merge should leave: every row under the survivor, live tasks and tracked issues as they were, the
superseded workers handed over, and every session and worktree on its host.

A merge that the checks let through is one update of each table (`mergeProjects_ok`). What becomes
of a row is then read off the update (`get_task_merged`, `get_session_merged`), and the indexes hold
because of two tasks with one key one is dropped (`uniqueOn_moveOrDrop`, `mergedRow_unique`). A
project's host is what a task without a session row falls back on, and that changes with the
project. So all is kept but the host of such a task's worktree, and `merge_lossless_iff` has the
merge refused, or lossless exactly when every task of the duplicate that has a worktree names a
session row. `merge_moves_worktree` is one that does not.
-/

namespace Mullion
namespace Merge

/-! ## The indexes -/

/-- `previews_project_id_branch_unique`. -/
def branchKey (p : Preview) : Option (Nat × String) :=
  if p.kind = .project then p.projectId.map fun id => (id, p.branch) else none

theorem branchKey_eq_some {p : Preview} {id : Nat} {branch : String} :
    branchKey p = some (id, branch) ↔
      p.kind = .project ∧ p.projectId = some id ∧ p.branch = branch := by
  unfold branchKey
  split
  · rename_i hkind
    simp [hkind]
  · rename_i hkind
    simp [hkind]

/-- `browser_cookies_project_id_label_unique`. -/
def labelKey (c : BrowserCookie) : Option (Nat × String) := some (c.projectId, c.label)

/-- `project_tooling_project_id_unique`, `webhook_registrations_project_id_unique`. -/
def projectKey (r : ProjectRow) : Option Nat := some r.projectId

/-- The unique indexes on rows of a project. -/
structure UniqueKeys (st : Store) : Prop where
  issues : st.db.tasks.UniqueOn issueKey
  branches : st.previews.UniqueOn branchKey
  labels : st.browserCookies.UniqueOn labelKey
  tooling : st.projectTooling.UniqueOn projectKey
  webhooks : st.webhookRegistrations.UniqueOn projectKey

/-- A task or session of one of the two projects. -/
def OfEither (survivorId duplicateId projectId : Nat) : Prop :=
  projectId = survivorId ∨ projectId = duplicateId

/-- The task has lost its issue or is newly marked: the merge superseded it. -/
def Superseded (a a' : Task) : Prop :=
  a'.supersededAt ≠ a.supersededAt ∨ (a.issueNumber ≠ none ∧ a'.issueNumber = none)

/-- What a merge that succeeds should leave. -/
structure Lossless (st st' : Store) (survivorId duplicateId : Nat) (stopped : List Task) :
    Prop where
  gone : st'.db.projects.get duplicateId = none
  tasks : ∀ a ∈ st.db.tasks.rows, OfEither survivorId duplicateId a.projectId →
    ∃ a', st'.db.tasks.get a.id = some a' ∧ a'.projectId = survivorId
  sessions : ∀ s ∈ st.db.sessions.rows, OfEither survivorId duplicateId s.projectId →
    ∃ s', st'.db.sessions.get s.id = some s' ∧ s'.projectId = survivorId
  keys : UniqueKeys st'
  live : ∀ a ∈ st.db.tasks.rows, OfEither survivorId duplicateId a.projectId → isLive a = true →
    ∃ a', st'.db.tasks.get a.id = some a' ∧ a'.status = a.status ∧
      a'.supersededAt = a.supersededAt
  issues : ∀ a ∈ st.db.tasks.rows, OfEither survivorId duplicateId a.projectId →
    a.issueNumber ≠ none → ∃ b ∈ st'.db.tasks.rows,
      b.projectId = survivorId ∧ b.issueNumber = a.issueNumber ∧
      (∀ c ∈ st'.db.tasks.rows, c.projectId = survivorId → c.issueNumber = a.issueNumber → c = b) ∧
      (∀ c ∈ st.db.tasks.rows, OfEither survivorId duplicateId c.projectId →
        c.issueNumber = a.issueNumber → isLive c = true → c.id = b.id)
  stopped : ∀ a ∈ st.db.tasks.rows, OfEither survivorId duplicateId a.projectId →
    (∃ a', st'.db.tasks.get a.id = some a' ∧ Superseded a a') → needsStop a = true → a ∈ stopped
  sessionHosts : ∀ s ∈ st.db.sessions.rows, ∃ s', st'.db.sessions.get s.id = some s' ∧
    st'.db.resolveSessionHostId s' = st.db.resolveSessionHostId s
  taskHosts : ∀ a ∈ st.db.tasks.rows, a.worktreePath ≠ none →
    ∃ a', st'.db.tasks.get a.id = some a' ∧
      st'.db.resolveTaskWorkerHost a' = st.db.resolveTaskWorkerHost a

/-! ## The tasks -/

/-- No issue is live in both projects. -/
theorem not_live_both {db : Db} {toId fromId : Nat} (h : liveTaskClash db toId fromId = none)
    {a b : Task} (ha : a ∈ db.tasks.rows) (hb : b ∈ db.tasks.rows) (hap : a.projectId = fromId)
    (hbp : b.projectId = toId) (hal : isLive a = true) (hbl : isLive b = true)
    (hn : a.issueNumber ≠ none) : a.issueNumber ≠ b.issueNumber := by
  intro heq
  obtain ⟨n, hn⟩ := Option.ne_none_iff_exists'.1 hn
  have hmem : ∀ c ∈ db.tasks.rows, ∀ p, c.projectId = p → isLive c = true →
      c.issueNumber = some n → n ∈ liveIssues db p := by
    intro c hc p hp hl hi
    simp only [liveIssues, List.mem_filterMap, List.mem_filter]
    exact ⟨c, ⟨hc, by simp [hp, hl]⟩, hi⟩
  have hfind := List.find?_eq_none.1 h n (hmem a ha _ hap hal hn)
  exact hfind (by simpa using hmem b hb _ hbp hbl (heq ▸ hn))

section Tasks

variable {db : Db} {fromId toId now : Nat}

/-- A live task is never superseded. -/
theorem Outcome.live {a a' : Task} (h : Outcome db fromId toId now a a')
    (hclash : liveTaskClash db toId fromId = none) (ha : a ∈ db.tasks.rows)
    (hlive : isLive a = true) :
    a'.status = a.status ∧ a'.supersededAt = a.supersededAt ∧ a'.issueNumber = a.issueNumber := by
  cases h with
  | moved => exact ⟨rfl, rfl, rfl⟩
  | superseded c hp hdead =>
    rw [hdead] at hlive
    cases hlive
  | replaced t hp ht htp htl hn hi =>
    exact absurd hi (not_live_both hclash ht ha htp hp htl hlive hn)
  | stays => exact ⟨rfl, rfl, rfl⟩
  | other => exact ⟨rfl, rfl, rfl⟩

/-- Two rows that share an issue after the merge are one. -/
theorem mergedRow_unique (hne : fromId ≠ toId) (hunique : db.tasks.UniqueOn issueKey) {a b : Task}
    (ha : a ∈ db.tasks.rows) (hb : b ∈ db.tasks.rows)
    (hkey : issueKey (mergedRow db fromId toId now a) = issueKey (mergedRow db fromId toId now b))
    (hsome : issueKey (mergedRow db fromId toId now a) ≠ none) : a = b := by
  have hoa := outcome fromId toId now ha
  have hob := outcome fromId toId now hb
  have hna : (mergedRow db fromId toId now a).issueNumber ≠ none := by
    intro hn
    exact hsome (by simp [issueKey, hn])
  have hnb : (mergedRow db fromId toId now b).issueNumber ≠ none := by
    intro hn
    rw [hkey] at hsome
    exact hsome (by simp [issueKey, hn])
  obtain ⟨-, -, hia⟩ := hoa.of_issue hna
  obtain ⟨-, -, hib⟩ := hob.of_issue hnb
  obtain ⟨n, hn⟩ := Option.ne_none_iff_exists'.1 hna
  obtain ⟨m, hm⟩ := Option.ne_none_iff_exists'.1 hnb
  simp only [issueKey, hn, hm, Option.map_some, Option.some.injEq, Prod.mk.injEq] at hkey
  obtain ⟨hproj, rfl⟩ := hkey
  rw [hoa.project, hob.project] at hproj
  rw [hn] at hia
  rw [hm] at hib
  -- a task that the duplicate brings finds no copy that keeps the issue
  have hcross : ∀ a b : Task, a ∈ db.tasks.rows → b ∈ db.tasks.rows → a.projectId = fromId →
      b.projectId = toId → some n = a.issueNumber → some n = b.issueNumber →
      (mergedRow db fromId toId now a).issueNumber ≠ none →
      (mergedRow db fromId toId now b).issueNumber ≠ none → False := by
    intro a b ha hb hap hbp hia hib hna hnb
    have hlive : isLive a = true := by
      have hoa := outcome fromId toId now ha
      generalize mergedRow db fromId toId now a = a' at hoa hna
      cases hoa with
      | moved hp hclash =>
        rcases hclash with hlive | hnone
        · exact hlive
        · obtain ⟨c, hc⟩ := copyOf_of_mem hb hbp (by rw [← hib]; simp)
          rw [← hib, hia, hnone] at hc
          cases hc
      | superseded c => exact absurd (issueNumber_supersedeMoved a now _ a) hna
      | replaced t hp => exact absurd (hap.symm.trans hp) hne
      | stays hp => exact absurd (hap.symm.trans hp) hne
      | other hp => exact absurd hap hp
    have hob := outcome fromId toId now hb
    generalize mergedRow db fromId toId now b = b' at hob hnb
    cases hob with
    | moved hp => exact hne (hp.symm.trans hbp)
    | superseded c hp => exact hne (hp.symm.trans hbp)
    | replaced t => exact absurd (issueNumber_supersede b now _ b) hnb
    | stays hp hfree => exact hfree a ha hap hlive (by rw [← hia]; simp) (hia.symm.trans hib)
    | other hp hp' => exact hp' hbp
  have hsame : a.projectId = b.projectId → a = b := by
    intro hp
    refine hunique a ha b hb ?_ (by simp [issueKey, ← hia])
    simp only [issueKey, ← hia, ← hib, hp]
  by_cases hap : a.projectId = fromId
  · by_cases hbp : b.projectId = fromId
    · exact hsame (hap.trans hbp.symm)
    · rw [if_pos hap, if_neg hbp] at hproj
      exact (hcross a b ha hb hap hproj.symm hia hib hna hnb).elim
  · by_cases hbp : b.projectId = fromId
    · rw [if_neg hap, if_pos hbp] at hproj
      exact (hcross b a hb ha hbp hproj hib hia hnb hna).elim
    · rw [if_neg hap, if_neg hbp] at hproj
      exact hsame hproj

/-- An issue that was tracked is tracked. -/
theorem tracked (now : Nat) (hne : fromId ≠ toId) (hunique : db.tasks.UniqueOn issueKey) {a : Task}
    (ha : a ∈ db.tasks.rows) (hp : OfEither toId fromId a.projectId) :
    ∃ b ∈ db.tasks.rows, (mergedRow db fromId toId now b).projectId = toId ∧
      (mergedRow db fromId toId now b).issueNumber = a.issueNumber := by
  have hof : ∀ b ∈ db.tasks.rows, OfEither toId fromId b.projectId →
      (mergedRow db fromId toId now b).projectId = toId := by
    intro b hb hbp
    rw [(outcome fromId toId now hb).project]
    split
    · rfl
    · exact hbp.resolve_right ‹_›
  by_cases hkeeps : (mergedRow db fromId toId now a).issueNumber = a.issueNumber
  · exact ⟨a, ha, hof a ha hp, hkeeps⟩
  · -- the other copy of the issue has it
    have hoa := outcome fromId toId now ha
    generalize mergedRow db fromId toId now a = a' at hoa hkeeps
    cases hoa with
    | moved => exact absurd rfl hkeeps
    | superseded c hap hdead hc =>
      obtain ⟨hmem, hcp, hci, -⟩ := copyOf_some hc
      refine ⟨c, hmem, hof c hmem (Or.inl hcp), ?_⟩
      have hoc := outcome fromId toId now hmem
      generalize mergedRow db fromId toId now c = c' at hoc
      cases hoc with
      | moved hp' => exact absurd (hp'.symm.trans hcp) hne
      | superseded _ hp' => exact absurd (hp'.symm.trans hcp) hne
      | replaced t _ ht htp htl htn hti =>
        -- the live task would be `a`
        have hat : t = a := by
          refine hunique t ht a ha ?_ (by simp [issueKey, htn])
          simp only [issueKey, hti, hci, htp, hap]
        rw [hat, hdead] at htl
        cases htl
      | stays => exact hci
      | other _ hp' => exact absurd hcp hp'
    | replaced t hap ht htp htl htn hti =>
      refine ⟨t, ht, hof t ht (Or.inr htp), ?_⟩
      have hot := outcome fromId toId now ht
      generalize mergedRow db fromId toId now t = t' at hot
      cases hot with
      | moved => exact hti
      | superseded _ _ hdead =>
        rw [hdead] at htl
        cases htl
      | replaced _ hp' => exact absurd (htp.symm.trans hp') hne
      | stays hp' => exact absurd (htp.symm.trans hp') hne
      | other hp' => exact absurd htp hp'
    | stays => exact absurd rfl hkeeps
    | other => exact absurd rfl hkeeps

end Tasks

/-! ## The store after the merge -/

/-- What the checks exclude. -/
theorem checkMergeable_none {db : Db} {survivor duplicate : Project}
    (h : checkMergeable db survivor duplicate = none) :
    survivor.id ≠ duplicate.id ∧ survivor.hostId ≠ duplicate.hostId ∧
      liveTaskClash db survivor.id duplicate.id = none := by
  unfold checkMergeable at h
  split at h
  · cases h
  · rename_i hid
    split at h
    · cases h
    · rename_i hhost
      have hrest : checkMergeable.checkRest db survivor duplicate = none := by
        split at h
        · split at h
          · cases h
          · exact h
        · exact h
      unfold checkMergeable.checkRest at hrest
      split at hrest
      · cases hrest
      · split at hrest
        · cases hrest
        · rename_i hclash
          exact ⟨hid, hhost, hclash⟩

section Store

variable {st : Store} {survivor duplicate : Project} {now : Nat}

/-- The store after a merge that is not refused. -/
def mergedStore (st : Store) (survivor duplicate : Project) (now : Nat) : Store :=
  (repointRows st survivor duplicate now).deleteProject duplicate.id

/-- The row of a session after the merge. -/
def mergedSession (survivor duplicate : Project) (s : Session) : Session :=
  if s.projectId = duplicate.id then mergeSession duplicate survivor.id s else s

theorem rows_tasks_merged (hne : duplicate.id ≠ survivor.id) (hkeys : UniqueKeys st) :
    (mergedStore st survivor duplicate now).db.tasks.rows =
      st.db.tasks.rows.map (mergedRow st.db duplicate.id survivor.id now) := by
  have hwalk := (walk_spec now hne hkeys.issues).1
  have hnone : ∀ a ∈ (mergeTasks st.db duplicate.id survivor.id now).tasks.rows,
      decide (a.projectId = duplicate.id) = false := by
    intro a' ha'
    rw [hwalk] at ha'
    obtain ⟨a, ha, rfl⟩ := List.mem_map.1 ha'
    have hp := (outcome duplicate.id survivor.id now ha).project
    unfold mergedRow at hp
    rw [hp]
    split
    · simp [Ne.symm hne]
    · simpa
  have hrows : (mergedStore st survivor duplicate now).db.tasks =
      (mergeTasks st.db duplicate.id survivor.id now).tasks.deleteWhere
        (fun t => t.projectId = duplicate.id) := rfl
  rw [hrows, Table.deleteWhere_eq_self hnone, hwalk]
  rfl

theorem rows_sessions_merged (hne : duplicate.id ≠ survivor.id) :
    (mergedStore st survivor duplicate now).db.sessions.rows =
      st.db.sessions.rows.map (mergedSession survivor duplicate) := by
  have hrows : (mergedStore st survivor duplicate now).db.sessions =
      (st.db.sessions.updateWhere (fun s => s.projectId = duplicate.id)
        (mergeSession duplicate survivor.id) (mergeSession_id duplicate survivor.id)).deleteWhere
          (fun s => s.projectId = duplicate.id) := rfl
  have hmap : (st.db.sessions.updateWhere (fun s => s.projectId = duplicate.id)
      (mergeSession duplicate survivor.id) (mergeSession_id duplicate survivor.id)).rows =
        st.db.sessions.rows.map (mergedSession survivor duplicate) := by
    refine List.map_congr_left fun s _ => ?_
    simp only [decide_eq_true_eq]
    rfl
  rw [hrows, Table.deleteWhere_eq_self, hmap]
  intro s' hs'
  rw [hmap] at hs'
  obtain ⟨s, -, rfl⟩ := List.mem_map.1 hs'
  unfold mergedSession
  split
  · simp [mergeSession, Ne.symm hne]
  · simpa

theorem get_task_merged (hne : duplicate.id ≠ survivor.id) (hkeys : UniqueKeys st) {a : Task}
    (ha : a ∈ st.db.tasks.rows) :
    (mergedStore st survivor duplicate now).db.tasks.get a.id =
      some (mergedRow st.db duplicate.id survivor.id now a) := by
  have hmem : mergedRow st.db duplicate.id survivor.id now a ∈
      (mergedStore st survivor duplicate now).db.tasks.rows := by
    rw [rows_tasks_merged hne hkeys]
    exact List.mem_map_of_mem ha
  have hget := Table.get_of_mem hmem
  rwa [show (mergedRow st.db duplicate.id survivor.id now a).id = a.id from merged_id _ a] at hget

theorem mergedSession_id (s : Session) : (mergedSession survivor duplicate s).id = s.id := by
  unfold mergedSession
  split <;> rfl

theorem get_session_merged (hne : duplicate.id ≠ survivor.id) {s : Session}
    (hs : s ∈ st.db.sessions.rows) :
    (mergedStore st survivor duplicate now).db.sessions.get s.id =
      some (mergedSession survivor duplicate s) := by
  have hmem : mergedSession survivor duplicate s ∈
      (mergedStore st survivor duplicate now).db.sessions.rows := by
    rw [rows_sessions_merged hne]
    exact List.mem_map_of_mem hs
  have hget := Table.get_of_mem hmem
  rwa [mergedSession_id] at hget

theorem get_project_merged (id : Nat) :
    (mergedStore st survivor duplicate now).db.projects.get id =
      if id = duplicate.id then none
      else if id = survivor.id then
        (st.db.projects.get id).map (mergedProject survivor duplicate)
      else st.db.projects.get id := by
  have hprojects : (mergedStore st survivor duplicate now).db.projects =
      (st.db.projects.update survivor.id (mergedProject survivor duplicate)
        (mergedProject_id survivor duplicate)).deleteWhere (fun p => p.id = duplicate.id) := rfl
  rw [hprojects, Table.get_deleteWhere, Table.get_update]
  cases hq : st.db.projects.get id with
  | none => simp
  | some q =>
    have hid : q.id = id := Table.get_key hq
    by_cases hd : id = duplicate.id
    · split <;> simp [Option.filter, hid, hd]
    · by_cases hs : id = survivor.id
      · simp [Option.filter, hid, hs]
      · simp [Option.filter, hid, hd, hs]

/-- Every project but the duplicate stays on its host. -/
theorem resolveProjectHostId_merged {id : Nat} (h : id ≠ duplicate.id) :
    (mergedStore st survivor duplicate now).db.resolveProjectHostId id =
      st.db.resolveProjectHostId id := by
  unfold Db.resolveProjectHostId
  rw [get_project_merged, if_neg h]
  by_cases hs : id = survivor.id
  · rw [if_pos hs]
    cases st.db.projects.get id <;> rfl
  · rw [if_neg hs]

/-- **Every session stays on its host**: the duplicate's sessions are pinned to its
host. -/
theorem resolveSessionHostId_merged (hd : st.db.projects.get duplicate.id = some duplicate)
    (s : Session) :
    (mergedStore st survivor duplicate now).db.resolveSessionHostId
        (mergedSession survivor duplicate s) = st.db.resolveSessionHostId s := by
  unfold mergedSession
  split
  · rename_i hp
    unfold Db.resolveSessionHostId mergeSession
    cases hh : s.hostId with
    | some hostId => rfl
    | none => simp [Db.resolveProjectHostId, hp, hd]
  · rename_i hp
    unfold Db.resolveSessionHostId
    cases hh : s.hostId with
    | some hostId => rfl
    | none => exact resolveProjectHostId_merged hp

/-- **A task without a session row goes to the survivor's host.** -/
theorem resolveTaskWorkerHost_merged (hne : duplicate.id ≠ survivor.id)
    (hs : st.db.projects.get survivor.id = some survivor)
    (hd : st.db.projects.get duplicate.id = some duplicate) (hhost : survivor.hostId ≠ duplicate.hostId)
    {a : Task} (ha : a ∈ st.db.tasks.rows) :
    (mergedStore st survivor duplicate now).db.resolveTaskWorkerHost
        (mergedRow st.db duplicate.id survivor.id now a) = st.db.resolveTaskWorkerHost a ↔
      (a.projectId = duplicate.id → a.sessionId.bind st.db.sessions.get ≠ none) := by
  have hout := outcome duplicate.id survivor.id now ha
  have hproj := hout.project
  obtain ⟨-, hsession, -⟩ := hout.frame
  generalize mergedRow st.db duplicate.id survivor.id now a = a' at hproj hsession
  unfold Db.resolveTaskWorkerHost
  rw [hsession]
  cases hrow : a.sessionId.bind st.db.sessions.get with
  | some row =>
    obtain ⟨x, hx, hget⟩ := Option.bind_eq_some_iff.1 hrow
    have hmem := Table.get_mem hget
    have hrow' : a.sessionId.bind (mergedStore st survivor duplicate now).db.sessions.get =
        some (mergedSession survivor duplicate row) := by
      rw [hx, Option.bind_some, ← Table.get_key hget]
      exact get_session_merged hne hmem
    simp only [hrow', resolveSessionHostId_merged hd row, ne_eq, reduceCtorEq, not_false_eq_true,
      implies_true]
  | none =>
    have hrow' : a.sessionId.bind (mergedStore st survivor duplicate now).db.sessions.get = none := by
      rw [Option.bind_eq_none_iff] at hrow ⊢
      intro x hx
      rw [Table.get_eq_none_iff]
      have hkeys : (mergedStore st survivor duplicate now).db.sessions.keys = st.db.sessions.keys := by
        unfold Table.keys
        rw [rows_sessions_merged hne, List.map_map]
        exact List.map_congr_left fun s _ => mergedSession_id s
      rw [hkeys]
      exact Table.get_eq_none_iff.1 (hrow x hx)
    simp only [hrow', ne_eq, not_true_eq_false, imp_false]
    by_cases hp : a.projectId = duplicate.id
    · rw [hproj, if_pos hp, resolveProjectHostId_merged (Ne.symm hne), hp]
      simp [Db.resolveProjectHostId, hs, hd, hhost]
    · rw [hproj, if_neg hp, resolveProjectHostId_merged hp]
      simp [hp]

/-! ## The indexes after the merge -/

theorem uniqueOn_moveOrDrop {t : Table ProjectRow ProjectRow.id} (h : t.UniqueOn projectKey)
    (src toId : Nat) : (repointRows.moveOrDrop t src toId).UniqueOn projectKey := by
  unfold repointRows.moveOrDrop
  split
  · exact h.deleteWhere _
  · rename_i hnone
    refine h.updateWhere _ _ _ ?_ ?_
    · intro a _ b _ ha hb _ _
      simp only [decide_eq_true_eq] at ha hb
      exact ⟨by simp [projectKey, ha, hb], by simp [projectKey]⟩
    · intro a _ b hb _ _ _ heq
      -- the survivor has no row
      have hbp : toId = b.projectId := Option.some.inj heq
      exact hnone (List.any_eq_true.2 ⟨b, hb, by simp [hbp]⟩)

theorem uniqueKeys_merged (hne : duplicate.id ≠ survivor.id) (hkeys : UniqueKeys st) :
    UniqueKeys (mergedStore st survivor duplicate now) where
  issues := by
    intro a' ha' b' hb' hkey hsome
    rw [rows_tasks_merged hne hkeys] at ha' hb'
    obtain ⟨a, ha, rfl⟩ := List.mem_map.1 ha'
    obtain ⟨b, hb, rfl⟩ := List.mem_map.1 hb'
    rw [mergedRow_unique hne hkeys.issues ha hb hkey hsome]
  branches := by
    refine Table.UniqueOn.deleteWhere (Table.UniqueOn.updateWhere (hkeys.branches.deleteWhere _)
      _ (movePreview survivor.id) (movePreview_id survivor.id) ?_ ?_) _
    · intro a _ b _ ha hb heq hsome
      simp only [decide_eq_true_eq] at ha hb
      obtain ⟨⟨id, branch⟩, hka⟩ := Option.ne_none_iff_exists'.1 hsome
      rw [hka] at heq
      obtain ⟨hkind, -, hbranch⟩ := branchKey_eq_some.1 hka
      obtain ⟨hkind', -, hbranch'⟩ := branchKey_eq_some.1 heq.symm
      have hold : branchKey a = some (duplicate.id, branch) :=
        branchKey_eq_some.2 ⟨hkind, ha, hbranch⟩
      have hold' : branchKey b = some (duplicate.id, branch) :=
        branchKey_eq_some.2 ⟨hkind', hb, hbranch'⟩
      rw [hold, hold']
      exact ⟨rfl, Option.some_ne_none _⟩
    · intro a ha b hb hpa _ hsome heq
      obtain ⟨-, hkept⟩ := Table.mem_deleteWhere.1 ha
      obtain ⟨hb, -⟩ := Table.mem_deleteWhere.1 hb
      simp only [decide_eq_true_eq] at hpa
      obtain ⟨⟨id, branch⟩, hka⟩ := Option.ne_none_iff_exists'.1 hsome
      rw [hka] at heq
      obtain ⟨hkind, hid, hbranch⟩ := branchKey_eq_some.1 hka
      obtain ⟨hkind', hid', hbranch'⟩ := branchKey_eq_some.1 heq.symm
      -- the survivor has a row of that branch, so the duplicate's was dropped
      have hdropped : a.branch ∈ (st.previews.rows.filter (fun p =>
          p.projectId = some survivor.id && p.kind = .project)).map Preview.branch := by
        refine List.mem_map.2 ⟨b, List.mem_filter.2 ⟨hb, ?_⟩, hbranch'.trans hbranch.symm⟩
        simp [hid'.trans hid.symm, hkind', movePreview]
      have hkinda : a.kind = .project := hkind
      simp [hpa, hkinda, hdropped] at hkept
  labels := by
    refine Table.UniqueOn.deleteWhere (Table.UniqueOn.updateWhere (hkeys.labels.deleteWhere _)
      _ (moveCookie survivor.id) (moveCookie_id survivor.id) ?_ ?_) _
    · intro a _ b _ ha hb heq _
      simp only [decide_eq_true_eq] at ha hb
      simp only [labelKey, moveCookie, Option.some.injEq, Prod.mk.injEq, true_and] at heq
      simp [labelKey, ha, hb, heq]
    · intro a ha b hb hpa _ _ heq
      obtain ⟨-, hkept⟩ := Table.mem_deleteWhere.1 ha
      obtain ⟨hb, -⟩ := Table.mem_deleteWhere.1 hb
      simp only [decide_eq_true_eq] at hpa
      simp only [labelKey, moveCookie, Option.some.injEq, Prod.mk.injEq] at heq
      have hlabel : a.label ∈ (st.browserCookies.rows.filter (fun c =>
          c.projectId = survivor.id)).map BrowserCookie.label :=
        List.mem_map.2 ⟨b, List.mem_filter.2 ⟨hb, by simp [heq.1]⟩, heq.2.symm⟩
      simp [hpa, hlabel] at hkept
  tooling := (uniqueOn_moveOrDrop hkeys.tooling _ _).deleteWhere _
  webhooks := (uniqueOn_moveOrDrop hkeys.webhooks _ _).deleteWhere _

/-! ## The theorem -/

/-- The duplicate's tasks that have a worktree name a session row. -/
def WorktreesHaveSessions (db : Db) (duplicateId : Nat) : Prop :=
  ∀ a ∈ db.tasks.rows, a.projectId = duplicateId → a.worktreePath ≠ none →
    a.sessionId.bind db.sessions.get ≠ none

instance (db : Db) (duplicateId : Nat) : Decidable (WorktreesHaveSessions db duplicateId) :=
  inferInstanceAs (Decidable (∀ a ∈ db.tasks.rows, a.projectId = duplicateId →
    a.worktreePath ≠ none → a.sessionId.bind db.sessions.get ≠ none))

/-- **A merge that is not refused** is lossless exactly when the duplicate's worktrees
have their sessions. -/
theorem lossless_merged_iff (now : Nat) (hkeys : UniqueKeys st)
    (hs : st.db.projects.get survivor.id = some survivor)
    (hd : st.db.projects.get duplicate.id = some duplicate)
    (hok : checkMergeable st.db survivor duplicate = none) :
    Lossless st (mergedStore st survivor duplicate now) survivor.id duplicate.id
        (mergeTasks st.db duplicate.id survivor.id now).supersededLive ↔
      WorktreesHaveSessions st.db duplicate.id := by
  obtain ⟨hid, hhost, hclash⟩ := checkMergeable_none hok
  have hne : duplicate.id ≠ survivor.id := Ne.symm hid
  have hof : ∀ p, OfEither survivor.id duplicate.id p →
      (if p = duplicate.id then survivor.id else p) = survivor.id := by
    intro p hp
    split
    · rfl
    · exact hp.resolve_right ‹_›
  constructor
  · intro h a ha hp hw
    obtain ⟨a', ha', heq⟩ := h.taskHosts a ha hw
    rw [get_task_merged hne hkeys ha] at ha'
    cases ha'
    exact (resolveTaskWorkerHost_merged hne hs hd hhost ha).1 heq hp
  · intro h
    refine
      { gone := by rw [get_project_merged, if_pos rfl]
        tasks := fun a ha hp => ⟨_, get_task_merged hne hkeys ha, ?_⟩
        sessions := fun s hs' hp => ⟨_, get_session_merged hne hs', ?_⟩
        keys := uniqueKeys_merged hne hkeys
        live := fun a ha hp hl => ⟨_, get_task_merged hne hkeys ha, ?_⟩
        issues := fun a ha hp hn => ?_
        stopped := fun a ha hp => ?_
        sessionHosts := fun s hs' =>
          ⟨_, get_session_merged hne hs', resolveSessionHostId_merged hd s⟩
        taskHosts := fun a ha hw => ⟨_, get_task_merged hne hkeys ha,
          (resolveTaskWorkerHost_merged hne hs hd hhost ha).2 fun hp => h a ha hp hw⟩ }
    · rw [(outcome duplicate.id survivor.id now ha).project]
      exact hof _ hp
    · unfold mergedSession
      split
      · rfl
      · exact hp.resolve_right ‹_›
    · obtain ⟨hst, hsup, -⟩ := (outcome duplicate.id survivor.id now ha).live hclash ha hl
      exact ⟨hst, hsup⟩
    · obtain ⟨b, hb, hbp, hbi⟩ := tracked now hne hkeys.issues ha hp
      have hrow : mergedRow st.db duplicate.id survivor.id now b ∈
          (mergedStore st survivor duplicate now).db.tasks.rows := by
        rw [rows_tasks_merged hne hkeys]
        exact List.mem_map_of_mem hb
      have hunique : ∀ c ∈ (mergedStore st survivor duplicate now).db.tasks.rows,
          c.projectId = survivor.id → c.issueNumber = a.issueNumber →
            c = mergedRow st.db duplicate.id survivor.id now b := by
        intro c hc hcp hci
        refine (uniqueKeys_merged hne hkeys).issues c hc _ hrow ?_ (by simp [issueKey, hci, hn])
        simp only [issueKey, hci, hbi, hcp, hbp]
      refine ⟨_, hrow, hbp, hbi, hunique, fun c hc hcp hci hl => ?_⟩
      have hout := outcome duplicate.id survivor.id now hc
      obtain ⟨-, -, hissue⟩ := hout.live hclash hc hl
      have heq := hunique (mergedRow st.db duplicate.id survivor.id now c)
        (by rw [rows_tasks_merged hne hkeys]; exact List.mem_map_of_mem hc)
        (by rw [hout.project]; exact hof _ hcp) (hissue.trans hci)
      rw [← heq]
      exact hout.frame.1.symm
    · rintro ⟨a', ha', hsup⟩ hstop
      rw [get_task_merged hne hkeys ha] at ha'
      cases ha'
      refine (walk_spec now hne hkeys.issues).2 a ha ?_ hstop
      rcases hsup with hmark | hlost
      · have hnone : (mergedRow st.db duplicate.id survivor.id now a).issueNumber = none := by
          by_contra hn
          exact hmark ((outcome duplicate.id survivor.id now ha).of_issue hn).2.1
        refine ⟨fun hn => hmark ?_, hnone⟩
        -- a row without an issue meets no copy
        have hout := outcome duplicate.id survivor.id now ha
        generalize mergedRow st.db duplicate.id survivor.id now a = a' at hout
        cases hout with
        | moved => rfl
        | superseded c _ _ hc =>
          rw [hn] at hc
          cases hc
        | replaced t _ _ _ _ htn hti => exact absurd (hti.trans hn) htn
        | stays => rfl
        | other => rfl
      · exact hlost

end Store

/-- A merge is refused and changes nothing, or is lossless. -/
def MergeIsLossless (st : Store) (survivorId duplicateId now : Nat) : Prop :=
  match mergeProjects st survivorId duplicateId now with
  | (st', .ok _ _ stopped) => Lossless st st' survivorId duplicateId stopped
  | (st', .refused _) => st' = st

/-- A merge that the checks let through. -/
theorem mergeProjects_ok {st : Store} {survivorId duplicateId now : Nat}
    {survivor duplicate : Project} (hs : st.db.projects.get survivorId = some survivor)
    (hd : st.db.projects.get duplicateId = some duplicate)
    (hok : checkMergeable st.db survivor duplicate = none) :
    mergeProjects st survivorId duplicateId now =
      (mergedStore st survivor duplicate now, .ok (countRows st duplicate.id)
        (mergeTasks st.db duplicate.id survivor.id now).movedTaskIds
        (mergeTasks st.db duplicate.id survivor.id now).supersededLive) := by
  unfold mergeProjects
  simp only [hs, hd, hok]
  rfl

/-- **A merge is atomic, and lossless but for hosts.** For every store that keeps its
unique indexes and every pair of project ids: the merge is refused and changes nothing,
or it is lossless, exactly when the merge is refused or every task of the duplicate
that has a worktree names a session row. -/
theorem merge_lossless_iff (st : Store) (survivorId duplicateId now : Nat)
    (hkeys : UniqueKeys st) :
    MergeIsLossless st survivorId duplicateId now ↔
      ∀ survivor duplicate, st.db.projects.get survivorId = some survivor →
        st.db.projects.get duplicateId = some duplicate →
        checkMergeable st.db survivor duplicate = none →
        WorktreesHaveSessions st.db duplicateId := by
  unfold MergeIsLossless mergeProjects
  cases hs : st.db.projects.get survivorId with
  | none => simp
  | some survivor =>
    cases hd : st.db.projects.get duplicateId with
    | none => simp
    | some duplicate =>
      have hsid : survivor.id = survivorId := Table.get_key hs
      have hdid : duplicate.id = duplicateId := Table.get_key hd
      cases hok : checkMergeable st.db survivor duplicate with
      | some refusal =>
        simp only [hok, true_iff]
        intro s d hs' hd' hok'
        cases hs'
        cases hd'
        rw [hok] at hok'
        cases hok'
      | none =>
        simp only [hok]
        have hiff := lossless_merged_iff now hkeys (by rw [hsid]; exact hs)
          (by rw [hdid]; exact hd) hok
        rw [hsid, hdid] at hiff
        constructor
        · intro h s d _ _ _
          exact hiff.1 (by rw [← hsid, ← hdid] at h ⊢; exact h)
        · intro h
          have hlossless := hiff.2 (h survivor duplicate rfl rfl hok)
          rw [← hsid, ← hdid] at hlossless ⊢
          exact hlossless

/-- Project 1 on the local host, its clone 2 on another with one task that has a
worktree there, and session 5 of the clone. -/
def demoStore (sessionId : Option Nat) : Store where
  db :=
    { projects := ⟨[{ id := 1 }, { id := 2, hostId := "edge" }], by decide⟩
      sessions := ⟨[{ id := 5, projectId := 2, status := .exited }], by decide⟩
      tasks := ⟨[{
          id := 7, projectId := 2, issueNumber := some 3, status := .failed
          sessionId := sessionId, worktreePath := some "/w/7" }], List.nodup_singleton 7⟩
      nextSessionId := 6
      fresh := by decide }
  previews := ⟨[], List.nodup_nil⟩
  projectPreviewTargets := ⟨[], List.nodup_nil⟩
  sessionBrowsers := ⟨[], List.nodup_nil⟩
  devices := ⟨[], List.nodup_nil⟩
  projectUrls := ⟨[], List.nodup_nil⟩
  browserCookies := ⟨[], List.nodup_nil⟩
  projectTooling := ⟨[], List.nodup_nil⟩
  webhookRegistrations := ⟨[], List.nodup_nil⟩
  pendingBrowserCloses := ⟨[], List.nodup_nil⟩

theorem uniqueKeys_demoStore (sessionId : Option Nat) : UniqueKeys (demoStore sessionId) where
  issues := by
    intro a ha b hb _ _
    rw [List.mem_singleton.1 ha, List.mem_singleton.1 hb]
  branches := fun a ha => absurd ha List.not_mem_nil
  labels := fun a ha => absurd ha List.not_mem_nil
  tooling := fun a ha => absurd ha List.not_mem_nil
  webhooks := fun a ha => absurd ha List.not_mem_nil

/-- A worktree whose session is known stays on its host. -/
theorem merge_lossless_session : MergeIsLossless (demoStore (some 5)) 1 2 0 := by
  refine (merge_lossless_iff _ 1 2 0 (uniqueKeys_demoStore (some 5))).2 ?_
  intro _ _ _ _ _
  decide

/-- A retry that failed has cleared the session: the merge sends the worktree to the
survivor's host. -/
theorem merge_moves_worktree :
    ¬ ∀ (st : Store) (survivorId duplicateId now : Nat), UniqueKeys st →
      MergeIsLossless st survivorId duplicateId now := by
  intro h
  have hlossless := h (demoStore none) 1 2 0 (uniqueKeys_demoStore none)
  have hok : checkMergeable (demoStore none).db { id := 1 } { id := 2, hostId := "edge" } = none := by
    decide
  unfold MergeIsLossless at hlossless
  rw [mergeProjects_ok rfl rfl hok] at hlossless
  have hworktree := (lossless_merged_iff 0 (uniqueKeys_demoStore none) rfl rfl hok).1 hlossless
  revert hworktree
  decide

end Merge
end Mullion
