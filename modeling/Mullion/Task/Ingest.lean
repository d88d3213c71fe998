import Mullion.Lib.Run
import Mullion.Schema
import Mullion.Text

/-!
# Ingest of an issue

`upsertIssueTask` of `task-watcher.ts`, on the row of one issue of one project. The poll sees all of
an issue; a webhook does not carry its dependencies, parent and sub-issues. A call that makes a
known row ready should do so only for an issue that does not opt out with a line `Manual: true`
(`isManualOnly`) and has no open sub-issue that is known (`Claimable`).

`demoteEpic`, `promoteManualRemoved` and `resurrectRelabeled` are the three guarded writes of the
status, one after the other on what the one before has left. From them it can be said in terms of
the old row and the sighting when a row becomes ready (`ready_upsert_iff`). The last two look at the
sub-issues of the sighting, and where it carries none they take the issue for one without, whatever
the row says. So the law holds for a call exactly if the sighting carries the counts, or nothing is
known to be open, or the row does not wait for such a promotion (`Warranted`).
`ingest_claimable_iff` has it for every order of sightings and of what others write to the row;
`webhook_promotes_open_epic` is a call that is not warranted.
-/

namespace Mullion
namespace Ingest

/-! ## Opting out -/

/-- A line ends before this character. -/
def isLineEnd (c : Char) : Bool := c.val ∈ [0xa, 0xd, 0x2028, 0x2029]

/-- What follows `word` in `text`, whatever the case of the letters. -/
def dropWord (word text : List Char) : Option (List Char) :=
  if (text.take word.length).map Char.toLower = word then some (text.drop word.length) else none

/-- `\s*$`: white space up to the end of a line. -/
def endsLine (text : List Char) : Bool :=
  (text.dropWhile Text.isWhite).isEmpty || (text.takeWhile Text.isWhite).any isLineEnd

/-- `\s*Manual:\s*true\s*$`. -/
def manualHere (text : List Char) : Bool :=
  ((dropWord "manual:".toList (text.dropWhile Text.isWhite)).bind fun rest =>
    dropWord "true".toList (rest.dropWhile Text.isWhite)).any endsLine

/-- Some line of the text matches; `atStart` when the text starts a line. -/
def manualFrom (atStart : Bool) : List Char → Bool
  | [] => false
  | c :: rest => (atStart && manualHere (c :: rest)) || manualFrom (isLineEnd c) rest

def isManualOnly (body : Option String) : Bool := body.any fun body => manualFrom true body.toList

/-! ## Sightings and rows -/

structure SubIssues where
  total : Int
  completed : Int
  deriving DecidableEq, Repr

structure ParentIssue where
  repo : String
  number : Nat
  deriving DecidableEq, Repr

/-- What a sighting says of an issue. A field that the sighting does not carry is `none`; a
`parent` of `some none` is an issue known to have no parent. -/
structure TaskIssue where
  number : Nat
  title : String
  body : Option String
  htmlUrl : String
  authorLogin : Option String := none
  authorAssociation : Option String := none
  dependencyCount : Option Nat := none
  parent : Option (Option ParentIssue) := none
  subIssues : Option SubIssues := none
  deriving DecidableEq, Repr

structure StoredBlocker where
  owner : String
  repo : String
  number : Nat
  title : String
  htmlUrl : Option String
  deriving DecidableEq, Repr

/-- A `tasks` row with the columns of its issue. `blockedBy` is the parsed column. -/
structure IssueTask extends Task where
  body : Option String := none
  htmlUrl : Option String := none
  dependencyCount : Option Nat := none
  blockedBy : Option (List StoredBlocker) := none
  blockedByCheckedAt : Option Nat := none
  parentIssueNumber : Option Nat := none
  parentIssueRepo : Option String := none
  parentIssueTitle : Option String := none
  subIssueTotal : Option Int := none
  subIssueCompleted : Option Int := none
  deriving DecidableEq, Repr

/-- Some sub-issue is open, by these counts. -/
def openChildren (total completed : Option Int) : Bool := 0 < total.getD 0 - completed.getD 0

def isEpicIssue (issue : TaskIssue) : Bool :=
  openChildren (issue.subIssues.map (·.total)) (issue.subIssues.map (·.completed))

/-- `FAILURE_REASON_LABEL_LOST`. -/
def failureReasonLabelLost : String := "GitHub issue lost its tracking label"

/-- `isTrustedAuthor` of `task-trust.ts`; the logins are lower case. -/
def isTrustedAuthor (trustedLogins : List String) (issue : TaskIssue) : Bool :=
  issue.authorAssociation.any (· ∈ ["OWNER", "MEMBER", "COLLABORATOR"]) ||
    issue.authorLogin.any fun login => login.toLower ∈ trustedLogins

/-! ## The writes -/

def IssueTask.setStatus (row : IssueTask) (status : TaskStatus) : IssueTask :=
  { row with toTask := row.toTask.setStatus status }

/-- A row that no worker has touched. -/
def IssueTask.waits (row : IssueTask) (status : TaskStatus) : Bool :=
  row.status = status && row.sessionId = none

/-- The `set` of the upsert. Where no column differs the source writes nothing. -/
def IssueTask.sight (row : IssueTask) (issue : TaskIssue) : IssueTask :=
  let seen := { row with
    title := issue.title
    body := issue.body
    htmlUrl := some issue.htmlUrl
    dependencyCount := issue.dependencyCount <|> row.dependencyCount }
  let seen := match issue.parent with
    | none => seen
    | some parent =>
      let moved := row.parentIssueNumber ≠ parent.map (·.number) ∨
        row.parentIssueRepo ≠ parent.map (·.repo)
      { seen with
        parentIssueNumber := parent.map (·.number)
        parentIssueRepo := parent.map (·.repo)
        parentIssueTitle := if moved then none else row.parentIssueTitle }
  match issue.subIssues with
  | none => seen
  | some subIssues =>
    { seen with
      subIssueTotal := some subIssues.total
      subIssueCompleted := some subIssues.completed }

/-- The `values` of the upsert. -/
def insertRow (id projectId : Nat) (issue : TaskIssue) : IssueTask :=
  { id
    projectId
    issueNumber := some issue.number
    title := issue.title
    body := issue.body
    htmlUrl := some issue.htmlUrl
    status := if isManualOnly issue.body || isEpicIssue issue then .backlog else .ready
    dependencyCount := issue.dependencyCount
    parentIssueNumber := issue.parent.join.map (·.number)
    parentIssueRepo := issue.parent.join.map (·.repo)
    subIssueTotal := issue.subIssues.map (·.total)
    subIssueCompleted := issue.subIssues.map (·.completed) }

/-- A sighting that an untrusted author wrote. -/
def demoteUntrusted (row : IssueTask) : IssueTask :=
  if row.waits .ready then row.setStatus .backlog else row

/-- An issue that has just been found to be an epic. -/
def demoteEpic (existing : IssueTask) (issue : TaskIssue) (row : IssueTask) : IssueTask :=
  if existing.subIssueTotal.getD 0 = 0 ∧ isEpicIssue issue then
    if row.waits .ready then row.setStatus .backlog else row
  else row

/-- An issue whose body has lost its manual directive. -/
def promoteManualRemoved (existing : IssueTask) (issue : TaskIssue) (row : IssueTask) :
    IssueTask :=
  if isManualOnly existing.body ∧ isManualOnly issue.body = false ∧ isEpicIssue issue = false then
    if row.waits .backlog then row.setStatus .ready else row
  else row

/-- The row failed because its issue lost the label, before any work was done. -/
def IssueTask.lostLabel (row : IssueTask) : Bool :=
  row.status = .failed && row.failureReason = some failureReasonLabelLost &&
    row.branchName = none && row.worktreePath = none

/-- An issue that has its label again. -/
def resurrectRelabeled (existing : IssueTask) (issue : TaskIssue) (row : IssueTask) : IssueTask :=
  if existing.lostLabel then
    let status := if isManualOnly issue.body || isEpicIssue issue then .backlog else .ready
    if row.lostLabel then
      let resurrected := row.setStatus status
      { resurrected with failureReason := none, failureDiagnostics := none, completedAt := none }
    else row
  else row

/-- `upsertIssueTask`, on the row of the issue; `id` is that of a new row. -/
def upsertIssueTask (trustedLogins : List String) (id projectId : Nat) (issue : TaskIssue) :
    Option IssueTask → Option IssueTask
  | none => if isTrustedAuthor trustedLogins issue then some (insertRow id projectId issue) else none
  | some existing =>
    if isTrustedAuthor trustedLogins issue then
      let row := existing.sight issue
      let row := demoteEpic existing issue row
      let row := promoteManualRemoved existing issue row
      some (resurrectRelabeled existing issue row)
    else some (demoteUntrusted existing)

/-! ## The status after a sighting -/

@[simp]
theorem toTask_sight (row : IssueTask) (issue : TaskIssue) :
    (row.sight issue).toTask = { row.toTask with title := issue.title } := by
  unfold IssueTask.sight
  cases issue.parent <;> cases issue.subIssues <;> rfl

@[simp]
theorem waits_sight (row : IssueTask) (issue : TaskIssue) (status : TaskStatus) :
    (row.sight issue).waits status = row.waits status := by
  simp [IssueTask.waits]

@[simp]
theorem lostLabel_sight (row : IssueTask) (issue : TaskIssue) :
    (row.sight issue).lostLabel = row.lostLabel := by
  simp [IssueTask.lostLabel]

/-- The row becomes ready because its issue has lost its manual directive. -/
def promoted (row : IssueTask) (issue : TaskIssue) : Bool :=
  row.waits .backlog && isManualOnly row.body && !isManualOnly issue.body && !isEpicIssue issue

/-- The row becomes ready because its issue has its label again. -/
def resurrected (row : IssueTask) (issue : TaskIssue) : Bool :=
  row.lostLabel && !isManualOnly issue.body && !isEpicIssue issue

/-- A trusted sighting makes a known row ready in these two ways only. -/
theorem ready_upsert_iff {trustedLogins : List String} {id projectId : Nat} {issue : TaskIssue}
    {row row' : IssueTask} (htrusted : isTrustedAuthor trustedLogins issue = true)
    (h : upsertIssueTask trustedLogins id projectId issue (some row) = some row')
    (hready : row.status ≠ .ready) :
    row'.status = .ready ↔ promoted row issue = true ∨ resurrected row issue = true := by
  simp only [upsertIssueTask, htrusted, if_true, Option.some.injEq] at h
  subst h
  have hwaits : (row.sight issue).waits .ready = false := by
    simp [IssueTask.waits, hready]
  have hdemote : demoteEpic row issue (row.sight issue) = row.sight issue := by
    simp [demoteEpic, hwaits]
  simp only [hdemote]
  cases hlost : row.lostLabel with
  | true =>
    have hfailed : row.status = .failed := by
      simp only [IssueTask.lostLabel, Bool.and_eq_true, decide_eq_true_eq] at hlost
      exact hlost.1.1.1
    have hkept : promoteManualRemoved row issue (row.sight issue) = row.sight issue := by
      simp [promoteManualRemoved, IssueTask.waits, hfailed]
    simp only [hkept, resurrectRelabeled, promoted, resurrected, lostLabel_sight, hlost, if_true,
      IssueTask.setStatus, Task.setStatus, IssueTask.waits, hfailed]
    cases isManualOnly issue.body <;> cases isEpicIssue issue <;> simp
  | false =>
    simp only [resurrectRelabeled, hlost, Bool.false_eq_true, if_false, resurrected,
      Bool.false_and, or_false, promoteManualRemoved, promoted, waits_sight]
    cases hbacklog : row.waits .backlog <;> cases isManualOnly row.body <;>
      cases isManualOnly issue.body <;> cases isEpicIssue issue <;>
      simp [hready, IssueTask.setStatus, Task.setStatus]

/-! ## Runs -/

/-- What happens to the row: a trusted author's sighting of the issue, or a write of somebody
else, who leaves the columns of the issue alone. -/
inductive Event
  | sighting (issue : TaskIssue)
  | write (task : Task)
  | delete
  deriving DecidableEq, Repr

structure State where
  row : Option IssueTask := none
  deriving DecidableEq, Repr

variable (trustedLogins : List String) (id projectId : Nat)

def step (s : State) : Event → Option State
  | .sighting issue =>
    if isTrustedAuthor trustedLogins issue then
      some { row := upsertIssueTask trustedLogins id projectId issue s.row }
    else none
  | .write task => some { row := s.row.map fun row => { row with toTask := task } }
  | .delete => some { row := none }

/-- The newest sub-issue counts: those of the sighting, or those of the row. -/
def latestTotal (row : IssueTask) (issue : TaskIssue) : Option Int :=
  (issue.subIssues.map (·.total)).orElse fun _ => row.subIssueTotal

def latestCompleted (row : IssueTask) (issue : TaskIssue) : Option Int :=
  (issue.subIssues.map (·.completed)).orElse fun _ => row.subIssueCompleted

/-- A sighting that makes a known row ready has no manual directive, and no sub-issue is known
to be open. -/
def Claimable (s : State) (event : Event) (s' : State) : Prop :=
  ∀ issue row row', event = .sighting issue → s.row = some row → s'.row = some row' →
    row.status ≠ .ready → row'.status = .ready →
      isManualOnly issue.body = false ∧
        openChildren (latestTotal row issue) (latestCompleted row issue) = false

/-- The sighting carries sub-issue counts, or the row says that no child is open, or the row
neither lost its manual directive nor waits for its label. -/
def Warranted (s : State) (event : Event) : Prop :=
  ∀ issue row, event = .sighting issue → s.row = some row →
    issue.subIssues ≠ none ∨ openChildren row.subIssueTotal row.subIssueCompleted = false ∨
      isManualOnly issue.body = true ∨
      (row.waits .backlog && isManualOnly row.body) = false ∧ row.lostLabel = false

variable {trustedLogins id projectId}

theorem openChildren_latest_of_counted {row : IssueTask} {issue : TaskIssue}
    (h : issue.subIssues ≠ none) :
    openChildren (latestTotal row issue) (latestCompleted row issue) = isEpicIssue issue := by
  obtain ⟨subIssues, hsub⟩ := Option.ne_none_iff_exists'.1 h
  simp [latestTotal, latestCompleted, isEpicIssue, hsub]

theorem openChildren_latest_of_uncounted {row : IssueTask} {issue : TaskIssue}
    (h : issue.subIssues = none) :
    openChildren (latestTotal row issue) (latestCompleted row issue) =
      openChildren row.subIssueTotal row.subIssueCompleted := by
  simp [latestTotal, latestCompleted, h]

theorem isEpicIssue_of_uncounted {issue : TaskIssue} (h : issue.subIssues = none) :
    isEpicIssue issue = false := by
  simp [isEpicIssue, openChildren, h]

/-- A sighting that is warranted makes a row ready only as it should. -/
theorem claimable_of_warranted {row : IssueTask} {issue : TaskIssue}
    (h : issue.subIssues ≠ none ∨ openChildren row.subIssueTotal row.subIssueCompleted = false ∨
      isManualOnly issue.body = true ∨
      (row.waits .backlog && isManualOnly row.body) = false ∧ row.lostLabel = false)
    (hmade : promoted row issue = true ∨ resurrected row issue = true) :
    isManualOnly issue.body = false ∧
      openChildren (latestTotal row issue) (latestCompleted row issue) = false := by
  have hmade' : isManualOnly issue.body = false ∧ isEpicIssue issue = false ∧
      ((row.waits .backlog && isManualOnly row.body) = true ∨ row.lostLabel = true) := by
    simp only [promoted, resurrected, Bool.and_eq_true, Bool.not_eq_true'] at hmade
    rcases hmade with ⟨⟨hparked, hbody⟩, hepic⟩ | ⟨⟨hlost, hbody⟩, hepic⟩
    · exact ⟨hbody, hepic, .inl (by simp [hparked])⟩
    · exact ⟨hbody, hepic, .inr hlost⟩
  obtain ⟨hbody, hepic, hparked⟩ := hmade'
  refine ⟨hbody, ?_⟩
  by_cases hcounted : issue.subIssues = none
  · rw [openChildren_latest_of_uncounted hcounted]
    rcases h with h | h | h | ⟨hmanual, hlost⟩
    · exact absurd hcounted h
    · exact h
    · rw [hbody] at h
      cases h
    · simp [hmanual, hlost] at hparked
  · rw [openChildren_latest_of_counted hcounted, hepic]

/-- A sighting that is not warranted makes the row ready while a sub-issue is open. -/
theorem made_ready_of_unwarranted {row : IssueTask} {issue : TaskIssue}
    (hcounted : issue.subIssues = none) (hbody : isManualOnly issue.body = false)
    (hparked : (row.waits .backlog && isManualOnly row.body) = true ∨ row.lostLabel = true) :
    row.status ≠ .ready ∧ (promoted row issue = true ∨ resurrected row issue = true) := by
  have hepic := isEpicIssue_of_uncounted hcounted
  rcases hparked with hparked | hlost
  · have hwaits : row.waits .backlog = true := (Bool.and_eq_true_iff.1 hparked).1
    refine ⟨?_, .inl (by simp [promoted, hparked, hbody, hepic])⟩
    simp only [IssueTask.waits, Bool.and_eq_true, decide_eq_true_eq] at hwaits
    simp [hwaits.1]
  · refine ⟨?_, .inr (by simp [resurrected, hlost, hbody, hepic])⟩
    simp only [IssueTask.lostLabel, Bool.and_eq_true, decide_eq_true_eq] at hlost
    simp [hlost.1.1.1]

theorem claimable_iff_warranted {s s' : State} {event : Event}
    (h : step trustedLogins id projectId s event = some s') :
    Claimable s event s' ↔ Warranted s event := by
  constructor
  · rintro hclaimable issue row rfl hrow
    by_contra hunwarranted
    simp only [not_or, not_not, Bool.not_eq_false, Bool.not_eq_true, not_and_or] at hunwarranted
    obtain ⟨hcounted, hopen, hbody, hparked⟩ := hunwarranted
    obtain ⟨hready, hmade⟩ := made_ready_of_unwarranted hcounted hbody hparked
    simp only [step] at h
    split at h
    · rename_i htrusted
      cases h
      obtain ⟨row', hrow'⟩ : ∃ row', upsertIssueTask trustedLogins id projectId issue (some row) =
          some row' := by
        simp [upsertIssueTask, htrusted]
      have hready' := (ready_upsert_iff htrusted hrow' hready).2 hmade
      have hclosed := (hclaimable issue row row' rfl hrow (by simp [hrow, hrow']) hready hready').2
      rw [openChildren_latest_of_uncounted hcounted, hopen] at hclosed
      cases hclosed
    · cases h
  · rintro hwarranted issue row row' rfl hrow hrow' hready hready'
    simp only [step] at h
    split at h
    · rename_i htrusted
      cases h
      simp only [hrow] at hrow'
      exact claimable_of_warranted (hwarranted issue row rfl hrow)
        ((ready_upsert_iff htrusted hrow' hready).1 hready')
    · cases h

/-- In every run of sightings and other writes, each call that makes a known row ready is of an
issue without a manual directive and with no open sub-issue known, exactly when each call is
warranted. -/
theorem ingest_claimable_iff (trustedLogins : List String) (id projectId : Nat) (s : State)
    (events : List Event) :
    Run.AlongSteps (step trustedLogins id projectId) Claimable s events ↔
      Run.Meets (step trustedLogins id projectId) Warranted s events := by
  refine Run.alongSteps_iff_meets (I := fun _ => True) ?_ ?_ trivial
  · intros
    trivial
  · intro t event t' _ h
    exact claimable_iff_warranted h

/-- The poll finds an epic with two open sub-issues that opts out; a webhook then carries the
body without the directive. -/
theorem webhook_promotes_open_epic :
    let polled : TaskIssue :=
      { number := 7, title := "Epic", body := some "Manual: true", htmlUrl := "/7",
        authorAssociation := some "OWNER", subIssues := some ⟨3, 1⟩ }
    let pushed : TaskIssue :=
      { number := 7, title := "Epic", body := some "", htmlUrl := "/7",
        authorAssociation := some "OWNER" }
    ¬Run.AlongSteps (step [] 1 1) Claimable {} [.sighting polled, .sighting pushed] := by
  intro polled pushed h
  have hpolled : step [] 1 1 {} (.sighting polled) = some { row := insertRow 1 1 polled } := by
    decide +kernel
  have hpushed : step [] 1 1 { row := insertRow 1 1 polled } (.sighting pushed) =
      some { row := some (((insertRow 1 1 polled).sight pushed).setStatus .ready) } := by
    decide +kernel
  have hsteps : Run.AlongSteps (step [] 1 1) Claimable {}
      ([.sighting polled] ++ [.sighting pushed]) := h
  have hlast := hsteps.last (by rw [Run.play, hpolled]; rfl) hpushed
  have hclosed := (hlast pushed _ _ rfl rfl rfl (by decide +kernel) rfl).2
  revert hclosed
  decide +kernel

end Ingest
end Mullion
