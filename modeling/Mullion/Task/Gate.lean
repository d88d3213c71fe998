import Mullion.Task.Ingest

/-!
# The dependency gate

`task-dependencies.ts`: whether the blockers of an issue let its task be claimed, and the
refresh that asks GitHub for them.

* `dependencyGate` — the truth table;
* `refreshTaskBlockers` — one refresh, once GitHub has answered or failed.
-/

namespace Mullion
namespace Ingest

inductive DependencyGate
  | clear
  | blocked
  | unresolved
  deriving DecidableEq, Repr

def dependencyGate (row : IssueTask) : DependencyGate :=
  if row.issueNumber = none then .clear
  else match row.dependencyCount with
    | none => .unresolved
    | some 0 => .clear
    | some _ =>
      match row.blockedBy with
      | none => .unresolved
      | some [] => .clear
      | some _ => .blocked

/-- The gate of a linked row is clear for two reasons. -/
theorem dependencyGate_clear {row : IssueTask} (hlinked : row.issueNumber ≠ none)
    (h : dependencyGate row = .clear) :
    row.dependencyCount = some 0 ∨ row.blockedBy = some [] := by
  unfold dependencyGate at h
  rw [if_neg hlinked] at h
  split at h
  · cases h
  · exact .inl ‹_›
  · split at h
    · cases h
    · exact .inr ‹_›
    · cases h

/-- Blockers that were found closed keep the gate clear, whatever is counted. -/
theorem dependencyGate_of_empty {row : IssueTask} {n : Nat}
    (hcount : row.dependencyCount = some n) (h : row.blockedBy = some []) :
    dependencyGate row = .clear := by
  unfold dependencyGate
  rw [hcount, h]
  cases n <;> simp

/-! ## Writes that leave the gate -/

/-- The columns that the gate reads are the same. -/
structure SameGate (row row' : IssueTask) : Prop where
  issueNumber : row'.issueNumber = row.issueNumber
  dependencyCount : row'.dependencyCount = row.dependencyCount
  blockedBy : row'.blockedBy = row.blockedBy

theorem SameGate.refl (row : IssueTask) : SameGate row row := ⟨rfl, rfl, rfl⟩

theorem SameGate.trans {a b c : IssueTask} (hab : SameGate a b) (hbc : SameGate b c) :
    SameGate a c :=
  ⟨hbc.issueNumber.trans hab.issueNumber, hbc.dependencyCount.trans hab.dependencyCount,
    hbc.blockedBy.trans hab.blockedBy⟩

theorem SameGate.gate {row row' : IssueTask} (h : SameGate row row') :
    dependencyGate row' = dependencyGate row := by
  simp [dependencyGate, h.issueNumber, h.dependencyCount, h.blockedBy]

theorem sameGate_toTask (row : IssueTask) (task : Task) (h : task.issueNumber = row.issueNumber) :
    SameGate row { row with toTask := task } := ⟨h, rfl, rfl⟩

theorem sameGate_demoteUntrusted (row : IssueTask) : SameGate row (demoteUntrusted row) := by
  unfold demoteUntrusted
  split
  · exact sameGate_toTask row _ rfl
  · exact .refl row

theorem sameGate_demoteEpic (existing row : IssueTask) (issue : TaskIssue) :
    SameGate row (demoteEpic existing issue row) := by
  unfold demoteEpic
  split
  · split
    · exact sameGate_toTask row _ rfl
    · exact .refl row
  · exact .refl row

theorem sameGate_promoteManualRemoved (existing row : IssueTask) (issue : TaskIssue) :
    SameGate row (promoteManualRemoved existing issue row) := by
  unfold promoteManualRemoved
  split
  · split
    · exact sameGate_toTask row _ rfl
    · exact .refl row
  · exact .refl row

theorem sameGate_resurrectRelabeled (existing row : IssueTask) (issue : TaskIssue) :
    SameGate row (resurrectRelabeled existing issue row) := by
  unfold resurrectRelabeled
  split
  · simp only
    split
    · exact sameGate_toTask row _ rfl
    · exact .refl row
  · exact .refl row

/-- A trusted sighting of a known row stores the count it carries and leaves the blockers. -/
theorem upsertIssueTask_trusted {trustedLogins : List String} {id projectId n : Nat}
    {issue : TaskIssue} {row row' : IssueTask}
    (htrusted : isTrustedAuthor trustedLogins issue = true) (hn : issue.dependencyCount = some n)
    (h : upsertIssueTask trustedLogins id projectId issue (some row) = some row') :
    row'.issueNumber = row.issueNumber ∧ row'.dependencyCount = some n ∧
      row'.blockedBy = row.blockedBy := by
  simp only [upsertIssueTask, htrusted, if_true, Option.some.injEq] at h
  subst h
  have hsame : SameGate (row.sight issue) _ :=
    (sameGate_demoteEpic row (row.sight issue) issue).trans
      ((sameGate_promoteManualRemoved row _ issue).trans
        (sameGate_resurrectRelabeled row _ issue))
  have hsight : (row.sight issue).dependencyCount = some n ∧
      (row.sight issue).blockedBy = row.blockedBy := by
    unfold IssueTask.sight
    cases issue.parent <;> cases issue.subIssues <;> simp [hn]
  refine ⟨?_, hsame.dependencyCount.trans hsight.1, hsame.blockedBy.trans hsight.2⟩
  rw [hsame.issueNumber]
  simp

/-! ## A refresh -/

/-- An issue that `listBlockedByIssues` answers with. -/
structure DependencyIssue where
  owner : String
  repo : String
  number : Nat
  title : String
  htmlUrl : String
  state : String
  deriving DecidableEq, Repr

inductive BlockerRefreshOutcome
  | ok
  | shortfall
  | error
  deriving DecidableEq, Repr

/-- The parameters of a refresh that it still reads when the answer is there. -/
structure RefreshParams where
  owner : String
  repo : String
  dependencyCount : Option Nat
  stampOnFailure : Bool := false
  deriving DecidableEq, Repr

def openBlockers (results : List DependencyIssue) : List StoredBlocker :=
  (results.filter (·.state = "open")).map fun r =>
    { owner := r.owner, repo := r.repo, number := r.number, title := r.title,
      htmlUrl := some r.htmlUrl }

/-- Fewer blockers are listed than were counted. -/
def isShortfall (params : RefreshParams) (results : List DependencyIssue) : Bool :=
  results.length < params.dependencyCount.getD 0

/-- What a refresh stores: the open blockers, after one that stands for those not listed. -/
def blockersOf (params : RefreshParams) (results : List DependencyIssue) : List StoredBlocker :=
  if isShortfall params results then
    let hidden := params.dependencyCount.getD 0 - results.length
    { owner := params.owner
      repo := params.repo
      number := 0
      title := s!"{hidden} blocker(s) not visible to this token"
      htmlUrl := none } :: openBlockers results
  else openBlockers results

/-- `refreshTaskBlockers`; `results` is `none` when the request failed. -/
def refreshTaskBlockers (params : RefreshParams) (now : Nat)
    (results : Option (List DependencyIssue)) (row : IssueTask) : IssueTask :=
  match results with
  | some results =>
    { row with
      dependencyCount := some (blockersOf params results).length
      blockedBy := some (blockersOf params results)
      blockedByCheckedAt :=
        if isShortfall params results then row.blockedByCheckedAt else some (storedTime now) }
  | none =>
    if params.stampOnFailure then { row with blockedByCheckedAt := some (storedTime now) } else row

def refreshOutcome (params : RefreshParams) :
    Option (List DependencyIssue) → BlockerRefreshOutcome
  | some results => if isShortfall params results then .shortfall else .ok
  | none => .error

/-- The refresh found no open blocker and no shortfall. -/
def foundNone (params : RefreshParams) (results : Option (List DependencyIssue)) : Bool :=
  refreshOutcome params results = .ok && (results.map openBlockers) = some []

@[simp]
theorem toTask_refreshTaskBlockers (params : RefreshParams) (now : Nat)
    (results : Option (List DependencyIssue)) (row : IssueTask) :
    (refreshTaskBlockers params now results row).toTask = row.toTask := by
  unfold refreshTaskBlockers
  split
  · rfl
  · split <;> rfl

/-- A refresh leaves the columns, or stores an empty list exactly when it found no open blocker
and no shortfall; the count then is zero too. -/
theorem refreshTaskBlockers_cases (params : RefreshParams) (now : Nat)
    (results : Option (List DependencyIssue)) (row : IssueTask) :
    (refreshTaskBlockers params now results row).dependencyCount = row.dependencyCount ∧
        (refreshTaskBlockers params now results row).blockedBy = row.blockedBy ∨
      ∃ blockers, (refreshTaskBlockers params now results row).dependencyCount =
          some blockers.length ∧
        (refreshTaskBlockers params now results row).blockedBy = some blockers ∧
        (blockers = [] → foundNone params results = true) := by
  cases results with
  | none =>
    left
    unfold refreshTaskBlockers
    simp only
    split <;> exact ⟨rfl, rfl⟩
  | some results =>
    refine .inr ⟨blockersOf params results, rfl, rfl, ?_⟩
    intro hempty
    unfold blockersOf at hempty
    split at hempty
    · cases hempty
    · rename_i hlisted
      simp [foundNone, refreshOutcome, hlisted, hempty]

end Ingest
end Mullion
