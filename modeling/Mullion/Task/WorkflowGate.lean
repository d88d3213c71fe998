import Mullion.Lib.Run

/-!
# The approval of workflow changes

A task branch that edits `.github/workflows/` is pushed only when an operator approved its head
commit (`task-workflow-gate.ts`, and the gate and the push of `task-promote.ts`). The list of files,
the head and the push are separate reads of a branch on which the worker goes on committing, and
promotions and approvals of one task run at the same time.

A commit that lands between two of these reads can be pushed unseen, or be approved with the files
of the one before (`commit_between_reads`). `Safe` says where a commit may land, phase by phase of
each call, and which approval may be written late. Under it every call knows something of the branch
in each of its phases: the files it has listed are those of the head, the head it has resolved has
these files, and at the push the head is approved or has no workflow files (`Knows`). A commit that
is safe leaves such knowledge true, and so does what other calls write to the row. The verdict of
the gate adds to it (`tells_gateOfFiles`, `tells_gateOfHead`). `approval_covers_push` reads the
result off the last phase: along a run of safe steps only approved heads are pushed with workflow
changes, and only what the operator was shown is approved.
-/

namespace Mullion
namespace WorkflowGate

/-- The head commit of a held push and the workflow files it changes. -/
structure WorkflowChange where
  sha : String
  files : List String
  deriving DecidableEq

inductive Gate
  | clear
  | unverified (detail : String)
  | approved (sha : String)
  | held (change : WorkflowChange)
  deriving DecidableEq

/-- The two columns of the task row. -/
structure TaskRow where
  workflowChange : Option WorkflowChange
  workflowApprovedSha : Option String
  deriving DecidableEq

/-! ## The gate -/

/-- `WorkflowFilesUnknown`. -/
inductive FilesUnknown
  | noBase
  | host
  deriving DecidableEq

/-- `WORKFLOW_UNVERIFIED_PREFIX`. -/
def workflowUnverifiedPrefix : String :=
  "Could not verify whether this branch changes .github/workflows/"

def FilesUnknown.detail : FilesUnknown → String
  | .noBase => workflowUnverifiedPrefix ++
      " — the repository has no origin/main or origin/master ref to diff against " ++
      "(fetch the remote; retrying)"
  | .host => workflowUnverifiedPrefix ++
      " — the diff could not be read on its host " ++
      "(retrying; update the host agent if this persists)"

/-- What the worktree's host answers about the diff against the default base. -/
inductive HostAnswer
  /-- `getDefaultBaseRef` and `getDiffStats` of this host -/
  | localDiff (base : Bool) (workflowFiles : Option (List String))
  /-- `resolveGitDiffStats` of another host; an old agent leaves `baseResolved` out -/
  | remoteDiff (workflowFiles : Option (List String)) (baseResolved : Option Bool)
  | unreachable
  deriving DecidableEq

def listWorkflowFiles : HostAnswer → Except FilesUnknown (List String)
  | .localDiff false _ => .error .noBase
  | .localDiff true none => .error .host
  | .localDiff true (some files) => .ok files
  | .remoteDiff files baseResolved =>
    if baseResolved ≠ some true ∧ (files.getD []).length = 0 then
      .error (if baseResolved = some false then .noBase else .host)
    else match files with
      | none => .error .host
      | some files => .ok files
  | .unreachable => .error .host

/-- The answer is what git reports for a branch that changes the files `own`: without a base
an agent diffs `HEAD`, and lists nothing. -/
def HostAnswer.reports (own : List String) : HostAnswer → Bool
  | .localDiff _ (some files) => files = own
  | .remoteDiff (some files) baseResolved => files = own ∨ (baseResolved ≠ some true ∧ files = [])
  | _ => true

/-- A list that counts is the list of the branch. -/
theorem listWorkflowFiles_ok {own files : List String} {a : HostAnswer} (ha : a.reports own)
    (h : listWorkflowFiles a = .ok files) : files = own := by
  unfold listWorkflowFiles at h
  split at h
  · cases h
  · cases h
  · cases h
    exact of_decide_eq_true ha
  · rename_i listed baseResolved
    split at h
    · cases h
    · rename_i hbase
      cases listed with
      | none => cases h
      | some listed =>
        cases h
        rcases of_decide_eq_true ha with heq | ⟨hne, hnil⟩
        · exact heq
        · exact absurd ⟨hne, by rw [Option.getD_some, hnil, List.length_nil]⟩ hbase
  · cases h

/-- `evaluateWorkflowGate` up to the read of the head: a verdict, or the files it goes on
with. -/
def gateOfFiles : Except FilesUnknown (List String) → Gate ⊕ List String
  | .error why => .inl (.unverified why.detail)
  | .ok [] => .inl .clear
  | .ok (file :: files) => .inr (file :: files)

/-- The rest of `evaluateWorkflowGate`; an unreadable head has the empty `sha`. -/
def gateOfHead (task : TaskRow) (files : List String) (sha : String) : Gate :=
  if sha ≠ "" ∧ some sha = task.workflowApprovedSha then .approved sha
  else .held { sha, files }

theorem gateOfFiles_inl {l : Except FilesUnknown (List String)} {gate : Gate}
    (h : gateOfFiles l = .inl gate) :
    (∃ detail, gate = .unverified detail) ∨ gate = .clear ∧ l = .ok [] := by
  unfold gateOfFiles at h
  split at h
  · cases h
    exact .inl ⟨_, rfl⟩
  · cases h
    exact .inr ⟨rfl, rfl⟩
  · cases h

theorem gateOfFiles_inr {l : Except FilesUnknown (List String)} {files : List String}
    (h : gateOfFiles l = .inr files) : l = .ok files := by
  unfold gateOfFiles at h
  split at h <;> cases h
  rfl

theorem gateOfHead_approved {task : TaskRow} {files : List String} {sha : String}
    (h : sha ≠ "" ∧ some sha = task.workflowApprovedSha) :
    gateOfHead task files sha = .approved sha := if_pos h

theorem gateOfHead_held {task : TaskRow} {files : List String} {sha : String}
    (h : ¬ (sha ≠ "" ∧ some sha = task.workflowApprovedSha)) :
    gateOfHead task files sha = .held { sha, files } := if_neg h

/-! ## The calls -/

/-- How far `evaluateWorkflowGate` has come: waiting for a read, or for its turn after
one. -/
inductive Look
  | listing
  | listed (files : Except FilesUnknown (List String))
  | resolving (files : List String)
  | resolved (files : List String) (sha : String)
  deriving DecidableEq

/-- The refusals of a promotion; those that the gate has no part in are one. -/
inductive PromoteFailure
  | workflowApprovalRequired (detail : String)
  | pushFailed (detail : String)
  | other
  deriving DecidableEq

inductive ApproveWorkflowResult
  | ok (sha : String)
  | nothingHeld
  | stale (change : WorkflowChange)
  | unreadable (change : Option WorkflowChange)
  | thrown
  deriving DecidableEq

inductive Outcome
  | pushed
  | refused (failure : PromoteFailure)
  | answered (result : ApproveWorkflowResult)
  deriving DecidableEq

/-- `openDraftPRForTask` or `promoteTaskToPR` up to the push, or `approveWorkflowChange` with
the hold that the operator was shown. -/
inductive Job
  | promote
  | approve (shown : WorkflowChange)
  deriving DecidableEq

inductive Phase
  | gate (recheck : Bool) (look : Look)
  /-- `resolveWorkflowWriteToken` -/
  | minting
  /-- `resolveGitHubToken`, and the base branch of a new pull request -/
  | tokens (elevated : Bool)
  /-- `pushForPromotion`, until git takes the head -/
  | pushing (elevated : Bool)
  | ended (outcome : Outcome)
  deriving DecidableEq

/-- A call, with the task row it was given. -/
structure Call where
  task : TaskRow
  job : Job
  phase : Phase
  deriving DecidableEq

/-- The head that git pushed, with which token, and the approval in the row then. -/
structure Push where
  sha : String
  elevated : Bool
  approvedSha : Option String
  deriving DecidableEq

/-- A commit that was written to the row as approved, and the hold it was approved on. -/
structure Approval where
  sha : String
  shown : WorkflowChange
  deriving DecidableEq

/-- The branch, the row, the calls, and what has happened so far. -/
structure Sys where
  head : String
  /-- every commit that has been the head -/
  past : List String
  row : TaskRow
  calls : List Call
  /-- every hold that the row has shown -/
  holds : List WorkflowChange
  pushes : List Push
  approvals : List Approval
  deriving DecidableEq

namespace Sys

/-- A task with a worktree, whose branch is at `head`. -/
def start (head : String) : Sys :=
  { head, past := [head], row := ⟨none, none⟩, calls := [], holds := [], pushes := [],
    approvals := [] }

def recordWorkflowHold (s : Sys) (change : WorkflowChange) : Sys :=
  { s with row := { s.row with workflowChange := some change }, holds := change :: s.holds }

/-- `clearWorkflowHold`, which looks at the row that the call was given. -/
def clearWorkflowHold (s : Sys) (task : TaskRow) : Sys :=
  if task.workflowChange = none then s
  else { s with row := { s.row with workflowChange := none } }

/-- The write of `approveWorkflowChange`. -/
def writeApproval (s : Sys) (sha : String) (shown : WorkflowChange) : Sys :=
  { s with
    row := ⟨none, some sha⟩
    approvals := ⟨sha, shown⟩ :: s.approvals }

/-- The text of `holdWorkflowChange`. -/
def holdDetail (change : WorkflowChange) : String :=
  "This branch changes " ++ ", ".intercalate change.files ++
    " — approve the workflow change to push it"

/-- What `preparePromotion` makes of a verdict: of the first one, or of the one after the
elevated token was minted. -/
def promoteGate (s : Sys) (task : TaskRow) (recheck : Bool) : Gate → Sys × Phase
  | .held change =>
    (s.recordWorkflowHold change,
      .ended (.refused (.workflowApprovalRequired (holdDetail change))))
  | .unverified detail => (s, .ended (.refused (.pushFailed detail)))
  | .approved _ => (s, if recheck then .tokens true else .minting)
  | .clear => (s.clearWorkflowHold task, .tokens false)

/-- What `approveWorkflowChange` makes of a verdict. -/
def approveGate (s : Sys) (task : TaskRow) (shown : WorkflowChange) : Gate → Sys × Phase
  | .unverified _ => (s, .ended (.answered (.unreadable none)))
  | .clear => (s.clearWorkflowHold task, .ended (.answered .nothingHeld))
  | .approved sha => (s.clearWorkflowHold task, .ended (.answered (.ok sha)))
  | .held change =>
    if change.sha = "" then (s, .ended (.answered (.unreadable (some change))))
    else if change.sha ≠ shown.sha then
      (s.recordWorkflowHold change, .ended (.answered (.stale change)))
    else (s.writeApproval change.sha shown, .ended (.answered (.ok change.sha)))

def concludeGate (s : Sys) (c : Call) (recheck : Bool) (gate : Gate) : Sys × Phase :=
  match c.job with
  | .promote => s.promoteGate c.task recheck gate
  | .approve shown => s.approveGate c.task shown gate

/-- The call `i` goes on to a phase. -/
def put (s : Sys) (i : ℕ) (c : Call) (phase : Phase) : Sys :=
  { s with calls := s.calls.set i { c with phase } }

/-- What a failed read or request makes of a call. -/
def failure : Job → Outcome
  | .promote => .refused .other
  | .approve _ => .answered .thrown

end Sys

/-- What can happen to a call next. -/
inductive Answer
  | listed (answer : HostAnswer)
  | resolved (readable : Bool)
  /-- the call gets its turn after a read -/
  | resumed
  | minted (ok : Bool)
  | tokens (ok : Bool)
  | push
  | failed
  deriving DecidableEq

inductive Event
  /-- the worker commits -/
  | commit (sha : String)
  | promote
  | approve (shown : WorkflowChange)
  | call (i : ℕ) (answer : Answer)
  deriving DecidableEq

variable (own : String → List String)

/-- One answer to one call. `own` lists the workflow files that a commit changes against the
default base; a read reports the head of the moment at which it is answered. -/
def Sys.answer (s : Sys) (i : ℕ) (c : Call) : Phase → Answer → Option Sys
  | .gate recheck .listing, .listed a =>
    if a.reports (own s.head) then
      some (s.put i c (.gate recheck (.listed (listWorkflowFiles a))))
    else none
  | .gate recheck (.listed l), .resumed =>
    match gateOfFiles l with
    | .inl gate =>
      some ((s.concludeGate c recheck gate).1.put i c (s.concludeGate c recheck gate).2)
    | .inr files => some (s.put i c (.gate recheck (.resolving files)))
  | .gate recheck (.resolving files), .resolved readable =>
    some (s.put i c (.gate recheck (.resolved files (if readable then s.head else ""))))
  | .gate recheck (.resolved files sha), .resumed =>
    let gate := gateOfHead c.task files sha
    some ((s.concludeGate c recheck gate).1.put i c (s.concludeGate c recheck gate).2)
  | .minting, .minted ok =>
    some (s.put i c (if ok then .gate true .listing else .ended (.refused .other)))
  | .tokens elevated, .tokens ok =>
    some (s.put i c (if ok then .pushing elevated else .ended (.refused .other)))
  | .pushing elevated, .push =>
    some (Sys.put { s with
      pushes := ⟨s.head, elevated, s.row.workflowApprovedSha⟩ :: s.pushes } i c (.ended .pushed))
  | .ended _, _ => none
  | _, .failed => some (s.put i c (.ended (Sys.failure c.job)))
  | _, _ => none

/-- One event. A commit has a hash of its own. -/
def step (s : Sys) : Event → Option Sys
  | .commit sha =>
    if sha ≠ "" ∧ sha ∉ s.past then some { s with head := sha, past := sha :: s.past } else none
  | .promote =>
    some { s with calls := s.calls ++ [⟨s.row, .promote, .gate false .listing⟩] }
  | .approve shown =>
    if shown ∈ s.holds then
      let phase := if s.row.workflowChange = none then .ended (.answered .nothingHeld)
        else .gate false .listing
      some { s with calls := s.calls ++ [⟨s.row, .approve shown, phase⟩] }
    else none
  | .call i a =>
    match s.calls[i]? with
    | none => none
    | some c => s.answer own i c c.phase a

/-! ## The property and the condition -/

/-- Only an approved head is pushed with workflow changes, and with the elevated token. -/
def Push.Covered (p : Push) : Prop :=
  own p.sha = [] ∨ p.approvedSha = some p.sha ∧ p.elevated = true

/-- The operator was shown the files of the commit. -/
def Approval.Seen (a : Approval) : Prop := a.shown.sha = a.sha ∧ a.shown.files = own a.sha

structure Sys.Covers (s : Sys) : Prop where
  pushes : ∀ p ∈ s.pushes, p.Covered own
  approvals : ∀ a ∈ s.approvals, a.Seen own

/-- The commit `sha` does not come between two steps of the call that belong together. -/
def Phase.Admits (task : TaskRow) (head sha : String) : Phase → Prop
  -- the list of files was read, the head was not
  | .gate _ (.listed (.ok _)) | .gate _ (.resolving _) => own sha = own head
  -- the verdict before the push is that the head is approved
  | .gate true (.resolved _ read) => ¬ (read ≠ "" ∧ some read = task.workflowApprovedSha)
  | .tokens false | .pushing false => own sha = []
  | .tokens true | .pushing true => False
  | .gate _ .listing | .gate _ (.listed (.error _)) | .gate false (.resolved _ _)
  | .minting | .ended _ => True

instance (task : TaskRow) (head sha : String) :
    ∀ phase : Phase, Decidable (phase.Admits own task head sha)
  | .gate _ (.listed (.ok _)) => inferInstanceAs (Decidable (_ = _))
  | .gate _ (.resolving _) => inferInstanceAs (Decidable (_ = _))
  | .gate true (.resolved _ _) => inferInstanceAs (Decidable (¬ _))
  | .tokens false => inferInstanceAs (Decidable (_ = _))
  | .pushing false => inferInstanceAs (Decidable (_ = _))
  | .tokens true => isFalse id
  | .pushing true => isFalse id
  | .gate _ .listing => isTrue trivial
  | .gate _ (.listed (.error _)) => isTrue trivial
  | .gate false (.resolved _ _) => isTrue trivial
  | .minting => isTrue trivial
  | .ended _ => isTrue trivial

/-- The approval that a call may write next is not written over the approval of a newer
head. -/
def Sys.Timely (s : Sys) : Job → Phase → Prop
  | .approve _, .gate _ (.resolved _ read) =>
    read = s.head ∨ s.row.workflowApprovedSha ≠ some s.head
  | _, _ => True

instance (s : Sys) : ∀ (job : Job) (phase : Phase), Decidable (s.Timely job phase)
  | .approve _, .gate _ (.resolved _ _) => inferInstanceAs (Decidable (_ ∨ _))
  | .promote, _ => isTrue trivial
  | .approve _, .gate _ .listing => isTrue trivial
  | .approve _, .gate _ (.listed _) => isTrue trivial
  | .approve _, .gate _ (.resolving _) => isTrue trivial
  | .approve _, .minting => isTrue trivial
  | .approve _, .tokens _ => isTrue trivial
  | .approve _, .pushing _ => isTrue trivial
  | .approve _, .ended _ => isTrue trivial

/-- The condition on a step: no commit lands between the two reads of a gate unless it
leaves the list of workflow files as it is, none that has workflow files between the list of
a clear verdict and the push, none at all between the last reading of an approved head and
the push; and an approval is not written over that of a newer head. -/
def Safe (s : Sys) : Event → Prop
  | .commit sha => ∀ c ∈ s.calls, c.phase.Admits own c.task s.head sha
  | .call i .resumed => ∀ c ∈ s.calls[i]?, s.Timely c.job c.phase
  | _ => True

instance (s : Sys) : ∀ e : Event, Decidable (Safe own s e)
  | .commit sha => inferInstanceAs
      (Decidable (∀ c ∈ s.calls, c.phase.Admits own c.task s.head sha))
  | .call i .resumed => inferInstanceAs (Decidable (∀ c ∈ s.calls[i]?, s.Timely c.job c.phase))
  | .promote => isTrue trivial
  | .approve _ => isTrue trivial
  | .call _ (.listed _) => isTrue trivial
  | .call _ (.resolved _) => isTrue trivial
  | .call _ (.minted _) => isTrue trivial
  | .call _ (.tokens _) => isTrue trivial
  | .call _ .push => isTrue trivial
  | .call _ .failed => isTrue trivial

/-! ## The invariant -/

namespace Sys

variable {own} {s s' : Sys} {c : Call} {i : ℕ}

/-- What a call knows of the branch in its phase. -/
def Knows (own : String → List String) (s : Sys) (task : TaskRow) : Phase → Prop
  | .gate _ (.listed (.ok files)) | .gate _ (.resolving files) => files = own s.head
  | .gate recheck (.resolved files sha) =>
    (sha ≠ "" → files = own sha ∧ sha ∈ s.past) ∧
      (recheck = true → sha ≠ "" ∧ some sha = task.workflowApprovedSha → sha = s.head)
  | .tokens false | .pushing false => own s.head = []
  | .tokens true | .pushing true => task.workflowApprovedSha = some s.head
  | _ => True

/-- The invariant of one call. -/
structure CallOk (own : String → List String) (s : Sys) (c : Call) : Prop where
  past : ∀ sha ∈ c.task.workflowApprovedSha, sha ∈ s.past
  row : c.task.workflowApprovedSha = some s.head → s.row.workflowApprovedSha = some s.head
  shown : ∀ shown, c.job = .approve shown → shown ∈ s.holds
  knows : Knows own s c.task c.phase

structure Inv (own : String → List String) (s : Sys) : Prop where
  head : s.head ∈ s.past
  past : ∀ sha ∈ s.row.workflowApprovedSha, sha ∈ s.past
  holds : ∀ change ∈ s.holds, change.sha ≠ "" → change.files = own change.sha
  calls : ∀ c ∈ s.calls, CallOk own s c
  covers : s.Covers own

/-- What calls know of the system is the same in both. -/
structure Agrees (s s' : Sys) : Prop where
  head : s'.head = s.head
  past : s'.past = s.past
  row : s'.row.workflowApprovedSha = s.row.workflowApprovedSha
  holds : s.holds ⊆ s'.holds

theorem Knows.agrees {task : TaskRow} {phase : Phase} (h : Knows own s task phase)
    (ha : Agrees s s') : Knows own s' task phase := by
  unfold Knows at h ⊢
  rw [ha.head, ha.past]
  exact h

theorem CallOk.agrees (h : CallOk own s c) (ha : Agrees s s') : CallOk own s' c where
  past := by rw [ha.past]; exact h.past
  row := by rw [ha.head, ha.row]; exact h.row
  shown := fun shown hjob => ha.holds (h.shown shown hjob)
  knows := h.knows.agrees ha

theorem CallOk.phase (h : CallOk own s c) {phase : Phase} (hk : Knows own s c.task phase) :
    CallOk own s { c with phase } where
  past := h.past
  row := h.row
  shown := h.shown
  knows := hk

/-- A call that is in order goes on to a phase in order. -/
theorem Inv.put (h : Inv own s) (hc : CallOk own s c) {phase : Phase}
    (hk : Knows own s c.task phase) : Inv own (s.put i c phase) := by
  have hagrees : Agrees s (s.put i c phase) := ⟨rfl, rfl, rfl, List.Subset.refl _⟩
  refine ⟨h.head, h.past, h.holds, fun c' hc' => ?_, ⟨h.covers.pushes, h.covers.approvals⟩⟩
  rcases List.mem_or_eq_of_mem_set hc' with hmem | rfl
  · exact (h.calls c' hmem).agrees hagrees
  · exact (hc.phase hk).agrees hagrees

/-! ## The writes to the row -/

theorem agrees_recordWorkflowHold (s : Sys) (change : WorkflowChange) :
    Agrees s (s.recordWorkflowHold change) := ⟨rfl, rfl, rfl, List.subset_cons_self _ _⟩

theorem agrees_clearWorkflowHold (s : Sys) (task : TaskRow) :
    Agrees s (s.clearWorkflowHold task) := by
  unfold clearWorkflowHold
  split
  · exact ⟨rfl, rfl, rfl, List.Subset.refl _⟩
  · exact ⟨rfl, rfl, rfl, List.Subset.refl _⟩

theorem Inv.recordWorkflowHold (h : Inv own s) {change : WorkflowChange}
    (hchange : change.sha ≠ "" → change.files = own change.sha) :
    Inv own (s.recordWorkflowHold change) where
  head := h.head
  past := h.past
  holds := List.forall_mem_cons.2 ⟨hchange, h.holds⟩
  calls := fun c hc => (h.calls c hc).agrees (agrees_recordWorkflowHold s change)
  covers := ⟨h.covers.pushes, h.covers.approvals⟩

theorem Inv.clearWorkflowHold (h : Inv own s) (task : TaskRow) :
    Inv own (s.clearWorkflowHold task) := by
  have hagrees := agrees_clearWorkflowHold s task
  unfold Sys.clearWorkflowHold at hagrees ⊢
  split
  · exact h
  · rename_i hnone
    rw [if_neg hnone] at hagrees
    exact ⟨h.head, h.past, h.holds, fun c hc => (h.calls c hc).agrees hagrees,
      ⟨h.covers.pushes, h.covers.approvals⟩⟩

/-- No call was given a row that approves the head and differs from the row now, unless the
approval is written over that of the head. -/
theorem CallOk.writeApproval (hc : CallOk own s c) {sha : String} {shown : WorkflowChange}
    (htimely : sha = s.head ∨ s.row.workflowApprovedSha ≠ some s.head) :
    CallOk own (s.writeApproval sha shown) c where
  past := hc.past
  row := fun happroved => by
    rcases htimely with rfl | hrow
    · rfl
    · exact absurd (hc.row happroved) hrow
  shown := hc.shown
  knows := hc.knows

theorem Inv.writeApproval (h : Inv own s) {sha : String} {shown : WorkflowChange}
    (hpast : sha ∈ s.past) (hne : sha ≠ "") (hshown : shown ∈ s.holds) (heq : shown.sha = sha)
    (htimely : sha = s.head ∨ s.row.workflowApprovedSha ≠ some s.head) :
    Inv own (s.writeApproval sha shown) where
  head := h.head
  past := by
    rintro _ ⟨⟩
    exact hpast
  holds := h.holds
  calls := fun c hc => (h.calls c hc).writeApproval htimely
  covers := by
    have hfiles := h.holds shown hshown (heq ▸ hne)
    rw [heq] at hfiles
    exact ⟨h.covers.pushes, List.forall_mem_cons.2 ⟨⟨heq, hfiles⟩, h.covers.approvals⟩⟩

/-! ## The verdicts -/

/-- What a verdict tells of the branch. -/
def Tells (own : String → List String) (s : Sys) (task : TaskRow) (recheck : Bool) : Gate → Prop
  | .clear => own s.head = []
  | .unverified _ => True
  | .approved _ => recheck = true → task.workflowApprovedSha = some s.head
  | .held change => change.sha ≠ "" → change.files = own change.sha ∧ change.sha ∈ s.past

theorem tells_gateOfFiles {task : TaskRow} {recheck : Bool}
    {l : Except FilesUnknown (List String)} {gate : Gate}
    (hk : Knows own s task (.gate recheck (.listed l))) (h : gateOfFiles l = .inl gate) :
    Tells own s task recheck gate := by
  rcases gateOfFiles_inl h with ⟨detail, rfl⟩ | ⟨rfl, rfl⟩
  · trivial
  · exact hk.symm

theorem tells_gateOfHead {task : TaskRow} {recheck : Bool} {files : List String} {sha : String}
    (hk : Knows own s task (.gate recheck (.resolved files sha))) :
    Tells own s task recheck (gateOfHead task files sha) := by
  by_cases h : sha ≠ "" ∧ some sha = task.workflowApprovedSha
  · rw [gateOfHead_approved h]
    intro hrecheck
    rw [← hk.2 hrecheck h]
    exact h.2.symm
  · rw [gateOfHead_held h]
    exact hk.1

/-- The call goes on from a verdict: the writes and the next phase are in order. -/
structure Concludes (own : String → List String) (c : Call) (next : Sys × Phase) : Prop where
  inv : Inv own next.1
  call : CallOk own next.1 c
  knows : Knows own next.1 c.task next.2

theorem Inv.promoteGate (h : Inv own s) (hc : CallOk own s c) {recheck : Bool} {gate : Gate}
    (ht : Tells own s c.task recheck gate) :
    Concludes own c (s.promoteGate c.task recheck gate) := by
  cases gate with
  | clear =>
    have hagrees := agrees_clearWorkflowHold s c.task
    refine ⟨h.clearWorkflowHold c.task, hc.agrees hagrees, ?_⟩
    show own (s.clearWorkflowHold c.task).head = []
    rw [hagrees.head]
    exact ht
  | unverified detail => exact ⟨h, hc, trivial⟩
  | approved sha =>
    refine ⟨h, hc, ?_⟩
    cases recheck with
    | false => trivial
    | true => exact ht rfl
  | held change =>
    exact ⟨h.recordWorkflowHold fun hne => (ht hne).1,
      hc.agrees (agrees_recordWorkflowHold s change), trivial⟩

theorem Inv.approveGate (h : Inv own s) (hc : CallOk own s c) {shown : WorkflowChange}
    (hjob : c.job = .approve shown) {recheck : Bool} {gate : Gate}
    (ht : Tells own s c.task recheck gate)
    (htimely : ∀ change, gate = .held change →
      change.sha = s.head ∨ s.row.workflowApprovedSha ≠ some s.head) :
    Concludes own c (s.approveGate c.task shown gate) := by
  cases gate with
  | clear =>
    exact ⟨h.clearWorkflowHold c.task, hc.agrees (agrees_clearWorkflowHold s c.task), trivial⟩
  | unverified detail => exact ⟨h, hc, trivial⟩
  | approved sha =>
    exact ⟨h.clearWorkflowHold c.task, hc.agrees (agrees_clearWorkflowHold s c.task), trivial⟩
  | held change =>
    unfold Sys.approveGate
    simp only []
    split
    · exact ⟨h, hc, trivial⟩
    · rename_i hne
      obtain ⟨hfiles, hpast⟩ := ht hne
      split
      · exact ⟨h.recordWorkflowHold fun _ => hfiles,
          hc.agrees (agrees_recordWorkflowHold s change), trivial⟩
      · rename_i heq
        have hsha : change.sha = shown.sha := not_not.1 heq
        have htime := htimely change rfl
        exact ⟨h.writeApproval hpast hne (hc.shown shown hjob) hsha.symm htime,
          hc.writeApproval htime, trivial⟩

theorem Inv.concludeGate (h : Inv own s) (hc : CallOk own s c) {recheck : Bool} {gate : Gate}
    (ht : Tells own s c.task recheck gate)
    (htimely : ∀ shown, c.job = .approve shown → ∀ change, gate = .held change →
      change.sha = s.head ∨ s.row.workflowApprovedSha ≠ some s.head) :
    Inv own ((s.concludeGate c recheck gate).1.put i c (s.concludeGate c recheck gate).2) := by
  have hnext : Concludes own c (s.concludeGate c recheck gate) := by
    unfold Sys.concludeGate
    cases hjob : c.job with
    | promote => exact h.promoteGate hc ht
    | approve shown => exact h.approveGate hc hjob ht (htimely shown hjob)
  exact hnext.inv.put hnext.call hnext.knows

/-- A read of the list leaves the head as it is. -/
theorem Inv.listed (h : Inv own s) (hc : CallOk own s c) {a : HostAnswer}
    (ha : a.reports (own s.head)) (recheck : Bool) :
    Inv own (s.put i c (.gate recheck (.listed (listWorkflowFiles a)))) := by
  refine h.put hc ?_
  cases hl : listWorkflowFiles a with
  | error why => trivial
  | ok files => exact listWorkflowFiles_ok ha hl

theorem Inv.resolved (h : Inv own s) (hc : CallOk own s c) {recheck : Bool}
    {files : List String} (hk : files = own s.head) (readable : Bool) :
    Inv own (s.put i c (.gate recheck (.resolved files (if readable then s.head else "")))) := by
  refine h.put hc ?_
  cases readable with
  | false => exact ⟨fun hne => absurd rfl hne, fun _ h => absurd rfl h.1⟩
  | true => exact ⟨fun _ => ⟨hk, h.head⟩, fun _ _ => rfl⟩

/-- Git takes the head: nothing was committed since the verdict that matters. -/
theorem Inv.push (h : Inv own s) (hc : CallOk own s c) {elevated : Bool}
    (hk : Knows own s c.task (.pushing elevated)) :
    Inv own (Sys.put { s with
      pushes := ⟨s.head, elevated, s.row.workflowApprovedSha⟩ :: s.pushes } i c
        (.ended .pushed)) := by
  have hagrees : Agrees s { s with
      pushes := ⟨s.head, elevated, s.row.workflowApprovedSha⟩ :: s.pushes } :=
    ⟨rfl, rfl, rfl, List.Subset.refl _⟩
  have hcovered : Push.Covered own ⟨s.head, elevated, s.row.workflowApprovedSha⟩ := by
    cases elevated with
    | false => exact .inl hk
    | true => exact .inr ⟨hc.row hk, rfl⟩
  have hinv : Inv own { s with
      pushes := ⟨s.head, elevated, s.row.workflowApprovedSha⟩ :: s.pushes } :=
    ⟨h.head, h.past, h.holds, fun c' hc' => (h.calls c' hc').agrees hagrees,
      ⟨List.forall_mem_cons.2 ⟨hcovered, h.covers.pushes⟩, h.covers.approvals⟩⟩
  exact hinv.put (hc.agrees hagrees) trivial

/-! ## The steps -/

/-- One answer keeps the invariant, unless it lets a late approval be written. -/
theorem Inv.answer (h : Inv own s) (hc : CallOk own s c) {a : Answer}
    (htimely : a = .resumed → s.Timely c.job c.phase) (hs : s.answer own i c c.phase a = some s') :
    Inv own s' := by
  have hk := hc.knows
  unfold Sys.answer at hs
  split at hs
  case h_1 recheck answer hphase =>
    split at hs
    · rename_i ha
      cases hs
      exact h.listed hc ha recheck
    · cases hs
  case h_2 recheck l hphase =>
    rw [hphase] at hk
    split at hs
    · rename_i gate hgate
      cases hs
      refine h.concludeGate hc (tells_gateOfFiles hk hgate) fun shown hjob change heq => ?_
      rcases gateOfFiles_inl hgate with ⟨detail, rfl⟩ | ⟨rfl, -⟩ <;> cases heq
    · rename_i files hfiles
      cases hs
      rw [gateOfFiles_inr hfiles] at hk
      exact h.put hc hk
  case h_3 recheck files readable hphase =>
    cases hs
    rw [hphase] at hk
    exact h.resolved hc hk readable
  case h_4 recheck files sha hphase =>
    cases hs
    rw [hphase] at hk
    refine h.concludeGate hc (tells_gateOfHead hk) fun shown hjob change heq => ?_
    have htime := htimely rfl
    rw [hjob, hphase] at htime
    have hsha : change.sha = sha := by
      unfold gateOfHead at heq
      split at heq <;> cases heq
      rfl
    rw [hsha]
    exact htime
  case h_5 ok hphase =>
    cases hs
    cases ok <;> exact h.put hc trivial
  case h_6 elevated ok hphase =>
    cases hs
    rw [hphase] at hk
    cases ok with
    | false => exact h.put hc trivial
    | true =>
      refine h.put hc ?_
      cases elevated <;> exact hk
  case h_7 elevated hphase =>
    cases hs
    rw [hphase] at hk
    exact h.push hc hk
  case h_8 => cases hs
  case h_9 =>
    cases hs
    exact h.put hc trivial
  case h_10 => cases hs

/-- What a call knows outlasts a commit that it admits. -/
theorem CallOk.commit (hc : CallOk own s c) {sha : String} (hfresh : sha ∉ s.past)
    (hadmits : c.phase.Admits own c.task s.head sha) :
    CallOk own { s with head := sha, past := sha :: s.past } c where
  past := fun sha' h => List.mem_cons_of_mem _ (hc.past sha' h)
  row := fun happroved => absurd (hc.past sha happroved) hfresh
  shown := hc.shown
  knows := by
    have hk := hc.knows
    obtain ⟨task, job, phase⟩ := c
    cases phase with
    | gate recheck look =>
      cases look with
      | listing => trivial
      | listed l =>
        cases l with
        | error why => trivial
        | ok files => exact hk.trans hadmits.symm
      | resolving files => exact hk.trans hadmits.symm
      | resolved files read =>
        refine ⟨fun hne => ⟨(hk.1 hne).1, List.mem_cons_of_mem _ (hk.1 hne).2⟩, ?_⟩
        rintro rfl happroved
        exact absurd happroved hadmits
    | minting => trivial
    | tokens elevated =>
      cases elevated with
      | false => exact hadmits
      | true => exact hadmits.elim
    | pushing elevated =>
      cases elevated with
      | false => exact hadmits
      | true => exact hadmits.elim
    | ended outcome => trivial

theorem Inv.commit (h : Inv own s) {sha : String} (hfresh : sha ∉ s.past)
    (hadmits : ∀ c ∈ s.calls, c.phase.Admits own c.task s.head sha) :
    Inv own { s with head := sha, past := sha :: s.past } where
  head := List.mem_cons_self
  past := fun sha' h' => List.mem_cons_of_mem _ (h.past sha' h')
  holds := h.holds
  calls := fun c hc => (h.calls c hc).commit hfresh (hadmits c hc)
  covers := ⟨h.covers.pushes, h.covers.approvals⟩

/-- A new call is given the row as it is. -/
theorem Inv.addCall (h : Inv own s) {job : Job} {phase : Phase}
    (hshown : ∀ shown, job = .approve shown → shown ∈ s.holds)
    (hk : Knows own s s.row phase) :
    Inv own { s with calls := s.calls ++ [⟨s.row, job, phase⟩] } := by
  have hagrees : Agrees s { s with calls := s.calls ++ [⟨s.row, job, phase⟩] } :=
    ⟨rfl, rfl, rfl, List.Subset.refl _⟩
  refine ⟨h.head, h.past, h.holds, fun c hc => ?_, ⟨h.covers.pushes, h.covers.approvals⟩⟩
  rcases List.mem_append.1 hc with hmem | hmem
  · exact (h.calls c hmem).agrees hagrees
  · obtain rfl := List.mem_singleton.1 hmem
    exact CallOk.agrees ⟨h.past, fun happroved => happroved, hshown, hk⟩ hagrees

theorem Inv.step (h : Inv own s) {e : Event} (hsafe : Safe own s e)
    (hs : step own s e = some s') : Inv own s' := by
  cases e with
  | commit sha =>
    unfold WorkflowGate.step at hs
    simp only [] at hs
    split at hs
    · rename_i hfresh
      cases hs
      exact h.commit hfresh.2 hsafe
    · cases hs
  | promote =>
    cases hs
    exact h.addCall nofun trivial
  | approve shown =>
    unfold WorkflowGate.step at hs
    simp only [] at hs
    split at hs
    · rename_i hshown
      cases hs
      refine h.addCall (fun _ hjob => ?_) ?_
      · cases hjob
        exact hshown
      · split <;> trivial
    · cases hs
  | call i a =>
    unfold WorkflowGate.step at hs
    simp only [] at hs
    split at hs
    · cases hs
    · rename_i c hc
      refine h.answer (h.calls c (List.mem_of_getElem? hc)) (fun ha => ?_) hs
      subst ha
      exact hsafe c hc

theorem inv_start (head : String) : Inv own (start head) where
  head := List.mem_singleton_self _
  past := nofun
  holds := nofun
  calls := nofun
  covers := ⟨nofun, nofun⟩

end Sys

/-! ## What is pushed and approved -/

/-- **An approval covers what is pushed.** Along every run whose steps are safe, a head is
pushed only when it changes no workflow file, or when it is the approved one and goes out
with the elevated token; and only a commit whose files the operator was shown is approved. -/
theorem approval_covers_push (head : String) (run : List Event)
    (h : Run.Meets (step own) (Safe own) (Sys.start head) run) :
    Run.Along (step own) (Sys.Covers own) (Sys.start head) run :=
  Run.along_of_invariant (fun _ _ _ hI hsafe hs => hI.step hsafe hs) (fun _ hI => hI.covers)
    (Sys.inv_start head) h

/-- A branch on which `a` changes one workflow file and `b` two. -/
def twoCommits (sha : String) : List String :=
  if sha = "a" then ["ci.yml"] else if sha = "b" then ["ci.yml", "release.yml"] else []

/-- The gate of a call sees the branch at `a`, from the list to the verdict. -/
def lookAt (i : ℕ) (files : List String) : List Event :=
  [.call i (.listed (.localDiff true (some files))), .call i .resumed,
    .call i (.resolved true), .call i .resumed]

/-- A held push, its approval, and the push with the elevated token. -/
theorem approval_covers_push_of_one :
    Run.Along (step twoCommits) (Sys.Covers twoCommits) (Sys.start "a")
      (.promote :: lookAt 0 ["ci.yml"] ++ .approve ⟨"a", ["ci.yml"]⟩ :: lookAt 1 ["ci.yml"] ++
        .promote :: lookAt 2 ["ci.yml"] ++ .call 2 (.minted true) :: lookAt 2 ["ci.yml"] ++
        [.call 2 (.tokens true), .call 2 .push, .commit "b"]) :=
  approval_covers_push twoCommits "a" _ (by decide)

/-- **A commit between two reads.** The worker commits between the list of files and the
read of the head, and the operator approves a commit with a file that was not shown; it
commits after a clear verdict, and a workflow change is pushed with the ordinary token. -/
theorem commit_between_reads :
    (∃ s, Run.play (step twoCommits) (Sys.start "a")
      ([.promote, .call 0 (.listed (.localDiff true (some ["ci.yml"]))), .call 0 .resumed,
        .commit "b", .call 0 (.resolved true), .call 0 .resumed,
        .approve ⟨"b", ["ci.yml"]⟩] ++ lookAt 1 ["ci.yml", "release.yml"]) = some s ∧
      s.row.workflowApprovedSha = some "b" ∧ ¬ s.Covers twoCommits) ∧
    ∃ s, Run.play (step twoCommits) (Sys.start "c")
      [.promote, .call 0 (.listed (.localDiff true (some []))), .call 0 .resumed, .commit "a",
        .call 0 (.tokens true), .call 0 .push] = some s ∧
      s.pushes = [⟨"a", false, none⟩] ∧ ¬ s.Covers twoCommits := by
  constructor
  · refine ⟨_, rfl, rfl, fun h => ?_⟩
    have hseen := (h.approvals ⟨"b", ⟨"b", ["ci.yml"]⟩⟩ (List.mem_singleton_self _)).2
    exact absurd hseen (by decide)
  · refine ⟨_, rfl, rfl, fun h => ?_⟩
    rcases h.pushes ⟨"a", false, none⟩ (List.mem_singleton_self _) with hnil | ⟨hnone, -⟩
    · exact absurd hnil (by decide)
    · cases hnone

end WorkflowGate
end Mullion
