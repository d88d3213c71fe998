import Mullion.Task.Claim
import Mullion.Task.Gate

/-!
# Auto-claim

The poll tick of `task-watcher.ts`, as one row lives through it: sightings of its issue, refreshes
of its blockers, and the sweep that claims ready tasks. No webhook is delivered. A refresh is
awaited, so it is in flight between the read of its parameters and its answer. A tick is never run
beside another one: no issue is sighted during a sweep. A task should be enqueued only on evidence
that it is not blocked, and the evidence should not be older than the last sighting
(`EnqueuesFresh`).

`Mark` is what happened, in order, and `Evidence` sums it up: the latest count of dependencies, and
whether a refresh has settled since. The sweep sees neither, it reads two columns of the row. So the
invariant is that what these columns say is `Backed` by the evidence, and every write keeps that but
one. A sighting that raises the count leaves the blockers that are stored as they were, and the gate
stays open on an answer to an earlier question (`second_blocker_is_missed`). `Careful` says that no
sighting does so. `enqueues_fresh_iff` has it that a run is safe, with all that may happen up to the
next sighting, exactly if its steps are careful.
-/

namespace Mullion
namespace AutoClaim

open Ingest

/-- `BLOCKER_RECHECK_TTL_MS`, and `BLOCKED_HOLD_RECHECK_MS`. -/
def blockerRecheckTtlMs : Nat := 5 * 60 * 1000

/-- `BLOCKER_DISPLAY_TTL_MS`. -/
def blockerDisplayTtlMs : Nat := 30 * 60 * 1000

/-- The blockers were last resolved at least `blockerRecheckTtlMs` ago, or never. -/
def isStale (row : IssueTask) (now : Nat) : Bool :=
  row.blockedByCheckedAt.all fun checkedAt => blockerRecheckTtlMs ≤ now - checkedAt

/-- A row that `resolveStaleTaskBlockers` selects. -/
def displayCandidate (row : IssueTask) (now : Nat) : Bool :=
  row.status ∉ [.done, .failed] && row.issueNumber ≠ none && row.dependencyCount ≠ some 0 &&
    row.blockedByCheckedAt.all (· < storedTime (now - blockerDisplayTtlMs))

/-- A row whose blockers `blockedHold` reads again. -/
def holdCandidate (row : IssueTask) (now : Nat) : Bool :=
  row.status = .claimed && row.issueNumber ≠ none && dependencyGate row ≠ .clear &&
    (dependencyGate row = .unresolved || isStale row now)

/-- A refresh that waits for GitHub. -/
structure Refresh where
  id : Nat
  params : RefreshParams
  deriving DecidableEq, Repr

/-- Where `autoClaimReadyTasks` is, as far as the row is concerned. -/
inductive Sweep
  | idle
  /-- The row is in the list of candidates, as it was read then. -/
  | listed (snapshot : IssueTask)
  /-- The loop waits for its own refresh of the row. -/
  | checking (id : Nat) (snapshot : IssueTask)
  deriving DecidableEq, Repr

inductive Mark
  | sighted (dependencyCount : Nat)
  | refreshed (foundNone : Bool)
  | enqueued
  deriving DecidableEq, Repr

structure State where
  row : Option IssueTask := none
  paused : Bool := false
  inflight : List Refresh := []
  nextRefresh : Nat := 0
  sweep : Sweep := .idle
  log : List Mark := []
  deriving DecidableEq, Repr

inductive Event
  | sighting (issue : TaskIssue)
  | display (now : Nat)
  | hold (now : Nat)
  /-- GitHub answers the refresh, or the request fails. -/
  | land (id now : Nat) (results : Option (List DependencyIssue))
  | pause (paused : Bool)
  /-- The sweep lists its candidates; `room` when there is a free slot. -/
  | sweep (room : Bool)
  /-- The loop reaches the row. `mayCheck`: the repository is known and the checks of this
  sweep are not used up; `accepted`: `enqueueTask` finds an agent it can use. -/
  | reach (now : Nat) (mayCheck accepted : Bool)
  | reread (now : Nat) (accepted : Bool)
  /-- The loop ends before it reaches the row. -/
  | leave
  /-- Somebody else writes the row, and leaves the columns of the issue alone. -/
  | write (task : Task)
  deriving DecidableEq, Repr

/-- What a tick reads of its surroundings. -/
structure Config where
  trustedLogins : List String := []
  taskId : Nat := 1
  projectId : Nat := 1
  projectCwd : String := "/src"
  owner : String := "owner"
  repo : String := "repo"

variable (config : Config)

namespace State

/-- A refresh starts with the count that was read. -/
def begin (s : State) (dependencyCount : Option Nat) (stampOnFailure : Bool) : State :=
  { s with
    inflight := s.inflight ++
      [⟨s.nextRefresh, config.owner, config.repo, dependencyCount, stampOnFailure⟩]
    nextRefresh := s.nextRefresh + 1 }

/-- `enqueueTask` with `auto`. -/
def enqueue (s : State) (now : Nat) (accepted : Bool) : State :=
  match s.row with
  | none => s
  | some row =>
    if row.status = .ready ∧ row.archivedAt = none ∧ accepted then
      let branchName := Claim.deriveTaskBranchName row.toTask
      let task := Claim.queuePatch now branchName
        (Claim.deriveWorktreePath config.projectCwd branchName) row.toTask
      { s with row := some { row with toTask := task }, log := s.log ++ [.enqueued] }
    else s

end State

def step (s : State) : Event → Option State
  | .sighting issue =>
    match s.sweep, issue.dependencyCount with
    | .idle, some dependencyCount =>
      some { s with
        row := upsertIssueTask config.trustedLogins config.taskId config.projectId issue s.row
        log := s.log ++ [.sighted dependencyCount] }
    | _, _ => none
  | .display now =>
    match s.row with
    | some row =>
      if displayCandidate row now then some (s.begin config row.dependencyCount true) else none
    | none => none
  | .hold now =>
    match s.row with
    | some row =>
      if holdCandidate row now then some (s.begin config row.dependencyCount false) else none
    | none => none
  | .land id now results =>
    match s.inflight.find? (·.id = id) with
    | some refresh =>
      some { s with
        row := s.row.map (refreshTaskBlockers refresh.params now results)
        inflight := s.inflight.filter (·.id ≠ id)
        log := s.log ++ [.refreshed (foundNone refresh.params results)] }
    | none => none
  | .pause paused => some { s with paused }
  | .sweep room =>
    match s.sweep, s.row with
    | .idle, some row =>
      if s.paused = false ∧ room ∧ row.status = .ready ∧ row.archivedAt = none then
        some { s with sweep := .listed row }
      else some s
    | _, _ => none
  | .reach now mayCheck accepted =>
    match s.sweep with
    | .listed snapshot =>
      if dependencyGate snapshot = .clear then
        some ({ s with sweep := .idle }.enqueue config now accepted)
      else if isStale snapshot now ∧ mayCheck ∧ snapshot.issueNumber ≠ none then
        some { s.begin config snapshot.dependencyCount false with
          sweep := .checking s.nextRefresh snapshot }
      else some { s with sweep := .idle }
    | _ => none
  | .reread now accepted =>
    match s.sweep with
    | .checking id snapshot =>
      if s.inflight.any (·.id = id) then none
      else if dependencyGate (s.row.getD snapshot) = .clear then
        some ({ s with sweep := .idle }.enqueue config now accepted)
      else some { s with sweep := .idle }
    | _ => none
  | .leave =>
    match s.sweep with
    | .listed _ => some { s with sweep := .idle }
    | _ => none
  | .write task =>
    some { s with
      row := s.row.map fun row => { row with toTask := { task with issueNumber := row.issueNumber } } }

/-! ## Evidence -/

/-- What the marks say: the count of the newest sighting, and whether a refresh that completed
since the count last rose from one sighting to the next found no open blocker and no
shortfall. -/
structure Evidence where
  latest : Option Nat := none
  settled : Bool := false
  deriving DecidableEq, Repr

def Evidence.add (e : Evidence) : Mark → Evidence
  | .sighted n => { latest := some n, settled := e.settled && e.latest.any (n ≤ ·) }
  | .refreshed true => { e with settled := true }
  | .refreshed false => e
  | .enqueued => e

def evidence (log : List Mark) : Evidence := log.foldl Evidence.add {}

/-- The evidence lets a task be enqueued. -/
def Evidence.Fresh (e : Evidence) : Prop := e.latest = some 0 ∨ e.settled = true

/-- Every enqueue had the evidence for it. -/
def EnqueuesFresh (log : List Mark) : Prop :=
  ∀ before rest, log = before ++ .enqueued :: rest → (evidence before).Fresh

/-- A sighting that raises the count finds a row whose blockers are not stored as resolved; when
its author is not trusted, so that nothing is stored, it finds a gate that is not clear. -/
def Careful (s : State) : Event → Prop
  | .sighting issue =>
    ∀ n, issue.dependencyCount = some n → ∀ m, (evidence s.log).latest = some m → m < n →
      ∀ row, s.row = some row →
        if isTrustedAuthor config.trustedLogins issue then row.blockedBy ≠ some []
        else dependencyGate row ≠ .clear
  | _ => True

/-- Whatever happens before the next sighting, no task is enqueued on stale evidence. -/
def Safe (s : State) : Prop :=
  ∀ events s', (∀ issue, Event.sighting issue ∉ events) →
    Run.play (step config) s events = some s' → EnqueuesFresh s'.log

/-! ## The invariant -/

theorem evidence_append (log : List Mark) (mark : Mark) :
    evidence (log ++ [mark]) = (evidence log).add mark := by
  simp [evidence]

/-- Only a sighting takes evidence away. -/
theorem Evidence.Fresh.add {e : Evidence} {mark : Mark} (h : e.Fresh)
    (hmark : ∀ n, mark ≠ .sighted n) : (e.add mark).Fresh := by
  cases mark with
  | sighted n => exact absurd rfl (hmark n)
  | refreshed foundNone =>
    cases foundNone with
    | true => exact .inr rfl
    | false => exact h
  | enqueued => exact h

theorem EnqueuesFresh.append {log : List Mark} {mark : Mark} (h : EnqueuesFresh log)
    (hmark : mark = .enqueued → (evidence log).Fresh) : EnqueuesFresh (log ++ [mark]) := by
  intro before rest heq
  rcases List.eq_nil_or_concat rest with rfl | ⟨rest', last, rfl⟩
  · obtain ⟨rfl, hlast⟩ := List.append_inj' heq rfl
    exact hmark (List.cons.inj hlast).1
  · rw [List.concat_eq_append, ← List.cons_append, ← List.append_assoc] at heq
    exact h before rest' (List.append_inj' heq rfl).1

/-- What the columns of the row say is backed by the evidence. -/
structure Backed (e : Evidence) (row : IssueTask) : Prop where
  linked : row.issueNumber ≠ none
  counted : row.dependencyCount ≠ none
  zero : row.dependencyCount = some 0 → e.Fresh
  resolved : row.blockedBy = some [] → e.settled = true

theorem Backed.fresh {e : Evidence} {row : IssueTask} (h : Backed e row)
    (hgate : dependencyGate row = .clear) : e.Fresh := by
  rcases dependencyGate_clear h.linked hgate with hzero | hempty
  · exact h.zero hzero
  · exact .inr (h.resolved hempty)

theorem Backed.add {e : Evidence} {row : IssueTask} {mark : Mark} (h : Backed e row)
    (hmark : ∀ n, mark ≠ .sighted n) : Backed (e.add mark) row where
  linked := h.linked
  counted := h.counted
  zero hzero := (h.zero hzero).add hmark
  resolved hempty := by
    have hsettled := h.resolved hempty
    cases mark with
    | sighted n => exact absurd rfl (hmark n)
    | refreshed foundNone => cases foundNone <;> simp [Evidence.add, hsettled]
    | enqueued => exact hsettled

theorem Backed.of_same {e : Evidence} {row row' : IssueTask} (h : Backed e row)
    (hsame : SameGate row row') : Backed e row' where
  linked := hsame.issueNumber ▸ h.linked
  counted := hsame.dependencyCount ▸ h.counted
  zero hzero := h.zero (hsame.dependencyCount ▸ hzero)
  resolved hempty := h.resolved (hsame.blockedBy ▸ hempty)

structure Inv (s : State) : Prop where
  sighted : s.row ≠ none → (evidence s.log).latest ≠ none
  backed : ∀ row, s.row = some row → Backed (evidence s.log) row
  listed : ∀ snapshot, s.sweep = .listed snapshot → dependencyGate snapshot = .clear →
    (evidence s.log).Fresh
  enqueues : EnqueuesFresh s.log

theorem inv_start : Inv {} where
  sighted h := absurd rfl h
  backed _ h := by cases h
  listed _ h := by cases h
  enqueues before rest h := by simp at h

variable {config}

/-- A sighting that is careful leaves a row that the evidence backs. -/
theorem backed_sighting {s : State} {issue : TaskIssue} {n : Nat} {row' : IssueTask}
    (hI : Inv s) (hC : Careful config s (.sighting issue)) (hn : issue.dependencyCount = some n)
    (h : upsertIssueTask config.trustedLogins config.taskId config.projectId issue s.row =
      some row') : Backed ((evidence s.log).add (.sighted n)) row' := by
  cases hrow : s.row with
  | none =>
    simp only [hrow, upsertIssueTask] at h
    split at h
    · cases h
      refine ⟨by simp [insertRow], by simp [insertRow, hn], ?_, ?_⟩
      · intro hzero
        rw [insertRow, hn] at hzero
        exact .inl hzero
      · intro hempty
        cases hempty
    · cases h
  | some row =>
    have hbacked := hI.backed row hrow
    obtain ⟨m, hm⟩ := Option.ne_none_iff_exists'.1 (hI.sighted (by simp [hrow]))
    have hcareful := fun hlt => hC n hn m hm hlt row hrow
    have hkept : (evidence s.log).settled = true → n ≤ m →
        ((evidence s.log).add (.sighted n)).settled = true := by
      intro hsettled hle
      simp [Evidence.add, hsettled, hm, hle]
    rw [hrow] at h
    by_cases htrusted : isTrustedAuthor config.trustedLogins issue = true
    · obtain ⟨hissue, hcount, hblocked⟩ := upsertIssueTask_trusted htrusted hn h
      refine ⟨hissue ▸ hbacked.linked, by simp [hcount], ?_, ?_⟩
      · intro hzero
        rw [hcount] at hzero
        exact .inl hzero
      · intro hempty
        rw [hblocked] at hempty
        refine hkept (hbacked.resolved hempty) (Nat.le_of_not_lt fun hlt => ?_)
        have := hcareful hlt
        rw [if_pos htrusted] at this
        exact this hempty
    · simp only [upsertIssueTask, if_neg htrusted, Option.some.injEq] at h
      subst h
      have hclosed : dependencyGate row = .clear → n ≤ m := by
        intro hgate
        refine Nat.le_of_not_lt fun hlt => ?_
        have := hcareful hlt
        rw [if_neg htrusted] at this
        exact this hgate
      refine Backed.of_same ⟨hbacked.linked, hbacked.counted, ?_, ?_⟩ (sameGate_demoteUntrusted row)
      · intro hzero
        have hle : n ≤ m := hclosed (by simp [dependencyGate, hzero])
        rcases hbacked.zero hzero with hlatest | hsettled
        · left
          rw [hm, Option.some.injEq] at hlatest
          subst hlatest
          rw [Nat.le_zero] at hle
          subst hle
          rfl
        · exact .inr (hkept hsettled hle)
      · intro hempty
        obtain ⟨c, hc⟩ := Option.ne_none_iff_exists'.1 hbacked.counted
        exact hkept (hbacked.resolved hempty) (hclosed (dependencyGate_of_empty hc hempty))

/-- A refresh that completes leaves a row that the evidence backs. -/
theorem backed_refresh {e : Evidence} {row : IssueTask} (h : Backed e row)
    (params : RefreshParams) (now : Nat) (results : Option (List DependencyIssue)) :
    Backed (e.add (.refreshed (foundNone params results)))
      (refreshTaskBlockers params now results row) := by
  have hadd : Backed (e.add (.refreshed (foundNone params results))) row :=
    h.add (by rintro n ⟨⟩)
  have hissue : (refreshTaskBlockers params now results row).issueNumber = row.issueNumber := by
    simp
  rcases refreshTaskBlockers_cases params now results row with
    ⟨hcount, hblocked⟩ | ⟨blockers, hcount, hblocked, hfound⟩
  · exact hadd.of_same ⟨hissue, hcount, hblocked⟩
  · have hsettled : blockers = [] → (e.add (.refreshed (foundNone params results))).settled =
        true := by
      intro hempty
      rw [hfound hempty]
      rfl
    refine ⟨hissue ▸ h.linked, by simp [hcount], ?_, ?_⟩
    · intro hzero
      rw [hcount, Option.some.injEq, List.length_eq_zero_iff] at hzero
      exact .inr (hsettled hzero)
    · intro hempty
      rw [hblocked, Option.some.injEq] at hempty
      exact hsettled hempty

/-- The parts of the state that the invariant is about change as little as this. -/
theorem Inv.of_quiet {s s' : State} (hI : Inv s) (hlog : s'.log = s.log)
    (hrow : s'.row = s.row)
    (hsweep : ∀ snapshot, s'.sweep = .listed snapshot → dependencyGate snapshot = .clear →
      (evidence s.log).Fresh) : Inv s' where
  sighted := by
    rw [hlog, hrow]
    exact hI.sighted
  backed := by
    rw [hlog, hrow]
    exact hI.backed
  listed := by
    rw [hlog]
    exact hsweep
  enqueues := by
    rw [hlog]
    exact hI.enqueues

theorem inv_enqueue {s : State} (hI : Inv s)
    (hfresh : ∀ row, s.row = some row → (evidence s.log).Fresh) (now : Nat) (accepted : Bool) :
    Inv (s.enqueue config now accepted) := by
  unfold State.enqueue
  cases hrow : s.row with
  | none => exact hI
  | some row =>
    simp only
    split
    · have hlatest := hI.sighted (by simp [hrow])
      constructor
      · intro _
        rw [evidence_append]
        exact hlatest
      · intro row' hrow'
        cases hrow'
        rw [evidence_append]
        exact ((hI.backed row hrow).add (by rintro n ⟨⟩)).of_same (sameGate_toTask row _ rfl)
      · intro snapshot hlisted hgate
        rw [evidence_append]
        exact (hI.listed snapshot hlisted hgate).add (by rintro n ⟨⟩)
      · exact hI.enqueues.append fun _ => hfresh row hrow
    · exact hI

theorem inv_sighting {s s' : State} {issue : TaskIssue} (hI : Inv s)
    (hC : Careful config s (.sighting issue)) (h : step config s (.sighting issue) = some s') :
    Inv s' := by
  simp only [step] at h
  split at h
  · rename_i hidle hn
    cases h
    constructor
    · intro _
      rw [evidence_append]
      simp [Evidence.add]
    · intro row' hrow'
      rw [evidence_append]
      exact backed_sighting hI hC hn hrow'
    · intro snapshot hlisted
      simp only [hidle] at hlisted
      cases hlisted
    · exact hI.enqueues.append (by rintro ⟨⟩)
  · cases h

theorem inv_land {s s' : State} {id now : Nat} {results : Option (List DependencyIssue)}
    (hI : Inv s) (h : step config s (.land id now results) = some s') : Inv s' := by
  simp only [step] at h
  split at h
  · rename_i refresh _
    cases h
    constructor
    · intro hrow
      rw [evidence_append]
      have hlatest := hI.sighted (by simpa using hrow)
      cases foundNone refresh.params results <;> exact hlatest
    · intro row' hrow'
      obtain ⟨row, hrow, rfl⟩ := Option.map_eq_some_iff.1 hrow'
      rw [evidence_append]
      exact backed_refresh (hI.backed row hrow) refresh.params now results
    · intro snapshot hlisted hgate
      rw [evidence_append]
      exact (hI.listed snapshot hlisted hgate).add (by rintro n ⟨⟩)
    · exact hI.enqueues.append (by rintro ⟨⟩)
  · cases h

theorem Inv.to_idle {s : State} (hI : Inv s) : Inv { s with sweep := .idle } := by
  refine hI.of_quiet rfl rfl ?_
  rintro snapshot ⟨⟩

theorem inv_step {s s' : State} {event : Event} (hI : Inv s) (hC : Careful config s event)
    (h : step config s event = some s') : Inv s' := by
  cases event with
  | sighting issue => exact inv_sighting hI hC h
  | land id now results => exact inv_land hI h
  | display now =>
    simp only [step] at h
    split at h
    · split at h
      · cases h
        exact hI.of_quiet rfl rfl hI.listed
      · cases h
    · cases h
  | hold now =>
    simp only [step] at h
    split at h
    · split at h
      · cases h
        exact hI.of_quiet rfl rfl hI.listed
      · cases h
    · cases h
  | pause paused =>
    cases h
    exact hI.of_quiet rfl rfl hI.listed
  | sweep room =>
    simp only [step] at h
    split at h
    · rename_i row hidle hrow
      split at h
      · cases h
        refine hI.of_quiet rfl rfl ?_
        rintro snapshot ⟨⟩ hgate
        exact (hI.backed row hrow).fresh hgate
      · cases h
        exact hI
    · cases h
  | reach now mayCheck accepted =>
    simp only [step] at h
    split at h
    · rename_i snapshot hlisted
      split at h
      · rename_i hgate
        cases h
        exact inv_enqueue hI.to_idle (fun _ _ => hI.listed snapshot hlisted hgate) now accepted
      · split at h
        · cases h
          refine hI.of_quiet rfl rfl ?_
          rintro _ ⟨⟩
        · cases h
          exact hI.to_idle
    · cases h
  | reread now accepted =>
    simp only [step] at h
    split at h
    · split at h
      · cases h
      · split at h
        · rename_i hgate
          cases h
          refine inv_enqueue hI.to_idle (fun row hrow => ?_) now accepted
          have hrow' : s.row = some row := hrow
          rw [hrow', Option.getD_some] at hgate
          exact (hI.backed row hrow').fresh hgate
        · cases h
          exact hI.to_idle
    · cases h
  | leave =>
    simp only [step] at h
    split at h
    · cases h
      exact hI.to_idle
    · cases h
  | write task =>
    cases h
    constructor
    · intro hrow
      exact hI.sighted (by simpa using hrow)
    · intro row' hrow'
      obtain ⟨row, hrow, rfl⟩ := Option.map_eq_some_iff.1 hrow'
      exact (hI.backed row hrow).of_same (sameGate_toTask row _ rfl)
    · exact hI.listed
    · exact hI.enqueues

/-! ## When the gate is open on stale evidence -/

theorem safe_of_inv {s : State} (hI : Inv s) : Safe config s := by
  intro events s' hquiet hplay
  have hmeets : Run.Meets (step config) (Careful config) s events := by
    apply Run.Meets.of_forall_mem
    intro event hmem t
    cases event with
    | sighting issue => exact absurd hmem (hquiet issue)
    | _ => trivial
  have halong : Run.Along (step config) (fun s => EnqueuesFresh s.log) s events :=
    Run.along_of_invariant (fun _ _ _ => inv_step) (fun _ hI => hI.enqueues) hI hmeets
  exact halong.last hplay

/-- A row whose gate is clear is enqueued by the next sweep, once it is ready. -/
theorem claims_next {s : State} {row : IssueTask} (hidle : s.sweep = .idle)
    (hrow : s.row = some row) (hgate : dependencyGate row = .clear) :
    ∃ events s', (∀ issue, Event.sighting issue ∉ events) ∧
      Run.play (step config) s events = some s' ∧ s'.log = s.log ++ [.enqueued] := by
  let task : Task := { row.toTask with status := .ready, archivedAt := none }
  let ready : IssueTask := { row with toTask := task }
  have hready : dependencyGate ready = .clear := by
    rw [(sameGate_toTask row task rfl).gate, hgate]
  let written : State := { s with paused := false, row := some ready }
  have hwritten : step config { s with paused := false } (.write task) = some written := by
    simp [step, hrow, written, ready, task]
  have hlisted : step config written (.sweep true) = some { written with sweep := .listed ready } := by
    simp [step, written, hidle, ready, task]
  let claimed : State := { written with sweep := .idle }.enqueue config 0 true
  have hclaimed : step config { written with sweep := .listed ready } (.reach 0 false true) =
      some claimed := by
    simp [step, hready, claimed]
  refine ⟨[.pause false, .write task, .sweep true, .reach 0 false true], claimed, by simp, ?_, ?_⟩
  · have hpaused : step config s (.pause false) = some { s with paused := false } := rfl
    simp only [Run.play, hpaused, hwritten, hlisted, hclaimed]
  · simp [claimed, State.enqueue, written, ready, task]

/-- After a sighting that is not careful, the next sweep enqueues the task. -/
theorem not_safe_of_not_careful {s s' : State} {event : Event}
    (hC : ¬Careful config s event) (h : step config s event = some s') : ¬Safe config s' := by
  cases event with
  | sighting issue =>
    simp only [Careful, not_forall] at hC
    obtain ⟨n, hn, m, hm, hlt, row, hrow, hbad⟩ := hC
    simp only [step] at h
    split at h
    · rename_i n' hidle hn'
      rw [hn, Option.some.injEq] at hn'
      subst hn'
      have hs' := Option.some.inj h
      obtain ⟨row', hrow', hgate⟩ : ∃ row', upsertIssueTask config.trustedLogins config.taskId
          config.projectId issue s.row = some row' ∧ dependencyGate row' = .clear := by
        rw [hrow]
        by_cases htrusted : isTrustedAuthor config.trustedLogins issue = true
        · rw [if_pos htrusted, not_not] at hbad
          obtain ⟨row', hrow'⟩ : ∃ row', upsertIssueTask config.trustedLogins config.taskId
              config.projectId issue (some row) = some row' := by
            simp [upsertIssueTask, htrusted]
          obtain ⟨-, hcount, hblocked⟩ := upsertIssueTask_trusted htrusted hn hrow'
          exact ⟨row', hrow', dependencyGate_of_empty hcount (hblocked.trans hbad)⟩
        · rw [if_neg htrusted, not_not] at hbad
          refine ⟨demoteUntrusted row, by simp [upsertIssueTask, htrusted], ?_⟩
          rw [(sameGate_demoteUntrusted row).gate, hbad]
      obtain ⟨events, t, hquiet, hplay, hlog⟩ : ∃ events t, (∀ issue, Event.sighting issue ∉
          events) ∧ Run.play (step config) s' events = some t ∧ t.log = s'.log ++ [.enqueued] :=
        claims_next (hs' ▸ hidle) (hs' ▸ hrow') hgate
      intro hsafe
      have hfresh := hsafe events t hquiet hplay _ [] hlog
      rw [← hs', evidence_append] at hfresh
      rcases hfresh with hlatest | hsettled
      · simp only [Evidence.add, Option.some.injEq] at hlatest
        omega
      · simp only [Evidence.add, hm, Option.any_some, Bool.and_eq_true, decide_eq_true_eq]
          at hsettled
        omega
    · cases h
  | _ => exact absurd trivial hC

/-- In every run whose sightings are careful, every task is enqueued on fresh evidence. A run is
so, and stays so whatever happens before the next sighting, exactly when its sightings are
careful. -/
theorem enqueues_fresh_iff (config : Config) (events : List Event) :
    (Run.Meets (step config) (Careful config) {} events →
      Run.Along (step config) (fun s => EnqueuesFresh s.log) {} events) ∧
    (Run.Along (step config) (Safe config) {} events ↔
      Run.Meets (step config) (Careful config) {} events) := by
  constructor
  · exact Run.along_of_invariant (fun _ _ _ => inv_step) (fun _ hI => hI.enqueues) inv_start
  · exact Run.along_iff_meets (I := Inv) (fun _ _ _ => inv_step) (fun _ => safe_of_inv)
      (fun _ _ _ _ => not_safe_of_not_careful) inv_start

/-- The only blocker of a task is closed while auto-claim is paused; then the issue gets a second
one, which is never looked up. -/
theorem second_blocker_is_missed :
    let issue (n : Nat) : TaskIssue :=
      { number := 7, title := "Task", body := none, htmlUrl := "/7",
        authorAssociation := some "OWNER", dependencyCount := some n }
    let closed : DependencyIssue :=
      { owner := "owner", repo := "repo", number := 3, title := "First", htmlUrl := "/3",
        state := "closed" }
    ¬Run.Along (step {}) (fun s => EnqueuesFresh s.log) {}
      [.pause true, .sighting (issue 1), .display 9000, .land 0 9000 (some [closed]),
        .sighting (issue 2), .pause false, .sweep true, .reach 9000 true true] := by
  intro issue closed h
  obtain ⟨s, hplay, hlog⟩ : ∃ s, Run.play (step {}) {}
      [.pause true, .sighting (issue 1), .display 9000, .land 0 9000 (some [closed]),
        .sighting (issue 2), .pause false, .sweep true, .reach 9000 true true] = some s ∧
      s.log = [.sighted 1, .refreshed true, .sighted 2] ++ .enqueued :: [] :=
    ⟨_, rfl, by decide +kernel⟩
  have hfresh := h.last hplay _ _ hlog
  revert hfresh
  simp [Evidence.Fresh, evidence, Evidence.add]

end AutoClaim
end Mullion
