import Mathlib.Tactic
import Mullion.Lib.Run

/-!
# Waiting for a session

`waitForSession` (`session-wait.ts`) for a session of this process: a check reads the derived
status, asynchronously, whenever the session emits an event and on a slow tick, until the status is
one that the caller waits for. Three things are asked, for any order of events, ticks, reads, the
timeout and the abort: that it settles once and leaves nothing behind (`Safe`), that a tick with no
read in flight starts one (`Served`), and that what the caller is told is about the turn it waits
for (`Faithful`).

The first two hold in every run. A wait is open or closed; closing it is the same few assignments
wherever it happens (`Wait.Open.finish_eq`), and a read that completes in a closed wait does
nothing. A round of reads is one loop that hands over to itself, so there is one in flight at most.
The third is a property of single steps (`faithful_iff`). The status and the event head are read at
two moments, the head when the read completes, and an event in between lets a snapshot of the turn
before pass for one of the new turn (`stale_snapshot`). `waits_iff` has it that this is the only
way.
-/

namespace Mullion
namespace SessionWait

/-- `SessionStatus`. -/
inductive Status where
  | exited | suspended | awaiting_permission | awaiting_plan | awaiting_review_gate
  | awaiting_promote | awaiting_question | awaiting_elicitation | api_error | tool_failure
  | finished | needs_input | compacting | subagent | background | working | idle
  deriving DecidableEq

/-- `SessionSeverity`. -/
inductive Severity where
  | gone | dormant | blocked | failed | done | waiting | busy
  deriving DecidableEq

/-- `WaitSnapshot`. -/
structure Snapshot where
  status : Status
  severity : Severity
  detail : Option String
  deriving DecidableEq

/-- `WaitOptions`; the two vocabularies of `until` have no word in common. -/
structure Options where
  statuses : List Status
  severities : List Severity
  afterSeq : Option ℕ
  deriving DecidableEq

/-- `opts.until.has`. -/
def Options.Wants (opts : Options) (snapshot : Snapshot) : Prop :=
  snapshot.status ∈ opts.statuses ∨ snapshot.severity ∈ opts.severities

instance (opts : Options) (snapshot : Snapshot) : Decidable (opts.Wants snapshot) :=
  inferInstanceAs (Decidable (_ ∨ _))

/-- `turnStarted`, at an event head. -/
def Options.TurnStarted (opts : Options) (snapshot : Snapshot) (head : ℕ) : Prop :=
  snapshot.severity = .gone ∨ opts.afterSeq = none ∨ opts.afterSeq ≠ some head

instance (opts : Options) (snapshot : Snapshot) (head : ℕ) :
    Decidable (opts.TurnStarted snapshot head) :=
  inferInstanceAs (Decidable (_ ∨ _))

/-- A call of `resolve` or `reject`. -/
inductive Outcome where
  | matched (snapshot : Snapshot)
  | timedOut (last : Option Snapshot)
  | aborted
  | notAuthorized
  | notFound
  | readFailed
  deriving DecidableEq

/-- A `readStatus` in flight: what it has read, and the event head at that moment. -/
structure Read where
  taken : Option (Option Snapshot × ℕ) := none
  deriving DecidableEq

/-- `MAX_CONSECUTIVE_READ_FAILURES`. -/
def maxConsecutiveReadFailures : ℕ := 3

/-- The variables of a wait and what is around it. -/
structure Wait where
  settled : Bool := false
  checking : Bool := false
  recheck : Bool := false
  last : Option Snapshot := none
  readFailures : ℕ := 0
  /-- the timer, the interval, the event listener and the abort listener -/
  timeout : Bool := true
  tick : Bool := true
  subscribed : Bool := true
  listening : Bool := false
  /-- `eventSeqHead` -/
  head : ℕ
  reads : List Read := []
  /-- how many reads have started -/
  starts : ℕ := 0
  /-- how the completed reads ended, the last one first -/
  results : List Bool := []
  /-- the calls of `resolve` and `reject` -/
  outcomes : List Outcome := []
  deriving DecidableEq

/-- `finish` and `fail`: settle, once. -/
def Wait.finish (w : Wait) (outcome : Outcome) : Wait :=
  if w.settled then w
  else
    { w with
      settled := true
      timeout := false
      tick := false
      subscribed := false
      listening := false
      outcomes := outcome :: w.outcomes }

/-- One round of `check`, up to the read that it waits for. -/
def Wait.round (w : Wait) (authorized : Bool) : Wait :=
  let w := { w with recheck := false }
  if authorized then { w with reads := w.reads ++ [⟨none⟩], starts := w.starts + 1 }
  else { w.finish .notAuthorized with checking := false }

/-- `check`. -/
def Wait.check (w : Wait) (authorized : Bool) : Wait :=
  if w.checking then { w with recheck := true } else { w with checking := true }.round authorized

/-- The rest of a round, after a read that succeeded. -/
def Wait.resume (opts : Options) (w : Wait) (snapshot : Option Snapshot) (authorized : Bool) :
    Wait :=
  if w.settled then { w with checking := false }
  else
    let w := { w with readFailures := 0 }
    match snapshot with
    | none => { w.finish .notFound with checking := false }
    | some snapshot =>
      let w := { w with last := some snapshot }
      if opts.Wants snapshot ∧ opts.TurnStarted snapshot w.head then
        { w.finish (.matched snapshot) with checking := false }
      else if w.recheck && !w.settled then w.round authorized
      else { w with checking := false }

/-- The `catch` of a round, after a read that failed. -/
def Wait.readFailure (w : Wait) : Wait :=
  let w := { w with readFailures := w.readFailures + 1 }
  let w := if maxConsecutiveReadFailures ≤ w.readFailures then w.finish .readFailed else w
  { w with checking := false }

/-- `waitForSession`, with a signal that may be aborted already. -/
def start (head : ℕ) (aborted authorized : Bool) : Wait :=
  if aborted then ({ head } : Wait).finish .aborted
  else ({ head, listening := true } : Wait).check authorized

/-- What can happen. A label that may start a round says what `authorized` answers. -/
inductive Label where
  | event (authorized : Bool)
  | tick (authorized : Bool)
  /-- a read takes its snapshot -/
  | take (i : ℕ) (snapshot : Option Snapshot)
  /-- a read completes, with its snapshot or by failing -/
  | complete (i : ℕ) (ok : Bool) (authorized : Bool)
  | timeout
  | abort
  deriving DecidableEq

/-- One step. -/
def step (opts : Options) (w : Wait) : Label → Option Wait
  | .event authorized =>
    let w := { w with head := w.head + 1 }
    some (if w.subscribed then w.check authorized else w)
  | .tick authorized => if w.tick then some (w.check authorized) else none
  | .take i snapshot =>
    match w.reads[i]? with
    | some ⟨none⟩ => some { w with reads := w.reads.set i ⟨some (snapshot, w.head)⟩ }
    | _ => none
  | .complete i ok authorized =>
    match w.reads[i]?, ok with
    | some ⟨some (snapshot, _)⟩, true =>
      some ({ w with reads := w.reads.eraseIdx i, results := true :: w.results }.resume opts
        snapshot authorized)
    | some _, false =>
      some { w with reads := w.reads.eraseIdx i, results := false :: w.results }.readFailure
    | _, _ => none
  | .timeout => if w.timeout then some (w.finish (.timedOut w.last)) else none
  | .abort => if w.listening then some (w.finish .aborted) else none

/-! ## What is promised -/

/-- It settles at most once, leaves nothing behind when it has, ticks until then, and has at most
one read in flight. -/
structure Safe (w : Wait) : Prop where
  once : w.outcomes.length ≤ 1
  released : w.outcomes ≠ [] →
    w.timeout = false ∧ w.tick = false ∧ w.subscribed = false ∧ w.listening = false
  ticking : w.outcomes = [] → w.tick = true
  single : w.reads.length ≤ 1

/-- However the run goes on, a tick that finds no read in flight is followed by a read, or the wait
settles. -/
def Served (opts : Options) (w : Wait) : Prop :=
  ∀ (before after : List Label) (authorized : Bool) (u w' : Wait),
    Run.play (step opts) w before = some u → u.reads = [] →
      Run.play (step opts) u (.tick authorized :: after) = some w' →
        w.starts < w'.starts ∨ w'.outcomes ≠ []

/-- The failures at the end of the reads so far. -/
def Wait.failures (w : Wait) : ℕ := (w.results.takeWhile fun ok => !ok).length

/-- What settles a wait in a step: a match is a snapshot that is wanted and that is gone or was
taken at another event head than `afterSeq`, and read failures end it at the third in a row. -/
structure Faithful (opts : Options) (w : Wait) (label : Label) (w' : Wait) : Prop where
  current : ∀ snapshot, w'.outcomes = [.matched snapshot] →
    opts.Wants snapshot ∧ ∃ i authorized head, label = .complete i true authorized ∧
      w.reads[i]? = some ⟨some (some snapshot, head)⟩ ∧
      (snapshot.severity = .gone ∨ opts.afterSeq ≠ some head)
  failing : w'.outcomes = [.readFailed] ↔
    (∃ i authorized, label = .complete i false authorized) ∧
      w'.failures = maxConsecutiveReadFailures

/-- A read that completes with a wanted snapshot, taken with the head at `afterSeq`, completes
before the next event. -/
def NoneBetween (opts : Options) (w : Wait) : Label → Prop
  | .complete i true _ => w.outcomes = [] → ∀ snapshot head,
      w.reads[i]? = some ⟨some (some snapshot, head)⟩ → opts.Wants snapshot →
        snapshot.severity ≠ .gone → opts.afterSeq = some head → w.head = head
  | _ => True

/-! ## An open and a settled wait -/

variable {opts : Options} {w w' : Wait} {label : Label}

/-- A wait that is still open. -/
structure Wait.Open (w : Wait) : Prop where
  settled : w.settled = false
  outcomes : w.outcomes = []
  timeout : w.timeout = true
  tick : w.tick = true
  subscribed : w.subscribed = true
  listening : w.listening = true
  counted : w.readFailures = w.failures
  patient : w.failures < maxConsecutiveReadFailures

/-- A wait that has settled. -/
structure Wait.Closed (w : Wait) : Prop where
  settled : w.settled = true
  outcomes : ∃ outcome, w.outcomes = [outcome]
  timeout : w.timeout = false
  tick : w.tick = false
  subscribed : w.subscribed = false
  listening : w.listening = false

/-- What a wait keeps: it is open or closed, and checks exactly while its one read is in flight. -/
structure Inv (w : Wait) : Prop where
  phase : w.Open ∨ w.Closed
  reading : w.checking = false ∧ w.reads = [] ∨ w.checking = true ∧ ∃ read, w.reads = [read]

theorem Wait.Open.finish_eq (h : w.Open) (outcome : Outcome) :
    w.finish outcome =
      { w with
        settled := true, timeout := false, tick := false, subscribed := false
        listening := false, outcomes := [outcome] } := by
  rw [Wait.finish, h.settled, h.outcomes]
  rfl

theorem Wait.Open.closed_finish (h : w.Open) (outcome : Outcome) : (w.finish outcome).Closed := by
  rw [h.finish_eq]
  exact ⟨rfl, ⟨outcome, rfl⟩, rfl, rfl, rfl, rfl⟩

theorem Wait.Closed.finish_eq (h : w.Closed) (outcome : Outcome) : w.finish outcome = w := by
  rw [Wait.finish, h.settled]
  rfl

theorem Inv.open_of_outcomes (h : Inv w) (hnone : w.outcomes = []) : w.Open := by
  rcases h.phase with h | h
  · exact h
  · obtain ⟨outcome, houtcome⟩ := h.outcomes
    rw [hnone] at houtcome
    cases houtcome

theorem Inv.safe (h : Inv w) : Safe w := by
  refine ⟨?_, ?_, fun hnone => (h.open_of_outcomes hnone).tick, ?_⟩
  · rcases h.phase with h | h
    · rw [h.outcomes]
      exact Nat.zero_le _
    · obtain ⟨outcome, houtcome⟩ := h.outcomes
      rw [houtcome]
      exact le_rfl
  · intro hsome
    rcases h.phase with h | h
    · exact absurd h.outcomes hsome
    · exact ⟨h.timeout, h.tick, h.subscribed, h.listening⟩
  · rcases h.reading with ⟨-, hreads⟩ | ⟨-, read, hreads⟩ <;> rw [hreads] <;> simp

/-! ## Rounds -/

/-- A round that is started in an open wait with no read in flight. -/
theorem Inv.round (h : w.Open) (hchecking : w.checking = true) (hreads : w.reads = [])
    (authorized : Bool) : Inv (w.round authorized) := by
  have hopen : ({ w with recheck := false } : Wait).Open := { h with }
  cases authorized with
  | true => exact ⟨Or.inl { h with }, Or.inr ⟨hchecking, ⟨none⟩, by simp [Wait.round, hreads]⟩⟩
  | false =>
    have hclosed := hopen.closed_finish .notAuthorized
    refine ⟨Or.inr { hclosed with }, Or.inl ⟨rfl, ?_⟩⟩
    rw [Wait.round, hopen.finish_eq]
    exact hreads

theorem Inv.check (h : Inv w) (hopen : w.Open) (authorized : Bool) : Inv (w.check authorized) := by
  rw [Wait.check]
  rcases h.reading with ⟨hchecking, hreads⟩ | ⟨hchecking, read, hreads⟩
  · rw [if_neg (by simp [hchecking])]
    exact .round (w := { w with checking := true }) { hopen with } rfl hreads authorized
  · rw [if_pos hchecking]
    exact ⟨Or.inl { hopen with }, Or.inr ⟨hchecking, read, hreads⟩⟩

/-- The completion of the read that was in flight, in an open wait. -/
theorem Inv.resume (h : w.Open) (hreads : w.reads = []) (hchecking : w.checking = true)
    (snapshot : Option Snapshot) (authorized : Bool) :
    Inv (({ w with results := true :: w.results } : Wait).resume opts snapshot authorized) := by
  have hpatient : 0 < maxConsecutiveReadFailures := by decide
  rw [Wait.resume, if_neg (by simp [h.settled])]
  cases snapshot with
  | none =>
    dsimp only
    rw [Wait.finish, if_neg (by simp [h.settled]), h.outcomes]
    exact ⟨Or.inr ⟨rfl, ⟨.notFound, rfl⟩, rfl, rfl, rfl, rfl⟩, Or.inl ⟨rfl, hreads⟩⟩
  | some snapshot =>
    dsimp only
    split_ifs
    · rw [Wait.finish, if_neg (by simp [h.settled]), h.outcomes]
      exact ⟨Or.inr ⟨rfl, ⟨.matched snapshot, rfl⟩, rfl, rfl, rfl, rfl⟩, Or.inl ⟨rfl, hreads⟩⟩
    · exact .round (w := { w with
          results := true :: w.results, readFailures := 0, last := some snapshot })
        { h with counted := rfl, patient := hpatient } hchecking hreads authorized
    · exact ⟨Or.inl { h with counted := rfl, patient := hpatient }, Or.inl ⟨rfl, hreads⟩⟩

/-- The failure of the read that was in flight, in an open wait. -/
theorem Inv.readFailure (h : w.Open) (hreads : w.reads = []) :
    Inv ({ w with results := false :: w.results } : Wait).readFailure := by
  have hcount : ({ w with results := false :: w.results } : Wait).failures = w.failures + 1 := rfl
  rw [Wait.readFailure]
  dsimp only
  split_ifs with hlimit
  · rw [Wait.finish, if_neg (by simp [h.settled]), h.outcomes]
    exact ⟨Or.inr ⟨rfl, ⟨.readFailed, rfl⟩, rfl, rfl, rfl, rfl⟩, Or.inl ⟨rfl, hreads⟩⟩
  · have hcounted := h.counted
    refine ⟨Or.inl { h with counted := ?_, patient := ?_ }, Or.inl ⟨rfl, hreads⟩⟩
    · exact congrArg (· + 1) hcounted
    · rw [not_le, hcounted] at hlimit
      exact hlimit

/-- A read in flight is the only one. -/
theorem Inv.reads_eq (h : Inv w) {i : ℕ} {read : Read} (hget : w.reads[i]? = some read) :
    w.reads = [read] ∧ i = 0 ∧ w.checking = true := by
  rcases h.reading with ⟨-, hreads⟩ | ⟨hchecking, only, hreads⟩
  · rw [hreads] at hget
    cases hget
  · rw [hreads] at hget ⊢
    cases i with
    | zero => exact ⟨congrArg (fun r => [r]) (by simpa using hget), rfl, hchecking⟩
    | succ i => cases hget

/-- What a completed read does. -/
theorem step_complete {i : ℕ} {ok authorized : Bool}
    (hstep : step opts w (.complete i ok authorized) = some w') :
    ∃ read, w.reads[i]? = some read ∧
      (ok = false ∧ w' = ({ w with
          reads := w.reads.eraseIdx i, results := false :: w.results } : Wait).readFailure ∨
        ok = true ∧ ∃ snapshot head, read = ⟨some (snapshot, head)⟩ ∧
          w' = ({ w with reads := w.reads.eraseIdx i, results := true :: w.results } : Wait).resume
            opts snapshot authorized) := by
  unfold step at hstep
  dsimp only at hstep
  split at hstep
  · next snapshot head hget =>
    cases hstep
    exact ⟨_, hget, Or.inr ⟨rfl, snapshot, head, rfl, rfl⟩⟩
  · next read hget =>
    cases hstep
    exact ⟨read, hget, Or.inl ⟨rfl, rfl⟩⟩
  · cases hstep

/-- A settled wait ignores what the read that was in flight brings. -/
theorem Wait.Closed.resume_eq (h : w.Closed) (snapshot : Option Snapshot) (authorized : Bool) :
    w.resume opts snapshot authorized = { w with checking := false } := by
  rw [Wait.resume, if_pos h.settled]

theorem Wait.Closed.readFailure_eq (h : w.Closed) :
    w.readFailure = { w with checking := false, readFailures := w.readFailures + 1 } := by
  rw [Wait.readFailure]
  dsimp only
  split_ifs
  · rw [Wait.finish, if_pos h.settled]
  · rfl

theorem Inv.resume_closed (h : w.Closed) (hreads : w.reads = []) (snapshot : Option Snapshot)
    (authorized : Bool) : Inv (w.resume opts snapshot authorized) := by
  rw [h.resume_eq]
  exact ⟨Or.inr { h with }, Or.inl ⟨rfl, hreads⟩⟩

theorem Inv.readFailure_closed (h : w.Closed) (hreads : w.reads = []) : Inv w.readFailure := by
  rw [h.readFailure_eq]
  exact ⟨Or.inr { h with }, Or.inl ⟨rfl, hreads⟩⟩

theorem Inv.step (h : Inv w) (hstep : step opts w label = some w') : Inv w' := by
  cases label with
  | event authorized =>
    cases hstep
    rcases h.phase with hopen | hclosed
    · rw [if_pos hopen.subscribed]
      exact .check (w := { w with head := w.head + 1 }) ⟨Or.inl { hopen with }, h.reading⟩
        { hopen with } authorized
    · rw [if_neg (by simp [hclosed.subscribed])]
      exact ⟨Or.inr { hclosed with }, h.reading⟩
  | tick authorized =>
    rw [SessionWait.step] at hstep
    split at hstep
    · next htick =>
      cases hstep
      rcases h.phase with hopen | hclosed
      · exact h.check hopen authorized
      · rw [hclosed.tick] at htick
        cases htick
    · cases hstep
  | take i snapshot =>
    rw [SessionWait.step] at hstep
    split at hstep
    · next hget =>
      cases hstep
      obtain ⟨hreads, rfl, hchecking⟩ := h.reads_eq hget
      refine ⟨?_, Or.inr ⟨hchecking, ⟨some (snapshot, w.head)⟩, by rw [hreads]; rfl⟩⟩
      exact h.phase.imp (fun hopen => { hopen with }) fun hclosed => { hclosed with }
    · cases hstep
  | complete i ok authorized =>
    obtain ⟨read, hget, hcase⟩ := step_complete hstep
    obtain ⟨hreads, rfl, hchecking⟩ := h.reads_eq hget
    rw [hreads] at hcase
    rcases h.phase with hopen | hclosed
    · rcases hcase with ⟨-, rfl⟩ | ⟨-, snapshot, head, -, rfl⟩
      · exact .readFailure (w := { w with reads := [] }) { hopen with } rfl
      · exact .resume (w := { w with reads := [] }) { hopen with } rfl hchecking _ _
    · rcases hcase with ⟨-, rfl⟩ | ⟨-, snapshot, head, -, rfl⟩
      · exact .readFailure_closed (w := { w with reads := [], results := false :: w.results })
          { hclosed with } rfl
      · exact .resume_closed (w := { w with reads := [], results := true :: w.results })
          { hclosed with } rfl _ _
  | timeout =>
    rw [SessionWait.step] at hstep
    split at hstep
    · next htimeout =>
      cases hstep
      rcases h.phase with hopen | hclosed
      · refine ⟨Or.inr (hopen.closed_finish _), ?_⟩
        rw [hopen.finish_eq]
        exact h.reading
      · rw [hclosed.timeout] at htimeout
        cases htimeout
    · cases hstep
  | abort =>
    rw [SessionWait.step] at hstep
    split at hstep
    · next hlistening =>
      cases hstep
      rcases h.phase with hopen | hclosed
      · refine ⟨Or.inr (hopen.closed_finish _), ?_⟩
        rw [hopen.finish_eq]
        exact h.reading
      · rw [hclosed.listening] at hlistening
        cases hlistening
    · cases hstep

theorem Inv.start (head : ℕ) (aborted authorized : Bool) :
    Inv (SessionWait.start head aborted authorized) := by
  cases aborted with
  | true => exact ⟨Or.inr ⟨rfl, ⟨.aborted, rfl⟩, rfl, rfl, rfl, rfl⟩, Or.inl ⟨rfl, rfl⟩⟩
  | false =>
    have hopen : ({ head, listening := true } : Wait).Open :=
      ⟨rfl, rfl, rfl, rfl, rfl, rfl, rfl, (by decide : 0 < maxConsecutiveReadFailures)⟩
    exact .check ⟨Or.inl hopen, Or.inl ⟨rfl, rfl⟩⟩ hopen authorized

/-! ## A tick with no read in flight -/

/-- Reads have only started, and what has settled stays settled. -/
structure Wait.Later (w w' : Wait) : Prop where
  starts : w.starts ≤ w'.starts
  outcomes : w.outcomes ≠ [] → w'.outcomes ≠ []

theorem Wait.Later.refl (w : Wait) : w.Later w := ⟨le_rfl, id⟩

theorem Wait.Later.trans {w₁ w₂ w₃ : Wait} (h : w₁.Later w₂) (h' : w₂.Later w₃) : w₁.Later w₃ :=
  ⟨h.starts.trans h'.starts, fun hw => h'.outcomes (h.outcomes hw)⟩

theorem Wait.later_finish (w : Wait) (outcome : Outcome) : w.Later (w.finish outcome) := by
  rw [Wait.finish]
  split_ifs
  · exact .refl w
  · exact ⟨le_rfl, fun _ => List.cons_ne_nil _ _⟩

/-- A round starts a read, or settles the wait. -/
theorem Wait.round_starts (h : w.settled = false) (authorized : Bool) :
    w.starts < (w.round authorized).starts ∨ (w.round authorized).outcomes ≠ [] := by
  cases authorized with
  | true => exact Or.inl (Nat.lt_succ_self _)
  | false => exact Or.inr (by simp [Wait.round, Wait.finish, h])

theorem Wait.later_round (w : Wait) (authorized : Bool) : w.Later (w.round authorized) := by
  cases authorized with
  | true => exact ⟨Nat.le_succ _, id⟩
  | false =>
    have h := ({ w with recheck := false } : Wait).later_finish .notAuthorized
    exact ⟨h.starts, h.outcomes⟩

theorem Wait.later_check (w : Wait) (authorized : Bool) : w.Later (w.check authorized) := by
  rw [Wait.check]
  split_ifs
  · exact ⟨le_rfl, id⟩
  · have h := ({ w with checking := true } : Wait).later_round authorized
    exact ⟨h.starts, h.outcomes⟩

theorem Wait.later_resume (opts : Options) (w : Wait) (snapshot : Option Snapshot) (authorized : Bool) :
    w.Later (w.resume opts snapshot authorized) := by
  rw [Wait.resume]
  split_ifs
  · exact ⟨le_rfl, id⟩
  · cases snapshot with
    | none =>
      have h := ({ w with readFailures := 0 } : Wait).later_finish .notFound
      exact ⟨h.starts, h.outcomes⟩
    | some snapshot =>
      dsimp only
      split_ifs
      · have h := ({ w with readFailures := 0, last := some snapshot } : Wait).later_finish
          (.matched snapshot)
        exact ⟨h.starts, h.outcomes⟩
      · have h := ({ w with readFailures := 0, last := some snapshot } : Wait).later_round
          authorized
        exact ⟨h.starts, h.outcomes⟩
      · exact ⟨le_rfl, id⟩

theorem Wait.later_readFailure (w : Wait) : w.Later w.readFailure := by
  rw [Wait.readFailure]
  dsimp only
  split_ifs
  · have h := ({ w with readFailures := w.readFailures + 1 } : Wait).later_finish .readFailed
    exact ⟨h.starts, h.outcomes⟩
  · exact ⟨le_rfl, id⟩

theorem later_step (hstep : step opts w label = some w') : w.Later w' := by
  cases label with
  | event authorized =>
    cases hstep
    split_ifs
    · have h := ({ w with head := w.head + 1 } : Wait).later_check authorized
      exact ⟨h.starts, h.outcomes⟩
    · exact ⟨le_rfl, id⟩
  | tick authorized =>
    rw [step] at hstep
    split at hstep <;> cases hstep
    exact w.later_check authorized
  | take i snapshot =>
    rw [step] at hstep
    split at hstep <;> cases hstep
    exact ⟨le_rfl, id⟩
  | complete i ok authorized =>
    obtain ⟨read, -, ⟨-, rfl⟩ | ⟨-, snapshot, head, -, rfl⟩⟩ := step_complete hstep
    · have h := Wait.later_readFailure
        { w with reads := w.reads.eraseIdx i, results := false :: w.results }
      exact ⟨h.starts, h.outcomes⟩
    · have h := Wait.later_resume opts
        { w with reads := w.reads.eraseIdx i, results := true :: w.results } snapshot authorized
      exact ⟨h.starts, h.outcomes⟩
  | timeout =>
    rw [step] at hstep
    split at hstep <;> cases hstep
    exact w.later_finish _
  | abort =>
    rw [step] at hstep
    split at hstep <;> cases hstep
    exact w.later_finish _

theorem play_later {labels : List Label} (hplay : Run.play (step opts) w labels = some w') :
    w.Later w' :=
  Run.play_invariant (fun _ _ _ h hs => h.trans (later_step hs)) (.refl w) hplay

theorem Inv.served (h : Inv w) : Served opts w := by
  intro before after authorized u w' hbefore hreads hafter
  have hu : Inv u := Run.play_invariant (fun _ _ _ h hs => h.step hs) h hbefore
  have hlater := play_later hbefore
  rw [Run.play] at hafter
  split at hafter
  · cases hafter
  · next v hv =>
    have hlater' := play_later hafter
    rw [SessionWait.step] at hv
    split at hv
    · next htick =>
      cases hv
      have hopen : u.Open := by
        rcases hu.phase with hopen | hclosed
        · exact hopen
        · rw [hclosed.tick] at htick
          cases htick
      have hidle : u.checking = false := by
        rcases hu.reading with ⟨hidle, -⟩ | ⟨-, read, hread⟩
        · exact hidle
        · rw [hreads] at hread
          cases hread
      rw [Wait.check, if_neg (by simp [hidle])] at hlater'
      rcases Wait.round_starts (w := { u with checking := true }) hopen.settled authorized with
        hstarts | hsettled
      · exact Or.inl (hlater.starts.trans_lt (hstarts.trans_le hlater'.starts))
      · exact Or.inr (hlater'.outcomes hsettled)
    · cases hv

/-! ## What settles a wait -/

theorem Wait.outcomes_round (hsettled : w.settled = false) (hnone : w.outcomes = [])
    (authorized : Bool) :
    (w.round authorized).outcomes = [] ∨ (w.round authorized).outcomes = [.notAuthorized] := by
  cases authorized with
  | true => exact Or.inl hnone
  | false => exact Or.inr (by simp [Wait.round, Wait.finish, hsettled, hnone])

theorem Wait.outcomes_check (hsettled : w.settled = false) (hnone : w.outcomes = [])
    (authorized : Bool) :
    (w.check authorized).outcomes = [] ∨ (w.check authorized).outcomes = [.notAuthorized] := by
  rw [Wait.check]
  split_ifs
  · exact Or.inl hnone
  · exact Wait.outcomes_round (w := { w with checking := true }) hsettled hnone authorized

/-- A read settles the wait with a match exactly when its snapshot is wanted and the head has
moved by now. -/
theorem Wait.outcomes_resume (opts : Options) (hsettled : w.settled = false) (hnone : w.outcomes = [])
    (taken : Option Snapshot) (authorized : Bool) :
    (w.resume opts taken authorized).outcomes ≠ [.readFailed] ∧
      ∀ snapshot, (w.resume opts taken authorized).outcomes = [.matched snapshot] ↔
        taken = some snapshot ∧ opts.Wants snapshot ∧ opts.TurnStarted snapshot w.head := by
  rw [Wait.resume, if_neg (by simp [hsettled])]
  cases taken with
  | none =>
    dsimp only
    rw [Wait.finish, if_neg (by simp [hsettled]), hnone]
    exact ⟨by simp, fun snapshot => by simp⟩
  | some taken =>
    -- a snapshot that does not match settles nothing, or the wait is no longer authorized
    have hno {outcomes : List Outcome} (h : outcomes = [] ∨ outcomes = [.notAuthorized])
        (hmatch : ¬ (opts.Wants taken ∧ opts.TurnStarted taken w.head)) :
        outcomes ≠ [.readFailed] ∧ ∀ snapshot, outcomes = [.matched snapshot] ↔
          some taken = some snapshot ∧ opts.Wants snapshot ∧
            opts.TurnStarted snapshot w.head := by
      constructor
      · rcases h with rfl | rfl <;> simp
      · intro snapshot
        constructor
        · rcases h with rfl | rfl <;> simp
        · rintro ⟨⟨⟩, h⟩
          exact absurd h hmatch
    dsimp only
    split_ifs with hmatch
    · rw [Wait.finish, if_neg (by simp [hsettled]), hnone]
      refine ⟨by simp, fun snapshot => ?_⟩
      constructor
      · intro heq
        have htaken : taken = snapshot := by simpa using heq
        exact htaken ▸ ⟨rfl, hmatch⟩
      · rintro ⟨htaken, -⟩
        rw [Option.some.inj htaken]
    · exact hno (Wait.outcomes_round (w := { w with readFailures := 0, last := some taken })
        hsettled hnone authorized) hmatch
    · exact hno (Or.inl hnone) hmatch

/-- Only a read that completes can settle a wait with a match or with a failure. -/
theorem outcomes_of_other (h : w.Open) (hstep : step opts w label = some w')
    (hother : ∀ i ok authorized, label ≠ .complete i ok authorized) :
    w'.outcomes ≠ [.readFailed] ∧ ∀ snapshot, w'.outcomes ≠ [.matched snapshot] := by
  have hcheck {outcomes : List Outcome} (h : outcomes = [] ∨ outcomes = [.notAuthorized]) :
      outcomes ≠ [.readFailed] ∧ ∀ snapshot, outcomes ≠ [.matched snapshot] := by
    rcases h with rfl | rfl <;> exact ⟨by simp, fun _ => by simp⟩
  cases label with
  | event authorized =>
    cases hstep
    rw [if_pos h.subscribed]
    exact hcheck (Wait.outcomes_check (w := { w with head := w.head + 1 }) h.settled h.outcomes
      authorized)
  | tick authorized =>
    rw [step, if_pos h.tick] at hstep
    cases hstep
    exact hcheck (Wait.outcomes_check h.settled h.outcomes authorized)
  | take i snapshot =>
    rw [step] at hstep
    split at hstep <;> cases hstep
    exact hcheck (Or.inl h.outcomes)
  | complete i ok authorized => exact absurd rfl (hother i ok authorized)
  | timeout =>
    rw [step, if_pos h.timeout] at hstep
    cases hstep
    rw [h.finish_eq]
    exact ⟨by simp, fun _ => by simp⟩
  | abort =>
    rw [step, if_pos h.listening] at hstep
    cases hstep
    rw [h.finish_eq]
    exact ⟨by simp, fun _ => by simp⟩

/-- A failed read settles an open wait when it is the third in a row. -/
theorem faithful_of_failure (h : w.Open) {i : ℕ} {authorized : Bool}
    (hw' : w' = ({ w with
      reads := w.reads.eraseIdx i, results := false :: w.results } : Wait).readFailure) :
    Faithful opts w (.complete i false authorized) w' := by
  have hcounted := h.counted
  have hpatient := h.patient
  have hfailures : w'.failures = w.failures + 1 := by
    rw [hw', Wait.readFailure]
    dsimp only
    split_ifs
    · rw [Wait.finish, if_neg (by simp [h.settled])]
      rfl
    · rfl
  have houtcomes : w'.outcomes =
      if maxConsecutiveReadFailures ≤ w.failures + 1 then [.readFailed] else [] := by
    rw [hw', Wait.readFailure, ← hcounted]
    dsimp only
    split_ifs
    · rw [Wait.finish, if_neg (by simp [h.settled]), h.outcomes]
    · exact h.outcomes
  rw [← hfailures] at houtcomes
  constructor
  · intro snapshot hmatched
    rw [houtcomes] at hmatched
    split_ifs at hmatched
    simp at hmatched
  · rw [houtcomes]
    constructor
    · intro hfailed
      refine ⟨⟨i, authorized, rfl⟩, ?_⟩
      split_ifs at hfailed
      omega
    · rintro ⟨-, hthree⟩
      rw [if_pos hthree.ge]

/-- What settles an open wait in a step is right exactly when no event came between a snapshot of
the turn before and its completion. -/
theorem faithful_iff (h : Inv w) (hopen : w.outcomes = [])
    (hstep : step opts w label = some w') :
    Faithful opts w label w' ↔ NoneBetween opts w label := by
  have hw := h.open_of_outcomes hopen
  by_cases hother : ∀ i ok authorized, label ≠ .complete i ok authorized
  · obtain ⟨hfailed, hmatched⟩ := outcomes_of_other hw hstep hother
    constructor
    · intro _
      cases label with
      | complete i ok authorized => exact absurd rfl (hother i ok authorized)
      | _ => trivial
    · intro _
      refine ⟨fun snapshot heq => absurd heq (hmatched snapshot),
        fun heq => absurd heq hfailed, ?_⟩
      rintro ⟨⟨i, authorized, heq⟩, -⟩
      exact absurd heq (hother i false authorized)
  · simp only [not_forall, not_not] at hother
    obtain ⟨i, ok, authorized, rfl⟩ := hother
    obtain ⟨read, hget, ⟨rfl, hw'⟩ | ⟨rfl, taken, head, rfl, rfl⟩⟩ := step_complete hstep
    · exact iff_of_true (faithful_of_failure hw hw') trivial
    · obtain ⟨hfailed, hmatched⟩ := Wait.outcomes_resume opts
        (w := { w with reads := w.reads.eraseIdx i, results := true :: w.results }) hw.settled
        hw.outcomes taken authorized
      constructor
      · intro hfaithful _ snapshot head' hget' hwants hgone hafter
        cases hget.symm.trans hget'
        by_contra hmoved
        have hstarted : opts.TurnStarted snapshot w.head := by
          refine Or.inr (Or.inr ?_)
          rw [hafter]
          exact fun heq => hmoved (Option.some.inj heq).symm
        obtain ⟨-, i', authorized', head', hlabel, htaken, hcurrent⟩ :=
          hfaithful.current snapshot ((hmatched snapshot).2 ⟨rfl, hwants, hstarted⟩)
        cases hlabel
        cases hget.symm.trans htaken
        exact hcurrent.elim hgone fun hne => hne hafter
      · intro hnone
        refine ⟨fun snapshot heq => ?_, fun heq => absurd heq hfailed, ?_⟩
        · obtain ⟨rfl, hwants, hstarted⟩ := (hmatched snapshot).1 heq
          refine ⟨hwants, i, authorized, head, rfl, hget, ?_⟩
          by_contra hstale
          rw [not_or, not_not] at hstale
          obtain ⟨hgone, hafter⟩ := hstale
          have hhead := hnone hopen snapshot head hget hwants hgone hafter
          rcases hstarted with h | h | h
          · exact hgone h
          · rw [hafter] at h
            cases h
          · exact h (hhead ▸ hafter)
        · rintro ⟨⟨i', authorized', hlabel⟩, -⟩
          cases hlabel

/-- **Waiting.** However events, ticks, reads, the timeout and the abort interleave, a wait settles
once and leaves nothing behind, has one read in flight at most, and reads again at a tick; and what
it answers is right, exactly when no event comes between a snapshot of the turn before and the
completion of its read. -/
theorem waits_iff (opts : Options) (head : ℕ) (aborted authorized : Bool) (labels : List Label) :
    Run.Along (step opts) (fun w => Safe w ∧ Served opts w) (start head aborted authorized) labels ∧
      Run.AlongSteps (step opts) (fun w label w' => w.outcomes = [] → Faithful opts w label w')
        (start head aborted authorized) labels ↔
    Run.Meets (step opts) (NoneBetween opts) (start head aborted authorized) labels := by
  have hinv : Run.Along (step opts) Inv (start head aborted authorized) labels :=
    Run.along_of_invariant (C := fun _ _ => True) (fun _ _ _ h _ hs => h.step hs) (fun _ h => h)
      (.start head aborted authorized) (Run.Meets.of_forall (fun _ _ => trivial) _ _)
  rw [and_iff_right (hinv.imp fun w h => ⟨h.safe, h.served⟩)]
  refine Run.alongSteps_iff_meets (I := Inv) (fun _ _ _ h _ hs => h.step hs)
    (fun w label w' h hs => ?_) (.start head aborted authorized)
  constructor
  · intro hfaithful
    by_cases hopen : w.outcomes = []
    · exact (faithful_iff h hopen hs).1 (hfaithful hopen)
    · cases label with
      | complete i ok authorized =>
        cases ok with
        | true => exact fun hnone => absurd hnone hopen
        | false => trivial
      | _ => trivial
  · exact fun hnone hopen => (faithful_iff h hopen hs).2 hnone

/-- An event arrives after the status of the finished turn before was read: the wait that was to
see the new turn resolves with the old one. -/
theorem stale_snapshot :
    ¬ Run.AlongSteps (step ⟨[.finished], [], some 5⟩)
      (fun w label w' => w.outcomes = [] → Faithful ⟨[.finished], [], some 5⟩ w label w')
      (start 5 false true)
      [.take 0 (some ⟨.finished, .done, none⟩), .event true, .complete 0 true true] := by
  rintro ⟨-, -, hlast, -⟩
  obtain ⟨-, i, authorized, head, hlabel, hget, hcurrent⟩ := (hlast rfl).current _ rfl
  cases hlabel
  cases hget
  exact hcurrent.elim (by rintro ⟨⟩) fun hne => hne rfl

end SessionWait
end Mullion
