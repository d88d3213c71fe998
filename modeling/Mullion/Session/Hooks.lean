import Mullion.Session.ReviewGate
import Mullion.Session.Tracker

/-!
# Sessions driven by hooks

A session, its blocked and busy latches and its attention tracker (`services/pty-manager.ts`,
`services/hook-handlers.ts`, `services/stale-latch-sweep.ts`,
`services/session-state-persistence.ts`).

* `Latches` — what the session is blocked or busy with, each with its timestamp;
* `HookMessage.handle` — the hook handlers;
* `staleLatches`, `Session.clearStaleBlockedIfOlderThan` — the stale sweep;
* `Session.applyStoredState`, `Session.spawn` — the restored state and a respawn;
* `step` — one event of the session.

What a handler writes and what it has the tracker do is a `Reaction`. A handler reads the clock
as often as it likes in one instant.
-/

namespace Mullion
namespace Hooks

open Attention
open ReviewGate (GateRegistry GateState GateDecision isLatchStale blockedStaleGraceMs)

/-- A latch that a human decision ends. -/
inductive Pending
  | idle
  | pending
  deriving DecidableEq

inductive PromoteState
  | idle
  | pending
  | accepted
  | declined
  deriving DecidableEq

inductive ErrorState
  | idle
  | apiError
  | toolFailure
  deriving DecidableEq

inductive CompactState
  | idle
  | compacting
  deriving DecidableEq

/-- The latches of a session and their timestamps. -/
structure Latches where
  permissionState : Pending := .idle
  permissionAt : Option ℤ := none
  pendingPermissionTool : Option String := none
  planState : Pending := .idle
  planAt : Option ℤ := none
  gates : GateRegistry := {}
  promoteState : PromoteState := .idle
  promoteAt : Option ℤ := none
  elicitationState : Pending := .idle
  elicitationAt : Option ℤ := none
  questionState : Pending := .idle
  questionAt : Option ℤ := none
  errorState : ErrorState := .idle
  errorAt : Option ℤ := none
  compactState : CompactState := .idle
  compactAt : Option ℤ := none
  subagentCount : ℤ := 0
  subagentCountAt : Option ℤ := none

/-- What a handler writes and what it has the tracker do, in order. -/
structure Reaction where
  latches : Latches
  ops : List Op := []

structure Session where
  latches : Latches := {}
  attention : AttentionTracker := {}
  stateRestored : Bool := false

def Session.react (s : Session) (reaction : Reaction) : Session :=
  { s with
    latches := reaction.latches
    attention := reaction.ops.foldl AttentionTracker.apply s.attention }

namespace Latches

/-! ## Releasing a latch -/

def releasePermission (l : Latches) : Latches :=
  { l with permissionState := .idle, permissionAt := none, pendingPermissionTool := none }

def releasePlan (l : Latches) : Latches := { l with planState := .idle, planAt := none }

def releaseElicitation (l : Latches) : Latches :=
  { l with elicitationState := .idle, elicitationAt := none }

def releaseQuestion (l : Latches) : Latches :=
  { l with questionState := .idle, questionAt := none }

def releaseError (l : Latches) : Latches := { l with errorState := .idle, errorAt := none }

end Latches

/-! ## The hook handlers -/

/-- The hook messages that a latch or the tracker depends on. -/
inductive HookMessage
  | notification (title body : String)
  | progress (done : Bool) (backgroundTasks : Option (List BackgroundTask))
  | reviewGate (message : ReviewGate.Message) (uuid : String)
  | promoteRequest (summary : String)
  | notificationResolved
  | permissionRequest (tool summary : String)
  | stopFailure (error : String)
  | toolFailure (tool error : String)
  | planReady (summary : String)
  | turnStart
  | compact (started : Bool)
  | subagent (started : Bool) (backgroundTasks : Option (List BackgroundTask))
  | elicitation (started : Bool) (server : Option String)
  | question (started : Bool) (header : Option String)
  | permissionResolved
  | planResolved
  | toolDone (tool : String)
  /-- Any other kind. -/
  | other

/-- `RECENT_STRUCTURED_ASK_MS`. -/
def recentStructuredAskMs : ℤ := 2000

def hasRecentStructuredAsk (l : Latches) (now : ℤ) : Bool :=
  let recent (since : Option ℤ) : Bool :=
    since.any fun since => now - since < recentStructuredAskMs
  (l.questionState = .pending && recent l.questionAt) ||
    (l.permissionState = .pending && recent l.permissionAt) ||
    (l.planState = .pending && recent l.planAt) ||
    (l.promoteState = .pending && recent l.promoteAt) ||
    (l.elicitationState = .pending && recent l.elicitationAt) ||
    (l.gates.state = .waiting && recent l.gates.since)

def onNotification (l : Latches) (title body : String) (now : ℤ) : Reaction :=
  if hasRecentStructuredAsk l now then ⟨l, []⟩
  else
    ⟨l, [.emitAttentionSignalWithExtras .hookNotification
      [("title", some title), ("body", some body)] now]⟩

/-- The tracker takes the background tasks that a message carries. -/
def takeTasks (backgroundTasks : Option (List BackgroundTask)) (now : ℤ) : List Op :=
  (backgroundTasks.map fun tasks => Op.setBackgroundTasks tasks now).toList

def onProgress (l : Latches) (done : Bool) (backgroundTasks : Option (List BackgroundTask))
    (now : ℤ) : Reaction :=
  if done then
    ⟨l.releasePermission.releasePlan.releaseQuestion.releaseError,
      takeTasks backgroundTasks now ++
        [.clearIfConfirmedKind .permissionRequest now, .clearIfConfirmedKind .planReady now,
          .clearIfConfirmedKind .question now, .writeTurnEnd (some now) (some false),
          .resolveDeferredTurnEnd now, .cancelDeferred .toolFailure, .cancelDeferred .apiError]⟩
  else
    ⟨l.releaseError,
      takeTasks backgroundTasks now ++ [.cancelDeferred .agentIdle] ++
        (if backgroundTasks.isSome then [.resolveDeferredTurnEnd now] else []) ++
        [.cancelDeferred .toolFailure, .cancelDeferred .apiError]⟩

/-- What the tracker does for an effect of the gate registry. -/
def gateOps (now : ℤ) : ReviewGate.Effect → List Op
  | .event .. => []
  | .attention prompt => [.emitAttentionSignalWithExtras .reviewGate [("prompt", some prompt)] now]
  | .clearReviewGateAttention => [.clearIfConfirmedKind .reviewGate now]

/-- The gate registry changes. -/
def withGates (l : Latches) (result : GateRegistry × List ReviewGate.Effect) (now : ℤ) :
    Reaction :=
  ⟨{ l with gates := result.1 }, result.2.flatMap (gateOps now)⟩

def onPromoteRequest (l : Latches) (summary : String) (now : ℤ) : Reaction :=
  ⟨{ l with promoteState := .pending, promoteAt := some now },
    [.emitAttentionSignalWithExtras .promoteRequest [("summary", some summary)] now]⟩

def onPermissionRequest (l : Latches) (tool summary : String) (now : ℤ) : Reaction :=
  if tool = "ExitPlanMode" ∧ l.planState = .pending then ⟨l, []⟩
  else
    let extras : Extras := [("tool", some tool), ("summary", some summary)]
    ⟨{ l with
        permissionState := .pending, permissionAt := some now
        pendingPermissionTool := some tool },
      [.emitAttentionSignalDeferred .permissionRequest extras [⟨"permission_request", extras⟩] now]⟩

def onStopFailure (l : Latches) (error : String) (now : ℤ) : Reaction :=
  ⟨{ l with errorState := .apiError, errorAt := some now },
    [.writeTurnEnd none none, .cancelDeferred .agentIdle,
      .emitAttentionSignalDeferred .apiError [("title", some "API Error"), ("body", some error)] []
        now]⟩

def onToolFailure (l : Latches) (tool error : String) (now : ℤ) : Reaction :=
  ⟨{ l with errorState := .toolFailure, errorAt := some now },
    [.emitAttentionSignalDeferred .toolFailure
      [("title", some s!"Tool failed: {tool}"), ("body", some error)] [] now]⟩

def onPlanReady (l : Latches) (summary : String) (now : ℤ) : Reaction :=
  let superseded := l.permissionState = .pending ∧ l.pendingPermissionTool = some "ExitPlanMode"
  let released := if superseded then l.releasePermission else l
  ⟨{ released with planState := .pending, planAt := some now },
    (if superseded then [.clearIfConfirmedKind .permissionRequest now] else []) ++
      [.emitAttentionSignalWithExtras .planReady [("summary", some summary)] now]⟩

def onTurnStart (l : Latches) (now : ℤ) : Reaction :=
  ⟨l.releasePermission.releasePlan.releaseElicitation.releaseQuestion.releaseError,
    [.clearAttention now, .writeTurnEnd none (some false), .setBackgroundTasks [] now]⟩

def onCompact (l : Latches) (started : Bool) (now : ℤ) : Reaction :=
  ⟨if started then { l with compactState := .compacting, compactAt := some now }
    else { l with compactState := .idle, compactAt := none }, []⟩

def onSubagent (l : Latches) (started : Bool) (backgroundTasks : Option (List BackgroundTask))
    (now : ℤ) : Reaction :=
  let count := max 0 (l.subagentCount + if started then 1 else -1)
  let since :=
    if started ∧ 0 < count then some now
    else if ¬ started ∧ count = 0 then none
    else l.subagentCountAt
  ⟨{ l with subagentCount := count, subagentCountAt := since },
    takeTasks backgroundTasks now ++
      if backgroundTasks.isSome then [.resolveDeferredTurnEnd now] else []⟩

def onElicitation (l : Latches) (started : Bool) (server : Option String) (now : ℤ) : Reaction :=
  if started then
    ⟨{ l with elicitationState := .pending, elicitationAt := some now },
      [.emitAttentionSignalWithExtras .elicitation [("server", server)] now]⟩
  else ⟨l.releaseElicitation, [.clearIfConfirmedKind .elicitation now]⟩

def onQuestion (l : Latches) (started : Bool) (header : Option String) (now : ℤ) : Reaction :=
  if started then
    ⟨{ l with questionState := .pending, questionAt := some now },
      [.emitAttentionSignalWithExtras .question [("header", header)] now]⟩
  else ⟨l.releaseQuestion, [.clearIfConfirmedKind .question now]⟩

/-- The part of `tool_done` for one latch. -/
def releaseIf (condition : Bool) (release : Latches → Latches) (kind : SignalKind) (now : ℤ)
    (r : Reaction) : Reaction :=
  if condition then ⟨release r.latches, r.ops ++ [.clearIfConfirmedKind kind now]⟩ else r

def onToolDone (l : Latches) (tool : String) (now : ℤ) : Reaction :=
  let recovered : Reaction := ⟨if l.errorState = .idle then l else l.releaseError, []⟩
  let permission := l.permissionState = .pending &&
    (l.pendingPermissionTool = none || l.pendingPermissionTool = some tool)
  releaseIf (tool = "AskUserQuestion" && l.questionState = .pending) Latches.releaseQuestion
    .question now
    (releaseIf (tool = "ExitPlanMode" && l.planState = .pending) Latches.releasePlan .planReady now
      (releaseIf permission Latches.releasePermission .permissionRequest now recovered))

/-- `HOOK_HANDLERS`. -/
def HookMessage.handle (l : Latches) (now : ℤ) : HookMessage → Reaction
  | .notification title body => onNotification l title body now
  | .progress done backgroundTasks => onProgress l done backgroundTasks now
  | .reviewGate message uuid =>
    withGates l (ReviewGate.handleReviewGate l.gates message uuid now now) now
  | .promoteRequest summary => onPromoteRequest l summary now
  | .notificationResolved => ⟨l, [.clearIfConfirmedKind .hookNotification now]⟩
  | .permissionRequest tool summary => onPermissionRequest l tool summary now
  | .stopFailure error => onStopFailure l error now
  | .toolFailure tool error => onToolFailure l tool error now
  | .planReady summary => onPlanReady l summary now
  | .turnStart => onTurnStart l now
  | .compact started => onCompact l started now
  | .subagent started backgroundTasks => onSubagent l started backgroundTasks now
  | .elicitation started server => onElicitation l started server now
  | .question started header => onQuestion l started header now
  | .permissionResolved =>
    ⟨l.releasePermission, [.clearIfConfirmedKind .permissionRequest now]⟩
  | .planResolved => ⟨l.releasePlan, [.clearIfConfirmedKind .planReady now]⟩
  | .toolDone tool => onToolDone l tool now
  | .other => ⟨l, []⟩

/-! ## The stale sweep -/

/-- A `StaleLatch`; `clear` has the tracker do what the latch itself needs. -/
structure StaleLatch where
  blocked : Bool
  isActive : Session → Bool
  since : Session → Option ℤ
  clear : Session → Reaction
  attentionKind : Option SignalKind

/-- `staleLatches`. -/
def staleLatches (now : ℤ) : List StaleLatch :=
  [ { blocked := true
      isActive := fun s => s.latches.permissionState ≠ .idle
      since := fun s => s.latches.permissionAt
      clear := fun s => ⟨s.latches.releasePermission, []⟩
      attentionKind := some .permissionRequest },
    { blocked := true
      isActive := fun s => s.latches.planState ≠ .idle
      since := fun s => s.latches.planAt
      clear := fun s => ⟨s.latches.releasePlan, []⟩
      attentionKind := some .planReady },
    { blocked := true
      isActive := fun s => s.latches.gates.state = .waiting
      since := fun s => s.latches.gates.since
      clear := fun s => withGates s.latches s.latches.gates.clearStale now
      attentionKind := some .reviewGate },
    { blocked := true
      isActive := fun s => s.latches.promoteState = .pending
      since := fun s => s.latches.promoteAt
      clear := fun s => ⟨{ s.latches with promoteState := .idle, promoteAt := none }, []⟩
      attentionKind := some .promoteRequest },
    { blocked := true
      isActive := fun s => s.latches.elicitationState ≠ .idle
      since := fun s => s.latches.elicitationAt
      clear := fun s => ⟨s.latches.releaseElicitation, []⟩
      attentionKind := some .elicitation },
    { blocked := true
      isActive := fun s => s.latches.questionState ≠ .idle
      since := fun s => s.latches.questionAt
      clear := fun s => ⟨s.latches.releaseQuestion, []⟩
      attentionKind := some .question },
    { blocked := false
      isActive := fun s => s.latches.compactState ≠ .idle
      since := fun s => s.latches.compactAt
      clear := fun s => ⟨{ s.latches with compactState := .idle, compactAt := none }, []⟩
      attentionKind := none },
    { blocked := false
      isActive := fun s => 0 < s.latches.subagentCount
      since := fun s => s.latches.subagentCountAt
      clear := fun s => ⟨{ s.latches with subagentCount := 0, subagentCountAt := none }, []⟩
      attentionKind := none },
    { blocked := false
      isActive := fun s => filterOutstandingBackgroundTasks s.attention.backgroundTasks ≠ []
      since := fun s => s.attention.backgroundTasksAt
      clear := fun s => ⟨s.latches, [.setBackgroundTasks [] now]⟩
      attentionKind := none } ]

/-- The sweep comes to one latch. -/
def StaleLatch.sweep (blockedMaxAgeMs busyMaxAgeMs now : ℤ) (lastActivityAt : Option ℤ)
    (s : Session) (latch : StaleLatch) : Session :=
  if latch.isActive s && isLatchStale (latch.since s)
      (if latch.blocked then blockedMaxAgeMs else busyMaxAgeMs) now lastActivityAt
      blockedStaleGraceMs then
    let cleared := latch.clear s
    s.react ⟨cleared.latches, cleared.ops ++
      (latch.attentionKind.map fun kind => Op.clearIfConfirmedKind kind now).toList⟩
  else s

namespace Session

/-- `clearStaleBlockedIfOlderThan`. -/
def clearStaleBlockedIfOlderThan (s : Session) (blockedMaxAgeMs busyMaxAgeMs now : ℤ)
    (lastActivityAt : Option ℤ) : Session :=
  (staleLatches now).foldl (StaleLatch.sweep blockedMaxAgeMs busyMaxAgeMs now lastActivityAt) s

def clearStaleErrorIfOlderThan (s : Session) (maxAgeMs now : ℤ) : Session :=
  match s.latches.errorState, s.latches.errorAt with
  | .idle, _ => s
  | _, none => s
  | _, some since =>
    if now - since < maxAgeMs then s else s.react ⟨s.latches.releaseError, []⟩

/-! ## The user and the agent -/

/-- `clearTurnLatches`. -/
def clearTurnLatches (l : Latches) (now : ℤ) : Reaction :=
  ⟨if l.errorState = .idle then l else l.releaseError,
    [.writeTurnEnd none (some false), .setBackgroundTasks [] now]⟩

/-- `noteUserInput`, where `isGenuineUserInput`. -/
def noteUserInput (s : Session) (now : ℤ) : Session :=
  let turn := clearTurnLatches s.latches now
  if s.latches.gates.state = .waiting ∧ s.attention.state.confirmedKind = some .reviewGate then
    s.react turn
  else s.react ⟨turn.latches, .applyAttentionTransition (.userInput now) [] :: turn.ops⟩

/-- `resolvePromote`. -/
def resolvePromote (l : Latches) (accepted : Bool) (now : ℤ) : Reaction :=
  ⟨{ l with promoteState := if accepted then .accepted else .declined, promoteAt := none },
    [.clearIfConfirmedKind .promoteRequest now]⟩

/-- What refuses an acknowledgement before the tracker is asked. -/
def blocked (l : Latches) : Bool :=
  l.gates.state = .waiting || l.promoteState = .pending || l.permissionState = .pending ||
    l.planState = .pending || l.elicitationState = .pending || l.questionState = .pending

/-- `Session.acknowledgeAttention`, and whether it was done. -/
def acknowledgeAttention (s : Session) (now : ℤ) : Session × Bool :=
  if blocked s.latches then (s, false)
  else
    let acknowledged := s.attention.acknowledgeAttention now
    ({ s with attention := acknowledged.1 }, acknowledged.2)

end Session

/-! ## The restored state and a respawn -/

/-- The stored fields that a latch or the tracker depends on; a missing field is `none`. -/
structure StoredState where
  permissionState : Option Pending := none
  planState : Option Pending := none
  errorState : Option ErrorState := none
  errorAt : Option (Option ℤ) := none
  gateState : Option GateState := none
  gatePrompt : Option (Option String) := none
  promoteState : Option PromoteState := none
  attentionKind : Option (Option SignalKind) := none
  compactState : Option CompactState := none
  subagentCount : Option ℤ := none
  elicitationState : Option Pending := none
  questionState : Option Pending := none
  questionAt : Option (Option ℤ) := none
  lastTurnEndedAt : Option (Option ℤ) := none
  backgroundTasks : Option (List BackgroundTask) := none

namespace Latches

/-- A timestamp that is missing while its latch is held. -/
def stamp (held : Bool) (since : Option ℤ) (now : ℤ) : Option ℤ :=
  if held && since.isNone then some now else since

def stampRestoredLatches (l : Latches) (now : ℤ) : Latches :=
  { l with
    permissionAt := stamp (l.permissionState ≠ .idle) l.permissionAt now
    planAt := stamp (l.planState ≠ .idle) l.planAt now
    promoteAt := stamp (l.promoteState = .pending) l.promoteAt now
    elicitationAt := stamp (l.elicitationState ≠ .idle) l.elicitationAt now
    compactAt := stamp (l.compactState ≠ .idle) l.compactAt now
    subagentCountAt := stamp (0 < l.subagentCount) l.subagentCountAt now }

end Latches

/-- `lapseRestoredSummary`. -/
def lapseRestoredSummary (gates : GateRegistry) : GateRegistry :=
  { gates with state := .lapsed, prompt := none, since := none }

/-- The gate of the stored state is lapsed in place. -/
def StoredState.lapses (stored : StoredState) (lapseWaitingGate : Bool) : Bool :=
  lapseWaitingGate && stored.gateState = some .waiting

/-- The latches that `applyStoredState` leaves. -/
def StoredState.latches (stored : StoredState) (lapseWaitingGate : Bool) (l : Latches)
    (now : ℤ) : Latches :=
  { l with
    permissionState := stored.permissionState.getD l.permissionState
    planState := stored.planState.getD l.planState
    errorState := stored.errorState.getD l.errorState
    errorAt := stored.errorAt.getD l.errorAt
    gates :=
      if stored.lapses lapseWaitingGate then lapseRestoredSummary l.gates
      else
        { l.gates with
          state := stored.gateState.getD l.gates.state
          prompt := stored.gatePrompt.getD l.gates.prompt }
    promoteState := stored.promoteState.getD l.promoteState
    compactState := stored.compactState.getD l.compactState
    subagentCount := stored.subagentCount.getD l.subagentCount
    elicitationState := stored.elicitationState.getD l.elicitationState
    questionState := stored.questionState.getD l.questionState
    questionAt := stored.questionAt.getD l.questionAt }.stampRestoredLatches now

/-- What `applyStoredState` has the tracker do. -/
def StoredState.ops (stored : StoredState) (lapseWaitingGate restoreAttentionKind : Bool)
    (now : ℤ) : List Op :=
  (if stored.lapses lapseWaitingGate then [.clearIfConfirmedKind .reviewGate now] else []) ++
    (if restoreAttentionKind then
        (stored.attentionKind.join.map fun kind =>
          Op.applyAttentionTransition (.signal kind now) []).toList
      else []) ++
    (stored.lastTurnEndedAt.map fun ended => Op.writeTurnEnd ended none).toList ++
    takeTasks stored.backgroundTasks now

namespace Session

/-- The ping of a restored turn end counts as sent unless a task is outstanding. -/
def restorePing (s : Session) : Session :=
  if s.attention.lastTurnEndedAt.isSome then
    { s with attention := { s.attention with
        turnEndPingSent :=
          (filterOutstandingBackgroundTasks s.attention.backgroundTasks).isEmpty } }
  else s

def applyStoredState (s : Session) (stored : StoredState)
    (lapseWaitingGate restoreAttentionKind : Bool) (now : ℤ) : Session :=
  (s.react ⟨stored.latches lapseWaitingGate s.latches now,
    stored.ops lapseWaitingGate restoreAttentionKind now⟩).restorePing

/-- `collectState`. -/
def collectState (s : Session) : StoredState where
  permissionState := some s.latches.permissionState
  planState := some s.latches.planState
  errorState := some s.latches.errorState
  errorAt := some s.latches.errorAt
  gateState := some s.latches.gates.state
  gatePrompt := some s.latches.gates.prompt
  promoteState := some s.latches.promoteState
  attentionKind := some s.attention.state.confirmedKind
  compactState := some s.latches.compactState
  subagentCount := some s.latches.subagentCount
  elicitationState := some s.latches.elicitationState
  questionState := some s.latches.questionState
  questionAt := some s.latches.questionAt
  lastTurnEndedAt := some s.attention.lastTurnEndedAt
  backgroundTasks := some s.attention.backgroundTasks

/-- The reset of `spawn`; the live gates are not touched. -/
def reset (s : Session) (now : ℤ) : Session :=
  s.react ⟨{ gates := s.latches.gates.resetSummary },
    [.writeTurnEnd none (some false), .setBackgroundTasks [] now, .resetState, .clearDeferred]⟩

/-- `spawn`, where there is no process yet. -/
def spawn (s : Session) (now : ℤ) : Session :=
  if s.stateRestored then (s.reset now).applyStoredState s.collectState true false now
  else s.reset now

/-- A `Session` is constructed, with the state file that `readStateFile` finds. -/
def start (file : Option StoredState) (freshSocket : Bool) (now : ℤ) : Session :=
  match file with
  | none => { stateRestored := freshSocket }
  | some stored =>
    { applyStoredState {} stored false true now with stateRestored := true }

end Session

/-! ## Events -/

/-- The signals that a chunk of output may carry. -/
inductive OutputSignal
  | altScreenExit
  | titleIdle
  | notification
  | bell

def OutputSignal.kind : OutputSignal → SignalKind
  | .altScreenExit => .altScreenExit
  | .titleIdle => .titleIdle
  | .notification => .notification
  | .bell => .bell

inductive Label
  | message (message : HookMessage) (now : ℤ)
  /-- A chunk of output, and whether it is a repaint that Mullion asked for. -/
  | output (candidate : Option OutputSignal) (suppressing : Bool) (now : ℤ)
  | keystroke (genuine : Bool) (now : ℤ)
  /-- An agent prompts the session. -/
  | beginAgentTurn (now : ℤ)
  /-- The evaluator runs, and whether the session has been silent for long enough after work. -/
  | tick (silent : Bool) (now : ℤ)
  | resolveGate (gateId : String) (decision : GateDecision) (reason : Option String) (now : ℤ)
  | resolvePromote (accepted : Bool) (now : ℤ)
  | acknowledgeAttention (now : ℤ)
  | clearStaleBlocked (blockedMaxAgeMs busyMaxAgeMs now : ℤ) (lastActivityAt : Option ℤ)
  | clearStaleError (maxAgeMs now : ℤ)
  | spawn (now : ℤ)
  /-- The attach client ends. -/
  | exit

/-- What a chunk of output has the tracker do. -/
def outputOps (candidate : Option OutputSignal) (suppressing : Bool) (now : ℤ) : List Op :=
  match candidate with
  | some signal =>
    [.applyAttentionTransition (.signal signal.kind now) [], .cancelDeferred .toolFailure,
      .cancelDeferred .apiError]
  | none =>
    if suppressing then []
    else
      [.applyAttentionTransition (.output now) [], .cancelDeferred .toolFailure,
        .cancelDeferred .apiError]

/-- `tick`. -/
def Session.tick (s : Session) (silent : Bool) (now : ℤ) : Session :=
  let drained := s.react ⟨s.latches,
    [.applyAttentionTransition (.tick now) [], .drainDeferred now]⟩
  if drained.attention.state.state = .idle ∧ silent then
    drained.react ⟨drained.latches, [.applyAttentionTransition (.signal .silence now) []]⟩
  else drained

/-- One event. -/
def Session.next (s : Session) : Label → Session
  | .message message now => s.react (message.handle s.latches now)
  | .output candidate suppressing now =>
    s.react ⟨s.latches, outputOps candidate suppressing now⟩
  | .keystroke genuine now => if genuine then s.noteUserInput now else s
  | .beginAgentTurn now => s.react (Session.clearTurnLatches s.latches now)
  | .tick silent now => s.tick silent now
  | .resolveGate gateId decision reason now =>
    s.react (withGates s.latches (s.latches.gates.resolve gateId decision reason) now)
  | .resolvePromote accepted now => s.react (Session.resolvePromote s.latches accepted now)
  | .acknowledgeAttention now => (s.acknowledgeAttention now).1
  | .clearStaleBlocked blockedMaxAgeMs busyMaxAgeMs now lastActivityAt =>
    s.clearStaleBlockedIfOlderThan blockedMaxAgeMs busyMaxAgeMs now lastActivityAt
  | .clearStaleError maxAgeMs now => s.clearStaleErrorIfOlderThan maxAgeMs now
  | .spawn now => s.spawn now
  | .exit => s.react ⟨s.latches, [.clearDeferred]⟩

/-- Every event is possible. -/
def step (s : Session) (label : Label) : Option Session := some (s.next label)

end Hooks
end Mullion
