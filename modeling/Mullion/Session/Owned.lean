import Mullion.Lib.Run
import Mullion.Session.Hooks

/-!
# Attention and its latches

A session asks for its user as long as a latch is held, and no longer. In terms of the state: no
kind that a latch owns is pending or confirmed without its latch (`Owned`), every latch that is held
has its timestamp (`Latches.Timed`, `TasksTimed`), and the summary of the gates says that one waits
when one does (`GateShown`).

There is one handler for each kind of hook event, and each does two things: it changes latches, and
it gives the attention machine some operations. `Reaction.Keeps` says what such a pair has to keep,
and there is one short lemma for each handler (`onNotification_keeps` and so on). What is left is to
apply the operations to the machine, and the events that are not reactions: the restored state, the
stale sweep, a respawn. A respawn is the exception. It resets the machine but not the gates, and
hides one that waits (`respawn_hides_gate`). `kept_iff` has the three exactly when the stored state
is consistent and no respawn finds a gate waiting.

`settled_signals` is about deferred signals: each is told once if a drain at or after its due time
is what ends it, and an acknowledgement leaves every kind that refuses it. A kind that was deferred
under its latch is followed through the operations of a session (`Waits`).
-/

namespace Mullion
namespace Hooks

open Attention
open ReviewGate (GateRegistry GateState GateDecision isLatchStale blockedStaleGraceMs)

/-! ## What is asked -/

/-- The latch that owns the kind is held. -/
def Latches.owns (l : Latches) : SignalKind → Prop
  | .permissionRequest => l.permissionState = .pending
  | .planReady => l.planState = .pending
  | .question => l.questionState = .pending
  | .elicitation => l.elicitationState = .pending
  | .promoteRequest => l.promoteState = .pending
  | .reviewGate => l.gates.state = .waiting
  | _ => True

/-- No kind that a latch owns is pending or confirmed without its latch. -/
def Owned (s : Session) : Prop := ∀ kind, Live s.attention kind → s.latches.owns kind

/-- Every latch that is held has its timestamp. -/
structure Latches.Timed (l : Latches) : Prop where
  permission : l.permissionState ≠ .idle → l.permissionAt.isSome
  plan : l.planState ≠ .idle → l.planAt.isSome
  gate : l.gates.state = .waiting → l.gates.since.isSome
  promote : l.promoteState = .pending → l.promoteAt.isSome
  elicitation : l.elicitationState ≠ .idle → l.elicitationAt.isSome
  question : l.questionState ≠ .idle → l.questionAt.isSome
  error : l.errorState ≠ .idle → l.errorAt.isSome
  compact : l.compactState ≠ .idle → l.compactAt.isSome
  subagent : 0 < l.subagentCount → l.subagentCountAt.isSome

/-- Outstanding background tasks have their timestamp. -/
def TasksTimed (t : AttentionTracker) : Prop :=
  filterOutstandingBackgroundTasks t.backgroundTasks ≠ [] → t.backgroundTasksAt.isSome

/-- The summary says that a gate waits when one does. -/
def GateShown (gates : GateRegistry) : Prop :=
  gates.state = .waiting ↔ gates.pending.entries.rows ≠ []

/-- No attention is orphaned, no latch is without its timestamp, and the gates are shown. -/
structure Kept (s : Session) : Prop where
  owned : Owned s
  timed : s.latches.Timed
  tasks : TasksTimed s.attention
  gates : GateShown s.latches.gates

/-! ## The gate registry -/

/-- What a registry keeps. -/
structure GateSound (gates : GateRegistry) : Prop where
  shown : GateShown gates
  since : gates.state = .waiting → gates.since.isSome

theorem rows_set_ne_nil {κ ν : Type*} [DecidableEq κ] (m : OrderedMap κ ν) (k : κ) (v : ν) :
    (m.set k v).entries.rows ≠ [] := by
  intro hnil
  have hmem := OrderedMap.lookup_eq_some_iff.1 (m.lookup_set_self k v)
  rw [hnil] at hmem
  cases hmem

theorem GateSound.register {gates : GateRegistry} (h : GateSound gates) (gateId prompt : String)
    (now now' : ℤ) : GateSound (gates.register gateId prompt now now') := by
  rw [GateRegistry.register]
  split
  · exact ⟨⟨fun _ => rows_set_ne_nil _ _ _, fun _ => rfl⟩, fun _ => rfl⟩
  · next hsize =>
    refine ⟨⟨fun _ => rows_set_ne_nil _ _ _, fun _ => rfl⟩, fun _ => ?_⟩
    apply h.since
    apply h.shown.2
    intro hnil
    exact hsize (by rw [OrderedMap.size, hnil]; rfl)

theorem GateSound.resolve {gates : GateRegistry} (h : GateSound gates) (gateId : String)
    (decision : GateDecision) (reason : Option String) :
    GateSound (gates.resolve gateId decision reason).1 := by
  rw [GateRegistry.resolve]
  split
  · exact h
  · next gate hgate =>
    dsimp only
    have hwaiting : gates.state = .waiting := by
      apply h.shown.2
      intro hnil
      have hmem := OrderedMap.lookup_eq_some_iff.1 hgate
      rw [hnil] at hmem
      cases hmem
    split
    · next hhead =>
      rw [List.head?_eq_none_iff] at hhead
      refine ⟨⟨?_, fun hrows => absurd hhead hrows⟩, ?_⟩
      · cases decision with
        | _ => rintro ⟨⟩
      · cases decision with
        | _ => rintro ⟨⟩
    · next oldest hhead =>
      refine ⟨⟨fun _ hnil => ?_, fun _ => hwaiting⟩, fun _ => rfl⟩
      rw [show (gates.pending.erase gateId).entries.rows = [] from hnil] at hhead
      cases hhead

theorem GateSound.clearStale (gates : GateRegistry) : GateSound gates.clearStale.1 := by
  have hrows : gates.clearStale.1.pending.entries.rows = [] := by
    rw [List.eq_nil_iff_forall_not_mem]
    rintro ⟨k, gate⟩ hmem
    rw [← OrderedMap.lookup_eq_some_iff, GateRegistry.clearStale_lookup] at hmem
    cases hmem
  refine ⟨⟨?_, fun hne => absurd hrows hne⟩, ?_⟩
  · rintro ⟨⟩
  · rintro ⟨⟩

theorem GateSound.handleReviewGate {gates : GateRegistry} (h : GateSound gates)
    (message : ReviewGate.Message) (uuid : String) (now now' : ℤ) :
    GateSound (ReviewGate.handleReviewGate gates message uuid now now').1 := by
  rw [ReviewGate.handleReviewGate]
  split
  · exact h.register _ _ _ _
  · split
    · exact h
    · exact h.resolve _ _ _

/-! ## Sound reactions -/

/-- After the reaction, a kind is live only if its latch is held. -/
def Reaction.Sound (l : Latches) (r : Reaction) : Prop :=
  ∀ kind, Survives kind r.ops (l.owns kind) → r.latches.owns kind

theorem survives_append {kind : SignalKind} {ops ops' : List Op} {p : Prop} :
    Survives kind (ops ++ ops') p ↔ Survives kind ops' (Survives kind ops p) := by
  induction ops generalizing p with
  | nil => rfl
  | cons op ops ih => exact ih

/-- Operations that raise nothing leave no more than there was. -/
theorem Survives.of_not_raises {kind : SignalKind} {ops : List Op} {p : Prop}
    (hops : ∀ op ∈ ops, op.raises kind = false) (h : Survives kind ops p) : p := by
  induction ops generalizing p with
  | nil => exact h
  | cons op ops ih =>
    have hop := hops op List.mem_cons_self
    rcases ih (fun o ho => hops o (List.mem_cons_of_mem _ ho)) h with hraise | ⟨-, hp⟩
    · rw [hop] at hraise
      cases hraise
    · exact hp

/-- Only the kind of a gate is raised by what happens to the gates. -/
theorem not_raises_gateOps {kind : SignalKind} (hkind : kind ≠ .reviewGate) {now : ℤ}
    {effects : List ReviewGate.Effect} :
    ∀ op ∈ effects.flatMap (gateOps now), op.raises kind = false := by
  intro op hop
  obtain ⟨effect, -, hop⟩ := List.mem_flatMap.1 hop
  cases effect with
  | event state gateId prompt reason => cases hop
  | attention prompt =>
    rw [gateOps, List.mem_singleton] at hop
    rw [hop]
    simp [Op.raises, hkind.symm]
  | clearReviewGateAttention =>
    rw [gateOps, List.mem_singleton] at hop
    rw [hop]
    rfl

theorem withGates_owns {l : Latches} {result : GateRegistry × List ReviewGate.Effect} {now : ℤ}
    {kind : SignalKind} (hkind : kind ≠ .reviewGate) :
    (withGates l result now).latches.owns kind = l.owns kind := by
  cases kind with
  | reviewGate => exact absurd rfl hkind
  | _ => rfl

/-- Only a kind that refuses an acknowledgement has a latch. -/
theorem owns_of_not_ackBlocking {kind : SignalKind} (hkind : ackBlocking kind = false)
    (l : Latches) : l.owns kind := by
  cases kind <;> trivial

/-- What the operations do last about the kind: they raise it, clear it, or neither. -/
def fate (kind : SignalKind) : List Op → Option Bool
  | [] => none
  | op :: ops =>
    (fate kind ops).or
      (if op.raises kind then some true else if op.clears kind then some false else none)

theorem survives_iff_fate {kind : SignalKind} {ops : List Op} {p : Prop} :
    Survives kind ops p ↔ (fate kind ops).elim p (· = true) := by
  induction ops generalizing p with
  | nil => rfl
  | cons op ops ih =>
    rw [Survives, ih, fate]
    cases fate kind ops with
    | some raised => rfl
    | none => cases hraise : op.raises kind <;> cases hclear : op.clears kind <;> simp

/-- A reaction is sound if it is for each kind with a latch, by what it does last about it. -/
theorem Reaction.Sound.of_fate {l : Latches} {r : Reaction}
    (h : ∀ kind, ackBlocking kind → (fate kind r.ops).elim (l.owns kind) (· = true) →
      r.latches.owns kind) : r.Sound l := by
  intro kind hlive
  cases hkind : ackBlocking kind with
  | true => exact h kind hkind (survives_iff_fate.1 hlive)
  | false => exact owns_of_not_ackBlocking hkind _

theorem Reaction.Sound.withGates {l : Latches} {result : GateRegistry × List ReviewGate.Effect}
    {now : ℤ}
    (h : Survives .reviewGate (result.2.flatMap (gateOps now)) (l.gates.state = .waiting) →
      result.1.state = .waiting) : (withGates l result now).Sound l := by
  intro kind hlive
  by_cases hkind : kind = .reviewGate
  · subst hkind
    exact h hlive
  · rw [withGates_owns hkind]
    exact Survives.of_not_raises (not_raises_gateOps hkind) hlive

theorem Reaction.Sound.resolve (l : Latches) (gateId : String) (decision : GateDecision)
    (reason : Option String) (now : ℤ) :
    (Hooks.withGates l (l.gates.resolve gateId decision reason) now).Sound l := by
  refine .withGates fun hlive => ?_
  revert hlive
  rw [GateRegistry.resolve]
  split
  · exact id
  · dsimp only
    split
    · simp [gateOps, Survives, Op.raises, Op.clears]
    · exact id

theorem Reaction.Sound.handleReviewGate (l : Latches) (message : ReviewGate.Message)
    (uuid : String) (now : ℤ) :
    (Hooks.withGates l (ReviewGate.handleReviewGate l.gates message uuid now now) now).Sound l := by
  rw [ReviewGate.handleReviewGate]
  split
  · refine .withGates fun _ => ?_
    dsimp only [GateRegistry.register]
    split
    · rfl
    · rfl
  · split
    · exact .withGates id
    · exact .resolve l _ _ _ now

/-! ## Every reaction keeps what it should -/

/-- Every latch has its timestamp, and the gates are shown. -/
structure Latches.Sound (l : Latches) : Prop where
  timed : l.Timed
  shown : GateShown l.gates

theorem Latches.Sound.gateSound {l : Latches} (h : l.Sound) : GateSound l.gates :=
  ⟨h.shown, h.timed.gate⟩

/-- What a reaction keeps. -/
structure Reaction.Keeps (l : Latches) (r : Reaction) : Prop where
  sound : r.Sound l
  latches : l.Sound → r.latches.Sound

theorem Reaction.Keeps.withGates {l : Latches} {result : GateRegistry × List ReviewGate.Effect}
    {now : ℤ} (hsound : (withGates l result now).Sound l)
    (hgates : GateSound l.gates → GateSound result.1) : (withGates l result now).Keeps l where
  sound := hsound
  latches h := ⟨{ h.timed with gate := (hgates h.gateSound).since }, (hgates h.gateSound).shown⟩

section Handlers

variable (l : Latches) (now : ℤ)

/-- A reaction that only has the tracker do something that raises no kind with a latch. -/
theorem Reaction.Keeps.of_not_raises {ops : List Op}
    (hops : ∀ kind, (∀ op ∈ ops, op.raises kind = false) ∨ l.owns kind) :
    Reaction.Keeps l ⟨l, ops⟩ where
  sound kind h := by
    rcases hops kind with hops | howns
    · exact Survives.of_not_raises hops h
    · exact howns
  latches := id

theorem releasePermission_keeps :
    (Reaction.mk l.releasePermission [.clearIfConfirmedKind .permissionRequest now]).Keeps l := by
  refine ⟨.of_fate fun kind hkind h => ?_, fun h =>
    ⟨{ h.timed with permission := fun hne => absurd rfl hne }, h.shown⟩⟩
  cases kind <;> cases hkind <;> first | exact h | cases h

theorem releasePlan_keeps :
    (Reaction.mk l.releasePlan [.clearIfConfirmedKind .planReady now]).Keeps l := by
  refine ⟨.of_fate fun kind hkind h => ?_, fun h =>
    ⟨{ h.timed with plan := fun hne => absurd rfl hne }, h.shown⟩⟩
  cases kind <;> cases hkind <;> first | exact h | cases h

theorem releaseQuestion_keeps :
    (Reaction.mk l.releaseQuestion [.clearIfConfirmedKind .question now]).Keeps l := by
  refine ⟨.of_fate fun kind hkind h => ?_, fun h =>
    ⟨{ h.timed with question := fun hne => absurd rfl hne }, h.shown⟩⟩
  cases kind <;> cases hkind <;> first | exact h | cases h

theorem releaseElicitation_keeps :
    (Reaction.mk l.releaseElicitation [.clearIfConfirmedKind .elicitation now]).Keeps l := by
  refine ⟨.of_fate fun kind hkind h => ?_, fun h =>
    ⟨{ h.timed with elicitation := fun hne => absurd rfl hne }, h.shown⟩⟩
  cases kind <;> cases hkind <;> first | exact h | cases h

theorem releaseError_keeps : (Reaction.mk l.releaseError []).Keeps l := by
  refine ⟨.of_fate fun kind hkind h => ?_, fun h =>
    ⟨{ h.timed with error := fun hne => absurd rfl hne }, h.shown⟩⟩
  cases kind <;> cases hkind <;> exact h

theorem onNotification_keeps (title body : String) :
    (onNotification l title body now).Keeps l := by
  rw [onNotification]
  split
  · exact ⟨fun _ => id, id⟩
  · refine ⟨.of_fate fun kind hkind h => ?_, id⟩
    cases kind <;> cases hkind <;> exact h

theorem onProgress_keeps (done : Bool) (backgroundTasks : Option (List BackgroundTask)) :
    (onProgress l done backgroundTasks now).Keeps l := by
  rw [onProgress]
  split
  · refine ⟨.of_fate fun kind hkind h => ?_, fun h => ⟨?_, h.shown⟩⟩
    · cases backgroundTasks <;> cases kind <;> cases hkind <;> first | exact h | cases h
    · exact { h.timed with
        permission := by simp [Latches.releasePermission, Latches.releasePlan,
          Latches.releaseQuestion, Latches.releaseError]
        plan := by simp [Latches.releasePlan, Latches.releaseQuestion, Latches.releaseError]
        question := by simp [Latches.releaseQuestion, Latches.releaseError]
        error := by simp [Latches.releaseError] }
  · refine ⟨.of_fate fun kind hkind h => ?_, fun h => ⟨?_, h.shown⟩⟩
    · cases backgroundTasks <;> cases kind <;> cases hkind <;> exact h
    · exact { h.timed with error := by simp [Latches.releaseError] }

theorem onPromoteRequest_keeps (summary : String) : (onPromoteRequest l summary now).Keeps l := by
  refine ⟨.of_fate fun kind hkind h => ?_, fun h => ⟨?_, h.shown⟩⟩
  · cases kind <;> cases hkind <;> first | exact h | rfl
  · exact { h.timed with promote := fun _ => rfl }

theorem onPermissionRequest_keeps (tool summary : String) :
    (onPermissionRequest l tool summary now).Keeps l := by
  rw [onPermissionRequest]
  split
  · exact ⟨fun _ => id, id⟩
  · refine ⟨.of_fate fun kind hkind h => ?_, fun h => ⟨?_, h.shown⟩⟩
    · cases kind <;> cases hkind <;> first | exact h | rfl
    · exact { h.timed with permission := fun _ => rfl }

theorem onStopFailure_keeps (error : String) : (onStopFailure l error now).Keeps l := by
  refine ⟨.of_fate fun kind hkind h => ?_, fun h => ⟨?_, h.shown⟩⟩
  · cases kind <;> cases hkind <;> exact h
  · exact { h.timed with error := fun _ => rfl }

theorem onToolFailure_keeps (tool error : String) : (onToolFailure l tool error now).Keeps l := by
  refine ⟨.of_fate fun kind hkind h => ?_, fun h => ⟨?_, h.shown⟩⟩
  · cases kind <;> cases hkind <;> exact h
  · exact { h.timed with error := fun _ => rfl }

theorem onPlanReady_keeps (summary : String) : (onPlanReady l summary now).Keeps l := by
  rw [onPlanReady]
  split
  · refine ⟨.of_fate fun kind hkind h => ?_, fun h => ⟨?_, h.shown⟩⟩
    · cases kind <;> cases hkind <;> first | exact h | rfl | cases h
    · exact { h.timed with
        permission := by simp [Latches.releasePermission]
        plan := fun _ => rfl }
  · refine ⟨.of_fate fun kind hkind h => ?_, fun h => ⟨?_, h.shown⟩⟩
    · cases kind <;> cases hkind <;> first | exact h | rfl
    · exact { h.timed with plan := fun _ => rfl }

theorem onTurnStart_keeps : (onTurnStart l now).Keeps l := by
  refine ⟨.of_fate fun kind hkind h => ?_, fun h => ⟨?_, h.shown⟩⟩
  · cases kind <;> cases hkind <;> first | exact h | cases h
  · exact { h.timed with
      permission := by simp [onTurnStart, Latches.releasePermission, Latches.releasePlan,
        Latches.releaseElicitation, Latches.releaseQuestion, Latches.releaseError]
      plan := by simp [onTurnStart, Latches.releasePlan, Latches.releaseElicitation,
        Latches.releaseQuestion, Latches.releaseError]
      elicitation := by simp [onTurnStart, Latches.releaseElicitation, Latches.releaseQuestion,
        Latches.releaseError]
      question := by simp [onTurnStart, Latches.releaseQuestion, Latches.releaseError]
      error := by simp [onTurnStart, Latches.releaseError] }

theorem onCompact_keeps (started : Bool) : (onCompact l started now).Keeps l := by
  rw [onCompact]
  split
  · exact ⟨fun kind => by cases kind <;> exact id,
      fun h => ⟨{ h.timed with compact := fun _ => rfl }, h.shown⟩⟩
  · exact ⟨fun kind => by cases kind <;> exact id,
      fun h => ⟨{ h.timed with compact := fun hne => absurd rfl hne }, h.shown⟩⟩

theorem onSubagent_keeps (started : Bool) (backgroundTasks : Option (List BackgroundTask)) :
    (onSubagent l started backgroundTasks now).Keeps l := by
  refine ⟨.of_fate fun kind hkind h => ?_, fun h =>
    ⟨{ h.timed with subagent := fun hcount => ?_ }, h.shown⟩⟩
  · cases backgroundTasks <;> cases kind <;> cases hkind <;> exact h
  · rw [onSubagent] at hcount ⊢
    dsimp only at hcount ⊢
    cases started with
    | true =>
      rw [if_pos ⟨rfl, hcount⟩]
      rfl
    | false =>
      -- the count that is left was there before
      have hbefore : 0 < l.subagentCount := by
        simp only [Bool.false_eq_true, if_false] at hcount
        omega
      rw [if_neg (by simp), if_neg]
      · exact h.timed.subagent hbefore
      · rintro ⟨-, hzero⟩
        omega

theorem onElicitation_keeps (started : Bool) (server : Option String) :
    (onElicitation l started server now).Keeps l := by
  rw [onElicitation]
  split
  · refine ⟨.of_fate fun kind hkind h => ?_, fun h =>
      ⟨{ h.timed with elicitation := fun _ => rfl }, h.shown⟩⟩
    cases kind <;> cases hkind <;> first | exact h | rfl
  · exact releaseElicitation_keeps l now

theorem onQuestion_keeps (started : Bool) (header : Option String) :
    (onQuestion l started header now).Keeps l := by
  rw [onQuestion]
  split
  · refine ⟨.of_fate fun kind hkind h => ?_, fun h =>
      ⟨{ h.timed with question := fun _ => rfl }, h.shown⟩⟩
    cases kind <;> cases hkind <;> first | exact h | rfl
  · exact releaseQuestion_keeps l now

/-- A reaction and then another, on the latches it left. -/
theorem Reaction.Keeps.append {l : Latches} {r r' : Reaction} (h : r.Keeps l)
    (h' : r'.Keeps r.latches) : Reaction.Keeps l ⟨r'.latches, r.ops ++ r'.ops⟩ where
  sound kind hlive := by
    rw [survives_append] at hlive
    exact h'.sound kind (hlive.mono (h.sound kind))
  latches hl := h'.latches (h.latches hl)

theorem Reaction.Keeps.releaseIf {l : Latches} {now : ℤ} {r : Reaction} (h : r.Keeps l)
    (condition : Bool) {release : Latches → Latches} {kind : SignalKind}
    (hrelease : ∀ l, Reaction.Keeps l ⟨release l, [.clearIfConfirmedKind kind now]⟩) :
    (releaseIf condition release kind now r).Keeps l := by
  rw [Hooks.releaseIf]
  split
  · exact h.append (hrelease _)
  · exact h

theorem recover_keeps (ops : List Op) (hops : ∀ kind, ∀ op ∈ ops, op.raises kind = false) :
    (Reaction.mk (if l.errorState = .idle then l else l.releaseError) ops).Keeps l := by
  have hnone : ∀ l : Latches, Reaction.Keeps l ⟨l, ops⟩ :=
    fun l => .of_not_raises l fun kind => Or.inl (hops kind)
  split
  · exact hnone l
  · exact (releaseError_keeps l).append (hnone _)

theorem onToolDone_keeps (tool : String) : (onToolDone l tool now).Keeps l := by
  have recovered := recover_keeps l [] (by simp)
  have permission := recovered.releaseIf
    (l.permissionState = .pending &&
      (l.pendingPermissionTool = none || l.pendingPermissionTool = some tool))
    fun l => releasePermission_keeps l now
  have plan := permission.releaseIf (tool = "ExitPlanMode" && l.planState = .pending)
    fun l => releasePlan_keeps l now
  exact plan.releaseIf (tool = "AskUserQuestion" && l.questionState = .pending)
    fun l => releaseQuestion_keeps l now

/-- Every handler keeps what it should. -/
theorem handle_keeps (message : HookMessage) : (message.handle l now).Keeps l := by
  cases message with
  | notification title body => exact onNotification_keeps l now title body
  | progress done backgroundTasks => exact onProgress_keeps l now done backgroundTasks
  | reviewGate message uuid =>
    exact .withGates (.handleReviewGate l message uuid now)
      fun h => h.handleReviewGate message uuid now now
  | promoteRequest summary => exact onPromoteRequest_keeps l now summary
  | notificationResolved =>
    exact .of_not_raises l fun kind => Or.inl (by simp [Op.raises])
  | permissionRequest tool summary => exact onPermissionRequest_keeps l now tool summary
  | stopFailure error => exact onStopFailure_keeps l now error
  | toolFailure tool error => exact onToolFailure_keeps l now tool error
  | planReady summary => exact onPlanReady_keeps l now summary
  | turnStart => exact onTurnStart_keeps l now
  | compact started => exact onCompact_keeps l now started
  | subagent started backgroundTasks => exact onSubagent_keeps l now started backgroundTasks
  | elicitation started server => exact onElicitation_keeps l now started server
  | question started header => exact onQuestion_keeps l now started header
  | permissionResolved => exact releasePermission_keeps l now
  | planResolved => exact releasePlan_keeps l now
  | toolDone tool => exact onToolDone_keeps l now tool
  | other => exact ⟨fun _ => id, id⟩

theorem outputOps_keeps (candidate : Option OutputSignal) (suppressing : Bool) :
    (Reaction.mk l (outputOps candidate suppressing now)).Keeps l := by
  refine ⟨.of_fate fun kind hkind h => ?_, id⟩
  cases candidate with
  | none => cases suppressing <;> cases kind <;> cases hkind <;> exact h
  | some signal => cases signal <;> cases kind <;> cases hkind <;> exact h

theorem clearTurnLatches_keeps : (Session.clearTurnLatches l now).Keeps l :=
  recover_keeps l _ (by simp [Op.raises])

/-- A promote request that is over. -/
theorem releasePromote_keeps {state : PromoteState} (hstate : state ≠ .pending) :
    (Reaction.mk { l with promoteState := state, promoteAt := none }
      [.clearIfConfirmedKind .promoteRequest now]).Keeps l := by
  refine ⟨.of_fate fun kind hkind h => ?_, fun h =>
    ⟨{ h.timed with promote := fun heq => absurd heq hstate }, h.shown⟩⟩
  cases kind <;> cases hkind <;> first | exact h | cases h

theorem resolvePromote_keeps (accepted : Bool) :
    (Session.resolvePromote l accepted now).Keeps l := by
  refine releasePromote_keeps l now ?_
  cases accepted <;> simp

theorem clearStale_keeps :
    (Reaction.mk (withGates l l.gates.clearStale now).latches
      ((withGates l l.gates.clearStale now).ops ++ [.clearIfConfirmedKind .reviewGate now])).Keeps
      l := by
  have hgates := GateSound.clearStale l.gates
  refine ⟨fun kind h => ?_, fun h => ⟨{ h.timed with gate := hgates.since }, hgates.shown⟩⟩
  rw [survives_append] at h
  by_cases hkind : kind = .reviewGate
  · subst hkind
    simp [Survives, Op.raises, Op.clears] at h
  · rw [withGates_owns hkind]
    refine Survives.of_not_raises (not_raises_gateOps hkind) (Survives.of_not_raises ?_ h)
    simp [Op.raises]

/-- What the sweep does with a stale latch keeps what it should. -/
theorem staleLatches_keeps (s : Session) {latch : StaleLatch} (hlatch : latch ∈ staleLatches now) :
    (Reaction.mk (latch.clear s).latches ((latch.clear s).ops ++
      (latch.attentionKind.map fun kind => Op.clearIfConfirmedKind kind now).toList)).Keeps
      s.latches := by
  simp only [staleLatches, List.mem_cons, List.not_mem_nil, or_false] at hlatch
  obtain rfl | rfl | rfl | rfl | rfl | rfl | rfl | rfl | rfl := hlatch
  · exact releasePermission_keeps _ now
  · exact releasePlan_keeps _ now
  · exact clearStale_keeps _ now
  · exact releasePromote_keeps _ now (by simp)
  · exact releaseElicitation_keeps _ now
  · exact releaseQuestion_keeps _ now
  · exact onCompact_keeps _ now false
  · exact ⟨fun kind => by cases kind <;> exact id,
      fun h => ⟨{ h.timed with subagent := fun hcount => absurd hcount (lt_irrefl 0) }, h.shown⟩⟩
  · exact .of_not_raises _ fun kind => Or.inl (by simp [Op.raises])

end Handlers

/-! ## The background tasks -/

theorem foldl_flush_backgroundTasks (now : ℤ) (rows : List (SignalKind × DeferredEmit))
    (t : AttentionTracker) :
    (rows.foldl (AttentionTracker.flush now) t).backgroundTasks = t.backgroundTasks ∧
      (rows.foldl (AttentionTracker.flush now) t).backgroundTasksAt = t.backgroundTasksAt := by
  induction rows generalizing t with
  | nil => exact ⟨rfl, rfl⟩
  | cons row rows ih =>
    obtain ⟨htasks, hat⟩ := ih (AttentionTracker.flush now t row)
    rw [List.foldl_cons, htasks, hat, AttentionTracker.flush]
    split
    · exact ⟨rfl, rfl⟩
    · exact ⟨rfl, rfl⟩

theorem TasksTimed.apply {t : AttentionTracker} (h : TasksTimed t) (op : Op) :
    TasksTimed (t.apply op) := by
  cases op with
  | setBackgroundTasks tasks now =>
    intro (hne : filterOutstandingBackgroundTasks tasks ≠ [])
    rw [AttentionTracker.apply, AttentionTracker.setBackgroundTasks]
    dsimp only
    rw [if_neg hne]
    rfl
  | clearIfConfirmedKind kind now =>
    rw [AttentionTracker.apply, AttentionTracker.clearIfConfirmedKind]
    split
    · exact h
    · exact h
  | acknowledgeAttention now =>
    rw [AttentionTracker.apply, AttentionTracker.acknowledgeAttention]
    split
    · exact h
    · exact h
  | resolveDeferredTurnEnd now =>
    rw [AttentionTracker.apply, AttentionTracker.resolveDeferredTurnEnd]
    split
    · exact h
    · exact h
  | drainDeferred now =>
    obtain ⟨htasks, hat⟩ := foldl_flush_backgroundTasks now t.deferred.entries.rows t
    rw [AttentionTracker.apply, AttentionTracker.drainDeferred, TasksTimed, htasks, hat]
    exact h
  | _ => exact h

theorem TasksTimed.foldl {t : AttentionTracker} (h : TasksTimed t) (ops : List Op) :
    TasksTimed (ops.foldl AttentionTracker.apply t) := by
  induction ops generalizing t with
  | nil => exact h
  | cons op ops ih => exact ih (h.apply op)

/-! ## Events that are not a respawn -/

/-- Every event but a respawn is made of reactions that keep what they should. -/
theorem Session.next_of_react {P : Session → Prop}
    (hreact : ∀ (s : Session) (r : Reaction), r.Keeps s.latches → P s → P (s.react r))
    {s : Session} (hs : P s) {label : Label} (hlabel : ∀ now, label ≠ .spawn now) :
    P (s.next label) := by
  cases label with
  | message message now => exact hreact s _ (handle_keeps _ now message) hs
  | output candidate suppressing now =>
    exact hreact s _ (outputOps_keeps _ now candidate suppressing) hs
  | keystroke genuine now =>
    cases genuine with
    | false => exact hs
    | true =>
      have hturn := clearTurnLatches_keeps s.latches now
      change P (s.noteUserInput now)
      rw [Session.noteUserInput]
      split
      · exact hreact s _ hturn hs
      · have hinput : (Reaction.mk s.latches
            [.applyAttentionTransition (.userInput now) []]).Keeps s.latches :=
          .of_not_raises _ fun kind => Or.inl (by simp [Op.raises])
        exact hreact s _ (hinput.append hturn) hs
  | beginAgentTurn now => exact hreact s _ (clearTurnLatches_keeps _ now) hs
  | tick silent now =>
    change P (s.tick silent now)
    have hdrained := hreact s
      ⟨s.latches, [.applyAttentionTransition (.tick now) [], .drainDeferred now]⟩
      ⟨.of_fate fun kind hkind h => by cases kind <;> cases hkind <;> exact h, id⟩ hs
    rw [Session.tick]
    split
    · refine hreact _ _ ⟨.of_fate fun kind hkind h => ?_, id⟩ hdrained
      cases kind <;> cases hkind <;> exact h
    · exact hdrained
  | resolveGate gateId decision reason now =>
    exact hreact s _ (.withGates (.resolve _ gateId decision reason now)
      fun h => h.resolve gateId decision reason) hs
  | resolvePromote accepted now => exact hreact s _ (resolvePromote_keeps _ now accepted) hs
  | acknowledgeAttention now =>
    change P (s.acknowledgeAttention now).1
    rw [Session.acknowledgeAttention]
    split
    · exact hs
    · exact hreact s ⟨s.latches, [.acknowledgeAttention now]⟩
        (.of_not_raises _ fun kind => Or.inl (by simp [Op.raises])) hs
  | clearStaleBlocked blockedMaxAgeMs busyMaxAgeMs now lastActivityAt =>
    change P (s.clearStaleBlockedIfOlderThan blockedMaxAgeMs busyMaxAgeMs now lastActivityAt)
    rw [Session.clearStaleBlockedIfOlderThan]
    refine List.foldlRecOn _ _ hs fun s hs latch hlatch => ?_
    exact iteInduction (fun _ => hreact s _ (staleLatches_keeps now s hlatch) hs) fun _ => hs
  | clearStaleError maxAgeMs now =>
    change P (s.clearStaleErrorIfOlderThan maxAgeMs now)
    rw [Session.clearStaleErrorIfOlderThan]
    split
    · exact hs
    · exact hs
    · split
      · exact hs
      · exact hreact s _ (releaseError_keeps _) hs
  | spawn now => exact absurd rfl (hlabel now)
  | exit => exact hreact s _ (.of_not_raises _ fun kind => Or.inl (by simp [Op.raises])) hs

/-! ## The restored state -/

/-- The latch that owns the kind is held in the stored state. -/
def StoredState.owns (stored : StoredState) : SignalKind → Prop
  | .permissionRequest => stored.permissionState = some .pending
  | .planReady => stored.planState = some .pending
  | .question => stored.questionState = some .pending
  | .elicitation => stored.elicitationState = some .pending
  | .promoteRequest => stored.promoteState = some .pending
  | .reviewGate => stored.gateState = some .waiting
  | _ => True

/-- The stored state has the latch of the kind it restores, the timestamps that are not stamped
anew, and no gate. -/
structure StoredState.Consistent (stored : StoredState) : Prop where
  owned : ∀ kind, stored.attentionKind = some (some kind) → stored.owns kind
  question : stored.questionState = some .pending → ∃ since, stored.questionAt = some (some since)
  error : ∀ state, stored.errorState = some state → state ≠ .idle →
    ∃ since, stored.errorAt = some (some since)
  gate : stored.gateState ≠ some .waiting

theorem stamp_isSome {held : Bool} (hheld : held) (since : Option ℤ) (now : ℤ) :
    (Latches.stamp held since now).isSome := by
  cases since with
  | none => simp [Latches.stamp, hheld]
  | some since => simp [Latches.stamp]

/-- What restored latches need to be timed; the others are stamped. -/
theorem StoredState.timed_latches (stored : StoredState) (lapseWaitingGate : Bool) (l : Latches)
    (now : ℤ)
    (hgate : (stored.latches lapseWaitingGate l now).gates.state ≠ .waiting)
    (hquestion : stored.questionState.getD l.questionState ≠ .idle →
      (stored.questionAt.getD l.questionAt).isSome)
    (herror : stored.errorState.getD l.errorState ≠ .idle →
      (stored.errorAt.getD l.errorAt).isSome) :
    (stored.latches lapseWaitingGate l now).Timed where
  permission h := stamp_isSome (decide_eq_true h) _ _
  plan h := stamp_isSome (decide_eq_true h) _ _
  gate h := absurd h hgate
  promote h := stamp_isSome (decide_eq_true h) _ _
  elicitation h := stamp_isSome (decide_eq_true h) _ _
  question := hquestion
  error := herror
  compact h := stamp_isSome (decide_eq_true h) _ _
  subagent h := stamp_isSome (decide_eq_true h) _ _

/-- No gate waits after a restore that lapses it, where none waited before. -/
theorem StoredState.lapsed_latches (stored : StoredState) {l : Latches} (now : ℤ)
    (hl : l.gates.state ≠ .waiting) : (stored.latches true l now).gates.state ≠ .waiting := by
  change (if stored.lapses true then lapseRestoredSummary l.gates else _).state ≠ _
  split
  · rintro ⟨⟩
  · next hlapse =>
    change stored.gateState.getD l.gates.state ≠ _
    cases hgate : stored.gateState with
    | none => exact hl
    | some state =>
      rintro rfl
      exact hlapse (by simp [StoredState.lapses, hgate])

theorem StoredState.latches_pending (stored : StoredState) (lapseWaitingGate : Bool) (l : Latches)
    (now : ℤ) : (stored.latches lapseWaitingGate l now).gates.pending = l.gates.pending := by
  change (if stored.lapses lapseWaitingGate then lapseRestoredSummary l.gates else _).pending = _
  split
  · rfl
  · rfl

/-- A restore raises the stored kind, if it restores that, and no other. -/
theorem StoredState.survives_ops (stored : StoredState)
    {lapseWaitingGate restoreAttentionKind : Bool} {now : ℤ} {kind : SignalKind} {p : Prop}
    (h : Survives kind (stored.ops lapseWaitingGate restoreAttentionKind now) p) :
    restoreAttentionKind ∧ stored.attentionKind = some (some kind) ∨ p := by
  by_cases hraise : restoreAttentionKind ∧ stored.attentionKind = some (some kind)
  · exact Or.inl hraise
  · refine Or.inr (Survives.of_not_raises (fun op hop => ?_) h)
    simp only [StoredState.ops, List.mem_append] at hop
    obtain ((hop | hop) | hop) | hop := hop
    · split at hop
      · rw [List.mem_singleton] at hop
        rw [hop]
        rfl
      · cases hop
    · split at hop
      · next hrestore =>
        rw [Option.mem_toList, Option.map_eq_some_iff] at hop
        obtain ⟨k, hk, rfl⟩ := hop
        rw [Option.join_eq_some_iff] at hk
        simp only [Op.raises, decide_eq_false_iff_not]
        rintro rfl
        exact hraise ⟨hrestore, hk⟩
      · cases hop
    · rw [Option.mem_toList, Option.map_eq_some_iff] at hop
      obtain ⟨ended, -, rfl⟩ := hop
      rfl
    · rw [takeTasks, Option.mem_toList, Option.map_eq_some_iff] at hop
      obtain ⟨tasks, -, rfl⟩ := hop
      rfl

/-! ## What is kept -/

/-- The invariant. -/
structure Inv (s : Session) : Prop where
  owned : Owned s
  sound : s.latches.Sound
  tasks : TasksTimed s.attention
  wellFormed : s.attention.state.WellFormed

namespace Inv

variable {s : Session}

theorem kept (h : Inv s) : Kept s := ⟨h.owned, h.sound.timed, h.tasks, h.sound.shown⟩

theorem react (h : Inv s) {r : Reaction} (hr : r.Keeps s.latches) : Inv (s.react r) where
  owned kind hlive := hr.sound kind ((live_foldl h.wellFormed _ hlive).mono (h.owned kind))
  sound := hr.latches h.sound
  tasks := h.tasks.foldl _
  wellFormed := wellFormed_foldl h.wellFormed _

/-- The flag of the ping is read by none of it. -/
theorem restorePing (h : Inv s) : Inv s.restorePing := by
  rw [Session.restorePing]
  split
  · exact { h with }
  · exact h

/-- Latches without any attention. -/
theorem of_not_live (hlive : ∀ kind, ¬ Live s.attention kind) (hsound : s.latches.Sound)
    (htasks : TasksTimed s.attention) (hwf : s.attention.state.WellFormed) : Inv s :=
  ⟨fun kind h => absurd h (hlive kind), hsound, htasks, hwf⟩

/-- A restore from latches without any attention. -/
theorem applyStoredState (h : Inv s) {stored : StoredState}
    {lapseWaitingGate restoreAttentionKind : Bool} {now : ℤ}
    (hlive : ∀ kind, ¬ Live s.attention kind)
    (hsound : (stored.latches lapseWaitingGate s.latches now).Sound)
    (howned : restoreAttentionKind → ∀ kind, stored.attentionKind = some (some kind) →
      (stored.latches lapseWaitingGate s.latches now).owns kind) :
    Inv (s.applyStoredState stored lapseWaitingGate restoreAttentionKind now) := by
  apply restorePing
  refine ⟨fun kind h' => ?_, hsound, h.tasks.foldl _, wellFormed_foldl h.wellFormed _⟩
  rcases stored.survives_ops (live_foldl h.wellFormed _ h') with ⟨hrestore, hkind⟩ | hbefore
  · exact howned hrestore kind hkind
  · exact absurd hbefore (hlive kind)

end Inv

/-! ## A respawn -/

section Spawn

variable {s : Session} {now : ℤ}

/-- A reset leaves no attention. -/
theorem reset_not_live (s : Session) (now : ℤ) (kind : SignalKind) :
    ¬ Live (s.reset now).attention kind := by
  rintro (h | h)
  · cases h
  · cases h

/-- A respawn touches no live gate. -/
theorem spawn_pending (s : Session) (now : ℤ) :
    (s.spawn now).latches.gates.pending = s.latches.gates.pending := by
  rw [Session.spawn]
  split
  · rw [Session.applyStoredState, Session.restorePing]
    split
    · exact s.collectState.latches_pending true _ now
    · exact s.collectState.latches_pending true _ now
  · rfl

theorem spawn_not_waiting (s : Session) (now : ℤ) :
    (s.spawn now).latches.gates.state ≠ .waiting := by
  rw [Session.spawn]
  split
  · have hlapsed : (s.collectState.latches true (s.reset now).latches now).gates.state ≠ .waiting :=
      s.collectState.lapsed_latches now (by rintro ⟨⟩)
    rw [Session.applyStoredState, Session.restorePing]
    split
    · exact hlapsed
    · exact hlapsed
  · rintro ⟨⟩

theorem Inv.reset (h : Inv s) (hpending : s.latches.gates.pending.entries.rows = []) :
    Inv (s.reset now) := by
  refine .of_not_live (reset_not_live s now) ⟨?_, ?_⟩ (h.tasks.foldl _)
    (wellFormed_foldl h.wellFormed _)
  · refine ⟨?_, ?_, ?_, ?_, ?_, ?_, ?_, ?_, ?_⟩ <;>
      simp [Session.reset, Session.react, GateRegistry.resetSummary]
  · refine ⟨?_, fun hne => absurd hpending hne⟩
    rintro ⟨⟩

/-- A respawn while no gate waits. -/
theorem Inv.spawn (h : Inv s) (hpending : s.latches.gates.pending.entries.rows = []) :
    Inv (s.spawn now) := by
  rw [Session.spawn]
  split
  · have hstate := s.collectState.lapsed_latches (l := (s.reset now).latches) now (by rintro ⟨⟩)
    refine (h.reset hpending).applyStoredState (reset_not_live s now) ⟨?_, ?_⟩ (by rintro ⟨⟩)
    · exact s.collectState.timed_latches true _ now hstate h.sound.timed.question
        h.sound.timed.error
    · refine ⟨fun hwaiting => absurd hwaiting hstate, fun hne => ?_⟩
      rw [s.collectState.latches_pending true _ now] at hne
      exact absurd hpending hne
  · exact h.reset hpending

end Spawn

/-! ## Runs -/

/-- No gate waits at a respawn. -/
def Guarded (s : Session) : Label → Prop
  | .spawn _ => s.latches.gates.pending.entries.rows = []
  | _ => True

theorem Inv.next {s : Session} {label : Label} (h : Inv s) (hguard : Guarded s label) :
    Inv (s.next label) := by
  cases label with
  | spawn now => exact h.spawn hguard
  | _ => exact Session.next_of_react (fun s r hr h => h.react hr) h (by simp)

/-- A respawn while a gate waits hides it at once. -/
theorem not_kept_of_not_guarded {s : Session} {label : Label} (hguard : ¬ Guarded s label) :
    ¬ Kept (s.next label) := by
  cases label with
  | spawn now =>
    intro hkept
    apply spawn_not_waiting s now
    apply hkept.gates.2
    change (s.spawn now).latches.gates.pending.entries.rows ≠ []
    rw [spawn_pending]
    exact hguard
  | _ => exact absurd trivial hguard

/-! ## The start -/

/-- The file that is found, if any, is consistent. -/
def Consistent (file : Option StoredState) : Prop := ∀ stored ∈ file, stored.Consistent

theorem StoredState.latches_owns (stored : StoredState) (now : ℤ) (kind : SignalKind) :
    (stored.latches false {} now).owns kind ↔ stored.owns kind := by
  have hpending : ∀ state : Option Pending,
      state.getD .idle = .pending ↔ state = some .pending := by
    rintro (_ | _ | _) <;> simp
  cases kind with
  | permissionRequest => exact hpending _
  | planReady => exact hpending _
  | question => exact hpending _
  | elicitation => exact hpending _
  | promoteRequest =>
    change stored.promoteState.getD .idle = .pending ↔ stored.promoteState = some .pending
    cases stored.promoteState <;> simp
  | reviewGate =>
    change stored.gateState.getD .idle = .waiting ↔ stored.gateState = some .waiting
    cases stored.gateState <;> simp
  | _ => exact Iff.rfl

/-- A session without a file. -/
theorem Inv.new (freshSocket : Bool) : Inv { stateRestored := freshSocket } := by
  refine .of_not_live ?_ ⟨?_, ?_⟩ ?_ .initial
  · rintro kind (h | h)
    · cases h
    · cases h
  · refine ⟨?_, ?_, ?_, ?_, ?_, ?_, ?_, ?_, ?_⟩ <;> simp
  · refine ⟨?_, fun hne => absurd rfl hne⟩
    rintro ⟨⟩
  · exact fun hne => absurd rfl hne

theorem Inv.start {file : Option StoredState} (h : Consistent file) (freshSocket : Bool) (now : ℤ) :
    Inv (Session.start file freshSocket now) := by
  cases file with
  | none => exact .new freshSocket
  | some stored =>
    have hc : stored.Consistent := h stored rfl
    have hnew := Inv.new false
    have hstate : (stored.latches false {} now).gates.state ≠ .waiting := by
      intro hwaiting
      exact hc.gate ((stored.latches_owns now .reviewGate).1 hwaiting)
    have hinv : Inv (Session.applyStoredState {} stored false true now) := by
      refine hnew.applyStoredState ?_ ⟨?_, ?_⟩ fun _ kind hkind =>
        (stored.latches_owns now kind).2 (hc.owned kind hkind)
      · rintro kind (h | h)
        · cases h
        · cases h
      · apply stored.timed_latches false _ now hstate
        · intro hne
          have hpending : stored.questionState = some .pending := by
            revert hne
            rcases stored.questionState with _ | _ | _ <;> simp
          obtain ⟨since, hsince⟩ := hc.question hpending
          rw [hsince]
          rfl
        · intro hne
          cases hstored : stored.errorState with
          | none => exact absurd (by rw [hstored]; rfl) hne
          | some state =>
            rw [hstored] at hne
            obtain ⟨since, hsince⟩ := hc.error state hstored hne
            rw [hsince]
            rfl
      · refine ⟨fun hwaiting => absurd hwaiting hstate, fun hne => ?_⟩
        rw [stored.latches_pending false _ now] at hne
        exact absurd rfl hne
    exact { hinv with }

/-- The kind that is restored is confirmed. -/
theorem start_confirmedKind (stored : StoredState) (freshSocket : Bool) (now : ℤ)
    {kind : SignalKind} (hkind : stored.attentionKind = some (some kind))
    (hconfirm : confirmMs kind = 0) :
    (Session.start (some stored) freshSocket now).attention.state.confirmedKind = some kind := by
  have hstate : (Session.start (some stored) freshSocket now).attention.state =
      (advanceAttention initialAttentionState (.signal kind now)).next := by
    rw [Session.start, Session.applyStoredState, Session.restorePing]
    have hops : ((stored.ops false true now).foldl AttentionTracker.apply {}).state =
        (advanceAttention initialAttentionState (.signal kind now)).next := by
      rw [StoredState.ops, hkind]
      cases stored.lastTurnEndedAt <;> cases stored.backgroundTasks <;> rfl
    split
    · exact hops
    · exact hops
  rw [hstate]
  cases kind with
  | bell => cases hconfirm
  | notification => cases hconfirm
  | _ => rfl

theorem exists_of_getD_isSome {since : Option (Option ℤ)} (h : (since.getD none).isSome) :
    ∃ at', since = some (some at') := by
  rcases since with _ | _ | at'
  · cases h
  · cases h
  · exact ⟨at', rfl⟩

theorem start_latches (stored : StoredState) (freshSocket : Bool) (now : ℤ) :
    (Session.start (some stored) freshSocket now).latches = stored.latches false {} now := by
  rw [Session.start, Session.applyStoredState, Session.restorePing]
  split
  · rfl
  · rfl

theorem Kept.consistent {file : Option StoredState} {freshSocket : Bool} {now : ℤ}
    (h : Kept (Session.start file freshSocket now)) : Consistent file := by
  rintro stored rfl
  have hlatches := start_latches stored freshSocket now
  have htimed := h.timed
  have hshown := h.gates
  rw [hlatches] at htimed hshown
  refine ⟨fun kind hkind => ?_, fun hquestion => ?_, fun state herror hne => ?_, fun hgate => ?_⟩
  · rw [← stored.latches_owns now kind, ← hlatches]
    by_cases hconfirm : confirmMs kind = 0
    · exact h.owned kind (Or.inr (start_confirmedKind stored freshSocket now hkind hconfirm))
    · cases kind with
      | bell => trivial
      | notification => trivial
      | _ => exact absurd rfl hconfirm
  · apply exists_of_getD_isSome
    apply htimed.question
    change stored.questionState.getD .idle ≠ .idle
    rw [hquestion]
    rintro ⟨⟩
  · apply exists_of_getD_isSome
    apply htimed.error
    change stored.errorState.getD .idle ≠ .idle
    rw [herror]
    exact hne
  · have hwaiting := (stored.latches_owns now .reviewGate).2 hgate
    have hpending := hshown.1 hwaiting
    rw [stored.latches_pending false _ now] at hpending
    exact hpending rfl

/-- **Attention and its latches.** Along every run, no attention is orphaned, every latch that is
held has its timestamp and the gates are shown, exactly when the stored state is consistent and no
respawn finds a gate waiting. -/
theorem kept_iff (file : Option StoredState) (freshSocket : Bool) (now : ℤ)
    (labels : List Label) :
    Run.Along step Kept (Session.start file freshSocket now) labels ↔
      Consistent file ∧ Run.Meets step Guarded (Session.start file freshSocket now) labels := by
  have hexact (hinv : Inv (Session.start file freshSocket now)) :
      Run.Along step Kept (Session.start file freshSocket now) labels ↔
        Run.Meets step Guarded (Session.start file freshSocket now) labels :=
    Run.along_iff_meets (I := Inv)
      (fun s label s' h hguard hs => by cases hs; exact h.next hguard) (fun s h => h.kept)
      (fun s label s' _ hguard hs => by cases hs; exact not_kept_of_not_guarded hguard) hinv
  constructor
  · intro h
    have hfile := h.head.consistent
    exact ⟨hfile, (hexact (.start hfile freshSocket now)).1 h⟩
  · rintro ⟨hfile, hmeets⟩
    exact (hexact (.start hfile freshSocket now)).2 hmeets

/-- A respawn while a gate waits, and a question that is restored without its timestamp. -/
theorem respawn_hides_gate :
    ¬ Run.Along step Kept (Session.start none true 0)
      [.message (.reviewGate ⟨.waiting, "rm -rf build", none⟩ "gate") 1, .exit, .spawn 2] ∧
    ¬ Kept (Session.start (some { questionState := some .pending }) false 0) := by
  constructor
  · intro h
    refine not_kept_of_not_guarded (fun hnone => ?_) (h.last rfl)
    cases hnone
  · intro h
    have hsince := h.timed.question (by rintro ⟨⟩)
    cases hsince

/-! ## Settled signals -/

/-- A pending signal has its latch. -/
def Waits (s : Session) : Prop := ∀ kind, Deferred s.attention kind → s.latches.owns kind

theorem Waits.react {s : Session} (h : Waits s) {r : Reaction} (hr : r.Keeps s.latches) :
    Waits (s.react r) :=
  fun kind hdeferred => hr.sound kind ((deferred_foldl _ hdeferred).mono (h kind))

theorem Waits.of_none {s : Session} (h : ∀ kind, ¬ Deferred s.attention kind) : Waits s :=
  fun kind hdeferred => absurd hdeferred (h kind)

theorem restorePing_deferred (s : Session) :
    s.restorePing.attention.deferred = s.attention.deferred := by
  rw [Session.restorePing]
  split
  · rfl
  · rfl

theorem Waits.spawn (s : Session) (now : ℤ) : Waits (s.spawn now) := by
  refine .of_none fun kind hdeferred => ?_
  have hreset : ¬ Deferred (s.reset now).attention kind := by
    rintro ⟨⟩
  rw [Session.spawn] at hdeferred
  split at hdeferred
  · rw [Session.applyStoredState, Deferred, restorePing_deferred] at hdeferred
    rcases s.collectState.survives_ops (deferred_foldl _ hdeferred) with ⟨hrestore, -⟩ | hbefore
    · cases hrestore
    · exact hreset hbefore
  · exact hreset hdeferred

theorem Waits.start (file : Option StoredState) (freshSocket : Bool) (now : ℤ) :
    Waits (Session.start file freshSocket now) := by
  have hempty : (Session.start file freshSocket now).attention.deferred = .empty := by
    cases file with
    | none => rfl
    | some stored =>
      change ((Session.react {} ⟨_, stored.ops false true now⟩).restorePing).attention.deferred = _
      rw [restorePing_deferred, StoredState.ops]
      rcases stored.attentionKind with _ | _ | kind <;> cases stored.lastTurnEndedAt <;>
        cases stored.backgroundTasks <;> rfl
  refine .of_none fun kind hdeferred => ?_
  rw [Deferred, hempty] at hdeferred
  cases hdeferred

theorem Waits.next {s : Session} (h : Waits s) (label : Label) : Waits (s.next label) := by
  cases label with
  | spawn now => exact .spawn s now
  | _ => exact Session.next_of_react (fun s r hr h => h.react hr) h (by simp)

/-- The latch of a kind that refuses an acknowledgement refuses it for its pending signal. -/
theorem blocked_of_owns {l : Latches} {kind : SignalKind} (hkind : ackBlocking kind)
    (h : l.owns kind) : Session.blocked l := by
  cases kind <;> simp_all [ackBlocking, outputImmune, Latches.owns, Session.blocked]

/-- An acknowledgement leaves the pending signals of the kinds that refuse it. -/
theorem Waits.acknowledgeAttention {s : Session} (h : Waits s) {kind : SignalKind}
    (hkind : ackBlocking kind) {e : DeferredEmit} (he : s.attention.deferred.lookup kind = some e)
    (now : ℤ) : (s.acknowledgeAttention now).1.attention.deferred.lookup kind = some e := by
  have howns := h kind (by rw [Deferred, he]; rfl)
  rw [Session.acknowledgeAttention, if_pos (blocked_of_owns hkind howns)]
  exact he

/-! ## The ping of a turn in a session -/

theorem pings_apply_le (t : AttentionTracker) {op : Op}
    (hop : ∀ now, op ≠ .resolveDeferredTurnEnd now) : (t.apply op).pings ≤ t.pings := by
  cases op with
  | resolveDeferredTurnEnd now => exact absurd rfl (hop now)
  | clearIfConfirmedKind kind now =>
    rw [AttentionTracker.apply, AttentionTracker.clearIfConfirmedKind]
    split
    · exact le_rfl
    · exact le_rfl
  | acknowledgeAttention now =>
    rw [AttentionTracker.apply, AttentionTracker.acknowledgeAttention]
    split
    · exact le_rfl
    · exact Nat.zero_le _
  | drainDeferred now => exact (AttentionTracker.foldl_flush_pings now _ t).1.le
  | writeTurnEnd at' sent => exact Nat.zero_le _
  | _ => exact le_rfl

theorem pings_foldl_le {ops : List Op} (hops : ∀ op ∈ ops, ∀ now, op ≠ .resolveDeferredTurnEnd now)
    (t : AttentionTracker) : (ops.foldl AttentionTracker.apply t).pings ≤ t.pings := by
  induction ops generalizing t with
  | nil => exact le_rfl
  | cons op ops ih =>
    exact (ih (fun o ho => hops o (List.mem_cons_of_mem _ ho)) _).trans
      (pings_apply_le t (hops op List.mem_cons_self))

/-- A restore schedules no ping. -/
theorem pings_applyStoredState (s : Session) (stored : StoredState)
    (lapseWaitingGate restoreAttentionKind : Bool) (now : ℤ) :
    (s.applyStoredState stored lapseWaitingGate restoreAttentionKind now).attention.pings ≤
      s.attention.pings := by
  have hops : ∀ op ∈ stored.ops lapseWaitingGate restoreAttentionKind now,
      ∀ now, op ≠ .resolveDeferredTurnEnd now := by
    rintro op hop now' rfl
    simp [StoredState.ops, takeTasks] at hop
  have hrestored := pings_foldl_le hops s.attention
  rw [Session.applyStoredState, Session.restorePing]
  split
  · exact hrestored
  · exact hrestored

theorem pingedOnce_of_le_zero {t : AttentionTracker} (h : t.pings ≤ 0) : PingedOnce t :=
  h.trans (Nat.zero_le _)

theorem pingedOnce_start (file : Option StoredState) (freshSocket : Bool) (now : ℤ) :
    PingedOnce (Session.start file freshSocket now).attention := by
  cases file with
  | none => exact pingedOnce_of_le_zero le_rfl
  | some stored => exact pingedOnce_of_le_zero (pings_applyStoredState {} stored false true now)

theorem pingedOnce_next {s : Session} (h : PingedOnce s.attention) (label : Label) :
    PingedOnce (s.next label).attention := by
  cases label with
  | spawn now =>
    change PingedOnce (s.spawn now).attention
    rw [Session.spawn]
    split
    · exact pingedOnce_of_le_zero (pings_applyStoredState (s.reset now) _ true false now)
    · exact pingedOnce_of_le_zero le_rfl
  | _ =>
    exact Session.next_of_react (P := fun s => PingedOnce s.attention)
      (fun s r _ h => h.foldl r.ops) h (by simp)

/-- The state that a session reaches. -/
def Reached (file : Option StoredState) (freshSocket : Bool) (now : ℤ) (s : Session) : Prop :=
  ∃ labels, Run.play step (Session.start file freshSocket now) labels = some s

/-- What holds at the start and after every event holds in every state that is reached. -/
theorem Reached.induction {P : Session → Prop} {file : Option StoredState} {freshSocket : Bool}
    {now : ℤ} {s : Session} (h : Reached file freshSocket now s)
    (start : P (Session.start file freshSocket now))
    (next : ∀ s, P s → ∀ label, P (s.next label)) : P s := by
  obtain ⟨labels, hplay⟩ := h
  have halong : Run.Along step P (Session.start file freshSocket now) labels :=
    Run.along_of_invariant (I := P) (C := fun _ _ => True)
      (fun s label s' hs _ hstep => by cases hstep; exact next s hs label) (fun _ => id) start
      (.of_forall (fun _ _ => trivial) _ _)
  exact halong.last hplay

/-- **Settled attention signals.** A deferred signal is told once if what ends it first is a drain
at or after its due time, and never otherwise; an operation on one kind leaves the others, and only
those that drop all signals drop them all; in a session an acknowledgement leaves every kind that
refuses it; and the end of a turn schedules at most one ping. -/
theorem settled_signals :
    (∀ (before after : List Op) (op : Op) (kind : SignalKind) (dueAt : ℤ),
      op.schedules (before.foldl AttentionTracker.apply {}) = some (kind, dueAt) →
      ((before ++ op :: after).foldl AttentionTracker.apply {}).sent
          (before.foldl AttentionTracker.apply {}).deferrals =
        if settles kind dueAt ((before ++ [op]).foldl AttentionTracker.apply {}) after then 1
        else 0) ∧
    (∀ (t : AttentionTracker) (op : Op) (kind : SignalKind) (e : DeferredEmit),
      t.deferred.lookup kind = some e → op.kind ≠ some kind → op.dropsAll t = false →
      op.drains e.dueAt = false → (t.apply op).deferred.lookup kind = some e) ∧
    (∀ (t : AttentionTracker) (op : Op), op.dropsAll t → ∀ kind,
      (t.apply op).deferred.lookup kind = none) ∧
    (∀ (file : Option StoredState) (freshSocket : Bool) (now : ℤ) (s : Session),
      Reached file freshSocket now s →
      (∀ (kind : SignalKind) (e : DeferredEmit) (now : ℤ), ackBlocking kind →
        s.attention.deferred.lookup kind = some e →
        (s.acknowledgeAttention now).1.attention.deferred.lookup kind = some e) ∧
      s.attention.pings ≤ 1) ∧
    (∀ ops : List Op, (ops.foldl AttentionTracker.apply {}).pings ≤ 1) := by
  refine ⟨fun before after op kind dueAt hs => sent_eq before after op hs,
    fun t op kind e he hkind hall hdue => others_kept t op he hkind hall hdue,
    fun t op hall kind => none_kept t op hall kind, fun file freshSocket now s hs => ⟨?_, ?_⟩, ?_⟩
  · intro kind e now' hkind he
    have hwaits : Waits s :=
      hs.induction (.start file freshSocket now) fun s h label => h.next label
    exact hwaits.acknowledgeAttention hkind he now'
  · have hpinged : PingedOnce s.attention := hs.induction (P := fun s => PingedOnce s.attention)
      (pingedOnce_start file freshSocket now) fun s h label => pingedOnce_next h label
    exact hpinged.le_one
  · intro ops
    have hstart : PingedOnce {} := pingedOnce_of_le_zero le_rfl
    exact (hstart.foldl ops).le_one

/-- A permission request that nothing answers is told when it has settled. -/
theorem permission_told :
    ([Op.emitAttentionSignalDeferred .permissionRequest [] [] 0, .drainDeferred 1000,
      .drainDeferred 2000, .drainDeferred 3000].foldl AttentionTracker.apply {}).sent 0 = 1 :=
  settled_signals.1 [] [.drainDeferred 1000, .drainDeferred 2000, .drainDeferred 3000]
    (.emitAttentionSignalDeferred .permissionRequest [] [] 0) .permissionRequest 2000 rfl

end Hooks
end Mullion
