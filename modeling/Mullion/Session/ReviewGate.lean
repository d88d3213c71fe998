import Mullion.Lib.OrderedMap
import Mullion.Lib.Run

/-!
# Review gates

A hook connection that asks for a review stays open until a decision is written to it. The waiting
gates of a session are held twice: in `hooks.ts`, with the connection and the timer, and in the
session's own registry, which every view reads (`plugins/hooks.ts`, `services/gate-registry.ts`, the
`review_gate` entry of `services/hook-handlers.ts`, the `gateState` entry of the stale sweep). Each
decision should reach the connection that asked for it, once and no other, and the two places should
agree.

`step` is one event of one session and its connections. `Inv` says how the two places and the lines
that were written lie: a gate belongs to the connection that registered it, a connection has one
gate, a gate that was decided waits no more, and what the registry holds is held by a connection
too. All handlers keep this, so that no decision goes astray in any run (`isolated_along`). The
other half of the agreement, that a connection which waits is shown in the registry, is broken by
what settles a gate in the session alone, as the stale sweep does (`swept_gate_holds_connection`).
`gates_reach_once_iff` has both, exactly when no message and no sweep does that.
-/

namespace Mullion
namespace ReviewGate

inductive GateState
  | idle
  | waiting
  | approved
  | denied
  | lapsed
  deriving DecidableEq

inductive GateDecision
  | approved
  | denied
  | lapsed
  deriving DecidableEq

def GateDecision.state : GateDecision → GateState
  | .approved => .approved
  | .denied => .denied
  | .lapsed => .lapsed

/-- What a session does besides writing its registry. -/
inductive Effect
  /-- a `review_gate` event -/
  | event (state : GateState) (gateId prompt : String) (reason : Option String)
  /-- `emitAttentionSignalWithExtras` with `reviewGate` -/
  | attention (prompt : String)
  | clearReviewGateAttention
  deriving DecidableEq

/-! ## The registry of the session -/

/-- A waiting gate; `since` is the `at` of the code. -/
structure Gate where
  prompt : String
  since : ℤ
  deriving DecidableEq

structure GateRegistry where
  state : GateState := .idle
  prompt : Option String := none
  since : Option ℤ := none
  pending : OrderedMap String Gate := .empty

namespace GateRegistry

/-- `register`; the clock is read twice. -/
def register (r : GateRegistry) (gateId prompt : String) (now now' : ℤ) : GateRegistry :=
  let pending := r.pending.set gateId ⟨prompt, now⟩
  if r.pending.size = 0 then ⟨.waiting, some prompt, some now', pending⟩
  else { r with state := .waiting, pending := pending }

def resolve (r : GateRegistry) (gateId : String) (decision : GateDecision)
    (reason : Option String) : GateRegistry × List Effect :=
  match r.pending.lookup gateId with
  | none => (r, [])
  | some gate =>
    let pending := r.pending.erase gateId
    let event := Effect.event decision.state gateId gate.prompt reason
    match pending.entries.rows.head? with
    | none => (⟨decision.state, none, none, pending⟩, [event, .clearReviewGateAttention])
    | some oldest =>
      ({ r with
          prompt := some oldest.2.prompt
          since := some oldest.2.since
          pending := pending }, [event])

def resetSummary (r : GateRegistry) : GateRegistry :=
  { r with state := .idle, since := none, prompt := none }

/-- One after the other, the gates lapse. -/
def lapseAll (r : GateRegistry) : List String → GateRegistry × List Effect
  | [] => (r, [])
  | gateId :: rest =>
    let one := r.resolve gateId .lapsed (some "stale gate cleared")
    let others := lapseAll one.1 rest
    (others.1, one.2 ++ others.2)

def clearStale (r : GateRegistry) : GateRegistry × List Effect :=
  let lapsed := r.lapseAll r.pending.entries.keys
  (lapsed.1.resetSummary, lapsed.2)

end GateRegistry

/-! ## The session -/

inductive MessageState
  | waiting
  | decided (decision : GateDecision)

/-- A `review_gate` message. -/
structure Message where
  state : MessageState
  prompt : String
  gateId : Option String

/-- The `gateId` of `validateReviewGate`: an empty one is dropped. -/
def validGateId (gateId : Option String) : Option String := gateId.filter (· ≠ "")

/-- The `review_gate` entry of `HOOK_HANDLERS`; `uuid` is what `randomUUID` would draw. -/
def handleReviewGate (r : GateRegistry) (message : Message) (uuid : String) (now now' : ℤ) :
    GateRegistry × List Effect :=
  match message.state with
  | .waiting =>
    let gateId := (validGateId message.gateId).getD uuid
    (r.register gateId message.prompt now now',
      [.event .waiting gateId message.prompt none, .attention message.prompt])
  | .decided decision =>
    match message.gateId.or r.pending.oldest with
    | none => (r, [])
    | some gateId => r.resolve gateId decision none

/-- `BLOCKED_STALE_GRACE_MS`. -/
def blockedStaleGraceMs : ℤ := 2000

/-- `isLatchStale`. -/
def isLatchStale (since : Option ℤ) (maxAgeMs now : ℤ) (lastActivityAt : Option ℤ)
    (graceMs : ℤ) : Bool :=
  since.any fun since =>
    decide (maxAgeMs ≤ now - since) &&
      lastActivityAt.all fun last => decide (last ≤ since + graceMs)

/-- The sweep finds the gate latch active and stale. -/
def GateRegistry.sweeps (r : GateRegistry) (maxAgeMs now : ℤ) (lastActivityAt : Option ℤ) : Bool :=
  decide (r.state = .waiting) &&
    isLatchStale r.since maxAgeMs now lastActivityAt blockedStaleGraceMs

/-! ## The connections -/

/-- A `PendingGate`; its timer is armed as long as it is pending. -/
structure PendingGate where
  socket : ℕ
  prompt : String

/-- What a decision line says. -/
inductive Decision
  | approved
  | denied
  | noResponse
  deriving DecidableEq

def Decision.gate : Decision → GateDecision
  | .approved => .approved
  | .denied => .denied
  | .noResponse => .lapsed

/-- A decision line, the connection it was written to and the gate it is for. -/
structure Line where
  socket : ℕ
  gateId : String
  decision : Decision
  reason : Option String

/-- A session, its connections and what was written to them. -/
structure Sys where
  /-- the session is an mcode session with skip-permissions -/
  autoApproves : Bool := false
  registry : GateRegistry := {}
  pendingGates : OrderedMap String PendingGate := .empty
  /-- `gateIdOnThisConnection` of the connections that registered a gate -/
  registered : List (ℕ × String) := []
  /-- the connections that cannot be written to -/
  ended : List ℕ := []
  closed : List ℕ := []
  lines : List Line := []
  effects : List Effect := []

namespace Sys

/-- The session does something with its registry. -/
def withRegistry (sys : Sys) (result : GateRegistry × List Effect) : Sys :=
  { sys with registry := result.1, effects := sys.effects ++ result.2 }

/-- `resolvePendingGate`, and whether there was such a gate. -/
def resolvePendingGate (sys : Sys) (gateId : String) (decision : Decision)
    (reason : Option String) : Sys × Bool :=
  match sys.pendingGates.lookup gateId with
  | none => (sys, false)
  | some pending =>
    let answered := { sys with
      pendingGates := sys.pendingGates.erase gateId
      lines :=
        if pending.socket ∈ sys.ended then sys.lines
        else ⟨pending.socket, gateId, decision, reason⟩ :: sys.lines }
    (answered.withRegistry (sys.registry.resolve gateId decision.gate reason), true)

/-- `resolveHookGate`. -/
def resolveHookGate (sys : Sys) (gateId : Option String) (decision : Decision)
    (reason : Option String) : Sys × Bool :=
  match gateId.or sys.pendingGates.oldest with
  | none => (sys, false)
  | some gateId => sys.resolvePendingGate gateId decision reason

/-- A `review_gate` message in state `waiting` arrives on a connection. -/
def onWaiting (sys : Sys) (socket : ℕ) (gateId : Option String) (prompt uuid uuid' : String)
    (now now' : ℤ) : Sys :=
  let gid := (validGateId gateId).getD uuid
  let held := { sys with
    pendingGates := sys.pendingGates.set gid ⟨socket, prompt⟩
    registered := (socket, gid) :: sys.registered }
  -- the message carries the id from here on
  let told := held.withRegistry
    (handleReviewGate sys.registry ⟨.waiting, prompt, some gid⟩ uuid' now now')
  if sys.autoApproves then
    (told.resolvePendingGate gid .approved
      (some "Mullion session spawned with skip-permissions")).1
  else told

end Sys

inductive Label
  | waiting (socket : ℕ) (gateId : Option String) (prompt uuid uuid' : String) (now now' : ℤ)
  /-- A message in state `approved` or `denied` arrives on some connection. -/
  | decided (gateId : Option String) (approved : Bool) (prompt uuid : String) (now : ℤ)
  | resolveHookGate (gateId : Option String) (approved : Bool) (reason : Option String)
  /-- The timer of a gate fires. -/
  | timeout (gateId : String)
  /-- The connection can no longer be written to. -/
  | unwritable (socket : ℕ)
  | close (socket : ℕ)
  /-- `clearStaleBlockedIfOlderThan`. -/
  | sweep (blockedMaxAgeMs now : ℤ) (lastActivityAt : Option ℤ)

/-- The connection has not asked before and the id, which is not empty, is its own. -/
def fresh (sys : Sys) (socket : ℕ) (gid : String) : Bool :=
  decide (gid ≠ "") && sys.registered.all fun r => decide (r.1 ≠ socket ∧ r.2 ≠ gid)

/-- One event; `none` where the label is impossible. -/
def step (sys : Sys) : Label → Option Sys
  | .waiting socket gateId prompt uuid uuid' now now' =>
    if fresh sys socket ((validGateId gateId).getD uuid) then
      some (sys.onWaiting socket gateId prompt uuid uuid' now now')
    else none
  | .decided gateId approved prompt uuid now =>
    let decision := if approved then GateDecision.approved else .denied
    some (sys.withRegistry (handleReviewGate sys.registry
      ⟨.decided decision, prompt, validGateId gateId⟩ uuid now now))
  | .resolveHookGate gateId approved reason =>
    some (sys.resolveHookGate gateId (if approved then .approved else .denied) reason).1
  | .timeout gateId =>
    match sys.pendingGates.lookup gateId with
    | none => none
    | some _ =>
      some (sys.resolvePendingGate gateId .noResponse
        (some "timed out waiting for a decision")).1
  | .unwritable socket => some { sys with ended := socket :: sys.ended }
  | .close socket =>
    if socket ∈ sys.closed then none
    else
      let sys' := { sys with closed := socket :: sys.closed, ended := socket :: sys.ended }
      match sys.registered.find? (fun r => r.1 = socket) with
      | none => some sys'
      | some r =>
        some (sys'.resolvePendingGate r.2 .noResponse
          (some "hook connection closed before a decision was made")).1
  | .sweep blockedMaxAgeMs now lastActivityAt =>
    if sys.registry.sweeps blockedMaxAgeMs now lastActivityAt then
      some (sys.withRegistry sys.registry.clearStale)
    else some sys

/-! ## What is asked of the gates -/

/-- Every decision line is for the gate of its connection, and a connection is sent one. -/
def DecidedOnce (sys : Sys) : Prop :=
  (∀ line ∈ sys.lines, (line.socket, line.gateId) ∈ sys.registered) ∧
    ∀ socket, (sys.lines.filter fun line => line.socket = socket).length ≤ 1

/-- The gates that hold a connection are the gates that the session shows. -/
def Agree (sys : Sys) : Prop :=
  ∀ gateId, (sys.pendingGates.lookup gateId).isSome ↔
    (sys.registry.pending.lookup gateId).isSome

/-- The connection whose end or timer the step is. -/
def origin (sys : Sys) : Label → Option ℕ
  | .close socket => some socket
  | .timeout gateId => (sys.pendingGates.lookup gateId).map PendingGate.socket
  | _ => none

/-- The end or the timer of a connection leaves the gates of the others as they are. -/
def Isolated (sys : Sys) (label : Label) (sys' : Sys) : Prop :=
  ∀ socket, origin sys label = some socket →
    ∀ other gateId, (other, gateId) ∈ sys.registered → other ≠ socket →
      sys'.pendingGates.lookup gateId = sys.pendingGates.lookup gateId ∧
        sys'.registry.pending.lookup gateId = sys.registry.pending.lookup gateId

/-- A message in state `approved` or `denied` names, or without an id finds, no gate that the
session shows, and the sweep does not find the gate latch stale while there is one. -/
def Kept (sys : Sys) : Label → Prop
  | .decided gateId _ _ _ _ =>
    ∀ g, (validGateId gateId).or sys.registry.pending.oldest = some g →
      sys.registry.pending.lookup g = none
  | .sweep blockedMaxAgeMs now lastActivityAt =>
    sys.registry.sweeps blockedMaxAgeMs now lastActivityAt →
      ∀ g, sys.registry.pending.lookup g = none
  | _ => True

/-! ## The registry of the session -/

namespace GateRegistry

theorem register_pending (r : GateRegistry) (gateId prompt : String) (now now' : ℤ) :
    (r.register gateId prompt now now').pending = r.pending.set gateId ⟨prompt, now⟩ := by
  rw [register]
  split
  · rfl
  · rfl

theorem resolve_lookup (r : GateRegistry) (gateId : String) (decision : GateDecision)
    (reason : Option String) (g : String) :
    (r.resolve gateId decision reason).1.pending.lookup g =
      if g = gateId then none else r.pending.lookup g := by
  rw [resolve]
  split
  · next hnone =>
    split
    · next hg => rw [hg, hnone]
    · rfl
  · dsimp only
    split
    · rw [OrderedMap.lookup_erase]
    · rw [OrderedMap.lookup_erase]

theorem lapseAll_lookup (r : GateRegistry) (ids : List String) (g : String) :
    (r.lapseAll ids).1.pending.lookup g = if g ∈ ids then none else r.pending.lookup g := by
  induction ids generalizing r with
  | nil => simp [lapseAll]
  | cons gateId rest ih =>
    rw [lapseAll]
    dsimp only
    rw [ih, resolve_lookup]
    by_cases hg : g = gateId
    · simp [hg]
    · simp [hg]

theorem clearStale_lookup (r : GateRegistry) (g : String) :
    r.clearStale.1.pending.lookup g = none := by
  have hlapsed := r.lapseAll_lookup r.pending.entries.keys g
  rw [clearStale]
  dsimp only [resetSummary]
  rw [hlapsed]
  split
  · rfl
  · next hg =>
    rw [← OrderedMap.lookup_isSome_iff] at hg
    simpa using hg

end GateRegistry

/-! ## What holds of the gates in every run -/

/-- The gates, the connections they hold and the lines written. -/
structure Inv (sys : Sys) : Prop where
  own : ∀ g pending, sys.pendingGates.lookup g = some pending →
    (pending.socket, g) ∈ sys.registered
  sockets : (sys.registered.map Prod.fst).Nodup
  ids : (sys.registered.map Prod.snd).Nodup
  line : ∀ line ∈ sys.lines, (line.socket, line.gateId) ∈ sys.registered ∧
    sys.pendingGates.lookup line.gateId = none
  once : sys.lines.Pairwise fun a b => a.gateId ≠ b.gateId
  held : ∀ g, (sys.registry.pending.lookup g).isSome → (sys.pendingGates.lookup g).isSome

namespace Inv

variable {sys sys' : Sys}

/-- One gate, one connection. -/
theorem socket_eq (h : Inv sys) {a b : ℕ} {g : String} (ha : (a, g) ∈ sys.registered)
    (hb : (b, g) ∈ sys.registered) : a = b :=
  congrArg Prod.fst (List.inj_on_of_nodup_map h.ids ha hb rfl)

/-- One connection, one gate. -/
theorem id_eq (h : Inv sys) {a : ℕ} {g g' : String} (hg : (a, g) ∈ sys.registered)
    (hg' : (a, g') ∈ sys.registered) : g = g' :=
  congrArg Prod.snd (List.inj_on_of_nodup_map h.sockets hg hg' rfl)

theorem decidedOnce (h : Inv sys) : DecidedOnce sys := by
  refine ⟨fun line hl => (h.line line hl).1, ?_⟩
  intro socket
  have hmem : ∀ line ∈ sys.lines.filter (fun line => line.socket = socket),
      (socket, line.gateId) ∈ sys.registered := by
    intro line hl
    obtain ⟨hl, hs⟩ := List.mem_filter.1 hl
    have hs : line.socket = socket := by simpa using hs
    rw [← hs]
    exact (h.line line hl).1
  have honce := h.once.filter (fun line => line.socket = socket)
  match hlines : sys.lines.filter (fun line => line.socket = socket) with
  | [] => simp [hlines]
  | [_] => simp [hlines]
  | a :: b :: rest =>
    rw [hlines] at hmem honce
    have hab := (List.pairwise_cons.1 honce).1 b (by simp)
    exact absurd (h.id_eq (hmem a (by simp)) (hmem b (by simp))) hab

end Inv

/-! ## A decision for one gate -/

namespace Sys

theorem resolvePendingGate_pending (sys : Sys) (gateId : String) (decision : Decision)
    (reason : Option String) (g : String) :
    (sys.resolvePendingGate gateId decision reason).1.pendingGates.lookup g =
      if g = gateId then none else sys.pendingGates.lookup g := by
  rw [resolvePendingGate]
  split
  · next hnone =>
    split
    · next hg => rw [hg, hnone]
    · rfl
  · exact OrderedMap.lookup_erase _ _ _

theorem resolvePendingGate_registered (sys : Sys) (gateId : String) (decision : Decision)
    (reason : Option String) :
    (sys.resolvePendingGate gateId decision reason).1.registered = sys.registered := by
  rw [resolvePendingGate]
  split
  · rfl
  · rfl

theorem resolvePendingGate_registry {sys : Sys} (h : Inv sys) (gateId : String)
    (decision : Decision) (reason : Option String) (g : String) :
    (sys.resolvePendingGate gateId decision reason).1.registry.pending.lookup g =
      if g = gateId then none else sys.registry.pending.lookup g := by
  rw [resolvePendingGate]
  split
  · next hnone =>
    split
    · next hg =>
      have hheld := h.held gateId
      rw [hnone] at hheld
      rw [hg]
      simpa using hheld
    · rfl
  · exact GateRegistry.resolve_lookup _ _ _ _ _

/-- Both sides lose the gate. -/
theorem resolvePendingGate_agree {sys : Sys} (h : Inv sys) (hagree : Agree sys) (gateId : String)
    (decision : Decision) (reason : Option String) :
    Agree (sys.resolvePendingGate gateId decision reason).1 := by
  intro g
  rw [resolvePendingGate_pending, resolvePendingGate_registry h]
  split
  · simp
  · exact hagree g

end Sys

/-- A decision keeps the invariant. -/
theorem Inv.resolvePendingGate {sys : Sys} (h : Inv sys) (gateId : String) (decision : Decision)
    (reason : Option String) : Inv (sys.resolvePendingGate gateId decision reason).1 := by
  have hpending := sys.resolvePendingGate_pending gateId decision reason
  have hregistered := sys.resolvePendingGate_registered gateId decision reason
  have hlines : ∀ line ∈ (sys.resolvePendingGate gateId decision reason).1.lines,
      line ∈ sys.lines ∨ line.gateId = gateId ∧ (line.socket, gateId) ∈ sys.registered := by
    intro line hl
    rw [Sys.resolvePendingGate] at hl
    split at hl
    · exact Or.inl hl
    · next pending hsome =>
      dsimp only [Sys.withRegistry] at hl
      split at hl
      · exact Or.inl hl
      · rcases List.mem_cons.1 hl with rfl | hl
        · exact Or.inr ⟨rfl, h.own gateId pending hsome⟩
        · exact Or.inl hl
  refine ⟨?_, ?_, ?_, ?_, ?_, ?_⟩
  · intro g pending hg
    rw [hpending] at hg
    split at hg
    · cases hg
    · rw [hregistered]
      exact h.own g pending hg
  · rw [hregistered]
    exact h.sockets
  · rw [hregistered]
    exact h.ids
  · intro line hl
    rw [hregistered, hpending]
    rcases hlines line hl with hl | ⟨hid, hreg⟩
    · obtain ⟨hreg, hnone⟩ := h.line line hl
      refine ⟨hreg, ?_⟩
      split
      · rfl
      · exact hnone
    · rw [hid]
      exact ⟨hreg, if_pos rfl⟩
  · rw [Sys.resolvePendingGate]
    split
    · exact h.once
    · next pending hsome =>
      dsimp only [Sys.withRegistry]
      split
      · exact h.once
      · rw [List.pairwise_cons]
        refine ⟨?_, h.once⟩
        -- what was written before is not for a gate that is pending
        intro line hl heq
        have hnone := (h.line line hl).2
        rw [← heq, hsome] at hnone
        cases hnone
  · intro g
    rw [hpending, Sys.resolvePendingGate_registry h]
    split
    · simp
    · exact h.held g

/-- What the session does alone takes gates from its registry only. -/
theorem Inv.withRegistry {sys : Sys} (h : Inv sys) {result : GateRegistry × List Effect}
    (hresult : ∀ g, (result.1.pending.lookup g).isSome →
      (sys.registry.pending.lookup g).isSome) : Inv (sys.withRegistry result) :=
  ⟨h.own, h.sockets, h.ids, h.line, h.once, fun g hg => h.held g (hresult g hg)⟩

/-! ## A new gate -/

/-- The session takes the id that the connection was given. -/
theorem handleReviewGate_waiting (r : GateRegistry) {gid : String} (hgid : gid ≠ "")
    (prompt uuid : String) (now now' : ℤ) :
    handleReviewGate r ⟨.waiting, prompt, some gid⟩ uuid now now' =
      (r.register gid prompt now now',
        [.event .waiting gid prompt none, .attention prompt]) := by
  simp [handleReviewGate, validGateId, Option.filter, hgid]

theorem handleReviewGate_decided (r : GateRegistry) (decision : GateDecision) (prompt : String)
    (gateId : Option String) (uuid : String) (now now' : ℤ) (g : String) :
    (handleReviewGate r ⟨.decided decision, prompt, gateId⟩ uuid now now').1.pending.lookup g =
      if gateId.or r.pending.oldest = some g then none else r.pending.lookup g := by
  rw [handleReviewGate]
  dsimp only
  split
  · next hnone => simp [hnone]
  · next gid hsome =>
    rw [GateRegistry.resolve_lookup, hsome]
    simp only [Option.some.injEq, eq_comm]

/-- The state in which both sides hold the new gate. -/
def Sys.hold (sys : Sys) (socket : ℕ) (gid prompt : String) (now now' : ℤ) : Sys :=
  { sys with
    pendingGates := sys.pendingGates.set gid ⟨socket, prompt⟩
    registered := (socket, gid) :: sys.registered
    registry := sys.registry.register gid prompt now now'
    effects := sys.effects ++ [.event .waiting gid prompt none, .attention prompt] }

theorem Sys.onWaiting_eq (sys : Sys) (socket : ℕ) (gateId : Option String)
    (prompt uuid uuid' : String) (now now' : ℤ) (hgid : (validGateId gateId).getD uuid ≠ "") :
    sys.onWaiting socket gateId prompt uuid uuid' now now' =
      let held := sys.hold socket ((validGateId gateId).getD uuid) prompt now now'
      if sys.autoApproves then
        (held.resolvePendingGate ((validGateId gateId).getD uuid) .approved
          (some "Mullion session spawned with skip-permissions")).1
      else held := by
  rw [Sys.onWaiting]
  simp only [handleReviewGate_waiting _ hgid]
  rfl

theorem ne_of_fresh {sys : Sys} {socket : ℕ} {gid : String} (hfresh : fresh sys socket gid) :
    gid ≠ "" ∧ ∀ r ∈ sys.registered, r.1 ≠ socket ∧ r.2 ≠ gid := by
  simpa [fresh] using hfresh

theorem Inv.hold {sys : Sys} {socket : ℕ} {gid : String} (h : Inv sys)
    (hfresh : fresh sys socket gid) (prompt : String) (now now' : ℤ) :
    Inv (sys.hold socket gid prompt now now') := by
  obtain ⟨-, hne⟩ := ne_of_fresh hfresh
  refine ⟨?_, ?_, ?_, ?_, h.once, ?_⟩
  · intro g pending hg
    dsimp only [Sys.hold] at hg
    rw [OrderedMap.lookup_set] at hg
    split at hg
    · next hgid =>
      cases hg
      rw [hgid]
      exact List.mem_cons_self
    · exact List.mem_cons_of_mem _ (h.own g pending hg)
  · refine List.nodup_cons.2 ⟨?_, h.sockets⟩
    intro hmem
    obtain ⟨r, hr, heq⟩ := List.mem_map.1 hmem
    exact (hne r hr).1 heq
  · refine List.nodup_cons.2 ⟨?_, h.ids⟩
    intro hmem
    obtain ⟨r, hr, heq⟩ := List.mem_map.1 hmem
    exact (hne r hr).2 heq
  · intro line hl
    obtain ⟨hreg, hnone⟩ := h.line line hl
    refine ⟨List.mem_cons_of_mem _ hreg, ?_⟩
    dsimp only [Sys.hold]
    rw [OrderedMap.lookup_set_of_ne _ _ (hne _ hreg).2]
    exact hnone
  · intro g hg
    dsimp only [Sys.hold] at hg ⊢
    rw [GateRegistry.register_pending, OrderedMap.lookup_set] at hg
    rw [OrderedMap.lookup_set]
    split
    · rfl
    · next hgid =>
      rw [if_neg hgid] at hg
      exact h.held g hg

/-- Both sides hold the gate. -/
theorem Sys.hold_agree {sys : Sys} (hagree : Agree sys) (socket : ℕ) (gid prompt : String)
    (now now' : ℤ) : Agree (sys.hold socket gid prompt now now') := by
  intro g
  dsimp only [Sys.hold]
  rw [GateRegistry.register_pending, OrderedMap.lookup_set, OrderedMap.lookup_set]
  split
  · simp
  · exact hagree g

theorem Inv.onWaiting {sys : Sys} {socket : ℕ} {gateId : Option String} {prompt uuid uuid' : String}
    {now now' : ℤ} (h : Inv sys) (hfresh : fresh sys socket ((validGateId gateId).getD uuid)) :
    Inv (sys.onWaiting socket gateId prompt uuid uuid' now now') := by
  have hheld := h.hold hfresh prompt now now'
  rw [Sys.onWaiting_eq _ _ _ _ _ _ _ _ (ne_of_fresh hfresh).1]
  dsimp only
  split
  · exact hheld.resolvePendingGate _ _ _
  · exact hheld

theorem Sys.onWaiting_agree {sys : Sys} {socket : ℕ} {gateId : Option String}
    {prompt uuid uuid' : String} {now now' : ℤ} (h : Inv sys) (hagree : Agree sys)
    (hfresh : fresh sys socket ((validGateId gateId).getD uuid)) :
    Agree (sys.onWaiting socket gateId prompt uuid uuid' now now') := by
  have hheld := Sys.hold_agree hagree socket ((validGateId gateId).getD uuid) prompt now now'
  rw [Sys.onWaiting_eq _ _ _ _ _ _ _ _ (ne_of_fresh hfresh).1]
  dsimp only
  split
  · exact Sys.resolvePendingGate_agree (h.hold hfresh prompt now now') hheld _ _ _
  · exact hheld

/-! ## What a step keeps -/

/-- Every step keeps the invariant. -/
theorem Inv.step {sys sys' : Sys} {label : Label} (h : Inv sys)
    (hs : step sys label = some sys') : Inv sys' := by
  cases label with
  | waiting socket gateId prompt uuid uuid' now now' =>
    rw [ReviewGate.step] at hs
    split at hs
    · next hfresh =>
      cases hs
      exact h.onWaiting hfresh
    · cases hs
  | decided gateId approved prompt uuid now =>
    cases hs
    apply h.withRegistry
    intro g hg
    rw [handleReviewGate_decided] at hg
    split at hg
    · cases hg
    · exact hg
  | resolveHookGate gateId approved reason =>
    cases hs
    rw [Sys.resolveHookGate]
    split
    · exact h
    · exact h.resolvePendingGate _ _ _
  | timeout gateId =>
    rw [ReviewGate.step] at hs
    split at hs
    · cases hs
    · cases hs
      exact h.resolvePendingGate _ _ _
  | unwritable socket =>
    cases hs
    exact ⟨h.own, h.sockets, h.ids, h.line, h.once, h.held⟩
  | close socket =>
    rw [ReviewGate.step] at hs
    split at hs
    · cases hs
    · have hclosed : Inv { sys with
          closed := socket :: sys.closed, ended := socket :: sys.ended } :=
        ⟨h.own, h.sockets, h.ids, h.line, h.once, h.held⟩
      dsimp only at hs
      split at hs
      · cases hs
        exact hclosed
      · cases hs
        exact hclosed.resolvePendingGate _ _ _
  | sweep blockedMaxAgeMs now lastActivityAt =>
    rw [ReviewGate.step] at hs
    split at hs
    · cases hs
      apply h.withRegistry
      intro g hg
      rw [GateRegistry.clearStale_lookup] at hg
      cases hg
    · cases hs
      exact h

/-- A step that the condition allows keeps the two sides in agreement. -/
theorem Agree.step {sys sys' : Sys} {label : Label} (h : Inv sys) (hagree : Agree sys)
    (hkept : Kept sys label) (hs : step sys label = some sys') : Agree sys' := by
  cases label with
  | waiting socket gateId prompt uuid uuid' now now' =>
    rw [ReviewGate.step] at hs
    split at hs
    · next hfresh =>
      cases hs
      exact Sys.onWaiting_agree h hagree hfresh
    · cases hs
  | decided gateId approved prompt uuid now =>
    cases hs
    intro g
    dsimp only [Sys.withRegistry]
    rw [handleReviewGate_decided]
    split
    · next hg =>
      have hnone := hkept g hg
      have hiff := hagree g
      rw [hnone] at hiff
      exact hiff
    · exact hagree g
  | resolveHookGate gateId approved reason =>
    cases hs
    rw [Sys.resolveHookGate]
    split
    · exact hagree
    · exact Sys.resolvePendingGate_agree h hagree _ _ _
  | timeout gateId =>
    rw [ReviewGate.step] at hs
    split at hs
    · cases hs
    · cases hs
      exact Sys.resolvePendingGate_agree h hagree _ _ _
  | unwritable socket =>
    cases hs
    exact hagree
  | close socket =>
    rw [ReviewGate.step] at hs
    split at hs
    · cases hs
    · have hclosed : Inv { sys with
          closed := socket :: sys.closed, ended := socket :: sys.ended } :=
        ⟨h.own, h.sockets, h.ids, h.line, h.once, h.held⟩
      dsimp only at hs
      split at hs
      · cases hs
        exact hagree
      · cases hs
        exact Sys.resolvePendingGate_agree hclosed hagree _ _ _
  | sweep blockedMaxAgeMs now lastActivityAt =>
    rw [ReviewGate.step] at hs
    split at hs
    · next hsweeps =>
      cases hs
      intro g
      dsimp only [Sys.withRegistry]
      rw [GateRegistry.clearStale_lookup]
      have hnone := hkept hsweeps g
      have hiff := hagree g
      rw [hnone] at hiff
      exact hiff
    · cases hs
      exact hagree

/-- Any other step sets the two sides apart. -/
theorem not_agree_of_not_kept {sys sys' : Sys} {label : Label} (hagree : Agree sys)
    (hkept : ¬ Kept sys label) (hs : step sys label = some sys') : ¬ Agree sys' := by
  cases label with
  | decided gateId approved prompt uuid now =>
    cases hs
    rw [Kept] at hkept
    push Not at hkept
    obtain ⟨g, hg, hsome⟩ := hkept
    intro hagree'
    have hiff := hagree' g
    dsimp only [Sys.withRegistry] at hiff
    rw [handleReviewGate_decided, if_pos hg, hagree g] at hiff
    rw [← Option.isSome_iff_ne_none] at hsome
    simpa using hiff.1 hsome
  | sweep blockedMaxAgeMs now lastActivityAt =>
    rw [Kept] at hkept
    push Not at hkept
    obtain ⟨hsweeps, g, hsome⟩ := hkept
    rw [ReviewGate.step, if_pos hsweeps] at hs
    cases hs
    intro hagree'
    have hiff := hagree' g
    dsimp only [Sys.withRegistry] at hiff
    rw [GateRegistry.clearStale_lookup, hagree g] at hiff
    rw [← Option.isSome_iff_ne_none] at hsome
    simpa using hiff.1 hsome
  | waiting socket gateId prompt uuid uuid' now now' => exact absurd trivial hkept
  | resolveHookGate gateId approved reason => exact absurd trivial hkept
  | timeout gateId => exact absurd trivial hkept
  | unwritable socket => exact absurd trivial hkept
  | close socket => exact absurd trivial hkept

/-- A decision for a gate of one connection leaves the gates of the others. -/
theorem Inv.isolated_of_resolve {sys : Sys} (h : Inv sys) {socket : ℕ} {gateId : String}
    (hown : (socket, gateId) ∈ sys.registered) (decision : Decision) (reason : Option String)
    {other : ℕ} {g : String} (hg : (other, g) ∈ sys.registered) (hne : other ≠ socket) :
    (sys.resolvePendingGate gateId decision reason).1.pendingGates.lookup g =
        sys.pendingGates.lookup g ∧
      (sys.resolvePendingGate gateId decision reason).1.registry.pending.lookup g =
        sys.registry.pending.lookup g := by
  have hgid : g ≠ gateId := by
    rintro rfl
    exact hne (h.socket_eq hg hown)
  rw [Sys.resolvePendingGate_pending, Sys.resolvePendingGate_registry h, if_neg hgid, if_neg hgid]
  exact ⟨rfl, rfl⟩

theorem Inv.isolated {sys sys' : Sys} {label : Label} (h : Inv sys)
    (hs : ReviewGate.step sys label = some sys') : Isolated sys label sys' := by
  intro socket horigin other g hg hne
  cases label with
  | timeout gateId =>
    rw [ReviewGate.step] at hs
    rw [origin, Option.map_eq_some_iff] at horigin
    obtain ⟨pending, hpending, rfl⟩ := horigin
    rw [hpending] at hs
    cases hs
    exact h.isolated_of_resolve (h.own gateId pending hpending) _ _ hg hne
  | close socket' =>
    cases horigin
    rw [ReviewGate.step] at hs
    split at hs
    · cases hs
    · have hclosed : Inv { sys with
          closed := socket :: sys.closed, ended := socket :: sys.ended } :=
        ⟨h.own, h.sockets, h.ids, h.line, h.once, h.held⟩
      dsimp only at hs
      split at hs
      · cases hs
        exact ⟨rfl, rfl⟩
      · next r hr =>
        cases hs
        have hsocket : r.1 = socket := by simpa using List.find?_some hr
        have hown : (socket, r.2) ∈ sys.registered := by
          rw [← hsocket]
          exact List.mem_of_find?_eq_some hr
        exact hclosed.isolated_of_resolve hown _ _ hg hne
  | waiting socket' gateId prompt uuid uuid' now now' => cases horigin
  | decided gateId approved prompt uuid now => cases horigin
  | resolveHookGate gateId approved reason => cases horigin
  | unwritable socket' => cases horigin
  | sweep blockedMaxAgeMs now lastActivityAt => cases horigin

/-! ## The gates of a session -/

/-- A session without waiting gates, whatever its summary says. -/
def Sys.start (autoApproves : Bool) (state : GateState) (prompt : Option String)
    (since : Option ℤ) : Sys :=
  { autoApproves := autoApproves, registry := ⟨state, prompt, since, .empty⟩ }

theorem Inv.start (autoApproves : Bool) (state : GateState) (prompt : Option String)
    (since : Option ℤ) : Inv (Sys.start autoApproves state prompt since) where
  own := by
    intro g pending hg
    cases hg
  sockets := List.nodup_nil
  ids := List.nodup_nil
  line := by
    intro line hl
    cases hl
  once := List.Pairwise.nil
  held := by
    intro g hg
    cases hg

theorem isolated_along {sys : Sys} (h : Inv sys) (labels : List Label) :
    Run.AlongSteps step Isolated sys labels :=
  (Run.alongSteps_iff_meets (fun _ _ _ hI _ hs => hI.step hs)
    (fun _ _ _ hI hs => ⟨fun _ => trivial, fun _ => hI.isolated hs⟩) h).2
    (Run.Meets.of_forall (fun _ _ => trivial) sys labels)

/-- The gates of a session reach the right connection once, none is touched by the end of
another connection, and the session shows exactly the gates that hold one, if and only if no
message on a connection and no sweep settles a gate in the session alone. -/
theorem gates_reach_once_iff (autoApproves : Bool) (state : GateState) (prompt : Option String)
    (since : Option ℤ) (labels : List Label) :
    (Run.AlongSteps step Isolated (Sys.start autoApproves state prompt since) labels ∧
        Run.Along step (fun sys => DecidedOnce sys ∧ Agree sys)
          (Sys.start autoApproves state prompt since) labels) ↔
      Run.Meets step Kept (Sys.start autoApproves state prompt since) labels := by
  have hstart := Inv.start autoApproves state prompt since
  have hiff : Run.Along step (fun sys => DecidedOnce sys ∧ Agree sys)
      (Sys.start autoApproves state prompt since) labels ↔
      Run.Meets step Kept (Sys.start autoApproves state prompt since) labels := by
    refine Run.along_iff_meets (I := fun sys => Inv sys ∧ Agree sys) ?_ ?_ ?_ ?_
    · rintro s a s' ⟨hI, hagree⟩ hkept hs
      exact ⟨hI.step hs, hagree.step hI hkept hs⟩
    · rintro s ⟨hI, hagree⟩
      exact ⟨hI.decidedOnce, hagree⟩
    · rintro s a s' ⟨hI, hagree⟩ hkept hs ⟨-, hagree'⟩
      exact not_agree_of_not_kept hagree hkept hs hagree'
    · exact ⟨hstart, fun g => Iff.rfl⟩
  rw [hiff]
  exact and_iff_right (isolated_along hstart labels)

/-- The stale sweep settles the gate in the session and leaves the connection waiting. -/
theorem swept_gate_holds_connection :
    ¬ (Run.AlongSteps step Isolated (Sys.start false .idle none none)
          [.waiting 0 (some "g") "Deploy?" "u" "v" 0 0, .sweep 1000 5000 none] ∧
        Run.Along step (fun sys => DecidedOnce sys ∧ Agree sys) (Sys.start false .idle none none)
          [.waiting 0 (some "g") "Deploy?" "u" "v" 0 0, .sweep 1000 5000 none]) := by
  rintro ⟨-, h⟩
  have hagree := h.2.2.2 "g"
  revert hagree
  decide

end ReviewGate
end Mullion
