import Mathlib.Data.Rat.Defs
import Mullion.Schema
import Mullion.Text

/-!
# Choosing a host

`placement.ts`, the pure half: why a candidate is not eligible, and which of the eligible
ones a session goes to.

* `PlacementCandidate`, `PlacementContext`, `PlacementDecision` — the types of the source;
* `exclusionReason` — the first rule a candidate fails;
* `decideHost`, `chooseHost` — the choice and the notes it is recorded with;
* `Outside` — what the module calls outside itself.

Loads are exact rationals. A requirement that is absent is the empty list.
-/

namespace Mullion
namespace Placement

/-- What is called outside `placement.ts`: `toLowerCase`, `isOlderVersion` and the printing of
numbers. -/
structure Outside where
  toLowerCase : String → String
  isOlderVersion : String → String → Bool
  number : Rat → String
  toFixed2 : Rat → String

/-- `HostCapacity`, without the memory and session counts. -/
structure HostCapacity where
  platform : String
  logicalCores : Int
  loadAverage1m : Rat
  deriving DecidableEq, Inhabited, Repr

/-- `HOST_ROLES`. -/
inductive HostRole
  | main
  | worker
  | burst
  deriving DecidableEq, Repr

structure CandidateProtocol where
  protocolVersion : Int
  legacy : Bool
  operations : List String
  launchOptions : List String
  deriving DecidableEq, Repr

structure PlacementCandidate where
  hostId : HostId
  isLocal : Bool
  online : Bool
  drained : Bool
  capacity : Option HostCapacity
  projectCwd : Option String
  needsCheckout : Bool := false
  noProjectsRoots : Bool := false
  platform : Option String := none
  role : HostRole := .worker
  agents : Option (List String) := none
  capabilities : Option (List String) := none
  mullionVersion : Option String := none
  protocol : Option CandidateProtocol := none
  deriving DecidableEq, Repr

/-- What a launch needs of its host; the part of the context that the refusal of a target
reads too. -/
structure Needs where
  requiredAgent : List String := []
  requiredCapabilities : List String := []
  requiredLaunchOptions : List String := []
  requiredOperations : List String := []
  deriving DecidableEq, Repr

structure PlacementContext extends Needs where
  pinnedHostId : HostId
  unattended : Bool
  localCapacity : Option HostCapacity
  allowBurst : Bool := false
  platforms : List String := []
  primaryVersion : Option String := none
  deriving DecidableEq, Repr

structure ConsideredHost where
  hostId : HostId
  loadAverage1m : Rat
  logicalCores : Int
  loadPerCore : Rat
  chosen : Bool
  deriving DecidableEq, Repr

structure ExcludedHost where
  hostId : HostId
  reason : String
  deriving DecidableEq, Repr

structure PlacementDecision where
  hostId : HostId
  reason : String
  considered : List ConsideredHost
  excluded : List ExcludedHost
  fellBack : Bool
  needsCheckout : Bool := false
  deriving DecidableEq, Repr

/-! ## Why a candidate is not eligible -/

def loadPerCore (capacity : HostCapacity) : Rat :=
  if capacity.logicalCores ≤ 0 then capacity.loadAverage1m
  else capacity.loadAverage1m / capacity.logicalCores

def describePlatformFlag (platforms : List String) : String :=
  "project allows only " ++ Text.join " or " platforms ++ " hosts"

inductive FlagState
  | ok
  | unknown
  | forbidden
  deriving DecidableEq, Repr

/-- `platform ?? ""`. -/
def reported (platform : Option String) : String := platform.getD ""

def platformFlagState (js : Outside) (platform : Option String) (allowed : List String) :
    FlagState :=
  if allowed = [] then .ok
  else
    let reported := js.toLowerCase (reported platform)
    if reported = "" then .unknown
    else if reported ∈ allowed then .ok
    else .forbidden

/-- `SUPPORTED_PROTOCOL_RANGE`. -/
def isProtocolCompatible (protocolVersion : Int) : Bool :=
  1 ≤ protocolVersion && protocolVersion ≤ 1

/-- What the launch needs that the negotiated protocol of the candidate lacks. An unread
protocol lacks nothing. -/
def unsupportedBy (candidate : PlacementCandidate) (needs : Needs) : Option String :=
  candidate.protocol.bind fun protocol =>
    if !protocol.legacy && !isProtocolCompatible protocol.protocolVersion then
      some s!"this primary's agent protocol (host speaks v{protocol.protocolVersion})"
    else
      let lackingOperations := needs.requiredOperations.filter (· ∉ protocol.operations)
      let lackingOptions := needs.requiredLaunchOptions.filter (· ∉ protocol.launchOptions)
      let parts := lackingOperations.map (fun op => s!"the {op} operation") ++
        lackingOptions.map (fun option => s!"the {option} launch option")
      if parts = [] then none else some (Text.join ", " parts)

/-- The first of `required` that a known list lacks. -/
def firstMissing (known : Option (List String)) (required : List String) : Option String :=
  known.bind fun known => required.find? (· ∉ known)

def missingCapability (candidate : PlacementCandidate) (needs : Needs) : Option String :=
  firstMissing candidate.capabilities needs.requiredCapabilities

def missingAgent (candidate : PlacementCandidate) (needs : Needs) : Option String :=
  firstMissing candidate.agents needs.requiredAgent

/-- The reading of a host; that of the local host is in the context. -/
def reading (localCapacity : Option HostCapacity) (candidate : PlacementCandidate) :
    Option HostCapacity :=
  if candidate.isLocal then localCapacity else candidate.capacity

/-- `UNSUPPORTED_PREFIX`. -/
def unsupportedPrefix : String := "host does not support "

/-- The first rule that the candidate fails. -/
def exclusionReason (js : Outside) (candidate : PlacementCandidate)
    (context : PlacementContext) : Option String :=
  if candidate.role = .burst ∧ context.allowBurst = false then
    some "burst host (only an explicit target uses it)"
  else match platformFlagState js candidate.platform context.platforms with
    | .forbidden => some (describePlatformFlag context.platforms)
    | .unknown =>
      some s!"{describePlatformFlag context.platforms} (this host has not reported its platform)"
    | .ok =>
      if candidate.online = false then some "offline"
      else if candidate.drained then some "parked"
      else if reading context.localCapacity candidate = none then some "no capacity reported"
      else if candidate.projectCwd = none ∧ candidate.needsCheckout = false then
        if candidate.noProjectsRoots then
          some ("the project has no path on this host and the host reports no projects roots " ++
            "to clone into")
        else some "the project has no path on this host"
      else match missingAgent candidate context.toNeeds with
        | some missing => some s!"no {missing} CLI on this host"
        | none => match missingCapability candidate context.toNeeds with
          | some lacking => some s!"host lacks capability: {lacking}"
          | none => (unsupportedBy candidate context.toNeeds).map fun unsupported =>
            s!"{unsupportedPrefix}{unsupported} (update the host)"

def eligible (js : Outside) (context : PlacementContext) (candidate : PlacementCandidate) :
    Bool :=
  (exclusionReason js candidate context).isNone

/-! ## The choice -/

/-- `capacityOf`; the reading is there when the candidate is eligible. -/
def capacityOf (candidate : PlacementCandidate) (context : PlacementContext) : HostCapacity :=
  (reading context.localCapacity candidate).getD default

/-- Whether `candidate` is a better choice than `best`. -/
def isBetter (candidate : PlacementCandidate) (load : Rat) (best : PlacementCandidate)
    (bestLoad : Rat) : Bool :=
  if load < bestLoad then true
  else if bestLoad < load then false
  else if candidate.needsCheckout ≠ best.needsCheckout then !candidate.needsCheckout
  else Text.less candidate.hostId best.hostId

def markChosen (considered : List ConsideredHost) (hostId : HostId) : List ConsideredHost :=
  considered.map fun entry =>
    if entry.hostId = hostId then { entry with chosen := true } else entry

/-- One round of the loop for the least loaded host. -/
def better (context : PlacementContext) (best candidate : PlacementCandidate) :
    PlacementCandidate :=
  if isBetter candidate (loadPerCore (capacityOf candidate context)) best
    (loadPerCore (capacityOf best context)) then candidate else best

def decideHost (js : Outside) (candidates : List PlacementCandidate)
    (context : PlacementContext) : PlacementDecision :=
  let excluded := candidates.filterMap fun candidate =>
    (exclusionReason js candidate context).map (⟨candidate.hostId, ·⟩)
  let eligible := candidates.filter (eligible js context)
  match eligible with
  | [] =>
    { hostId := context.pinnedHostId
      reason := s!"no eligible host — fell back to the project's host {context.pinnedHostId}"
      considered := []
      excluded
      fellBack := true }
  | first :: rest =>
    let considered := eligible.map fun candidate =>
      let capacity := capacityOf candidate context
      { hostId := candidate.hostId
        loadAverage1m := capacity.loadAverage1m
        logicalCores := capacity.logicalCores
        loadPerCore := loadPerCore capacity
        chosen := false : ConsideredHost }
    let atKeyboard := if !context.unattended && context.pinnedHostId = localHostId then
      eligible.find? (·.isLocal) else none
    match atKeyboard with
    | some host =>
      { hostId := host.hostId
        reason := s!"local host preferred for an interactive session (terminal latency): " ++
          host.hostId
        considered := markChosen considered host.hostId
        excluded
        fellBack := false
        needsCheckout := host.needsCheckout }
    | none =>
      let best := rest.foldl (better context) first
      let capacity := capacityOf best context
      { hostId := best.hostId
        reason := s!"least loaded: {best.hostId} at {js.number capacity.loadAverage1m} load on " ++
          s!"{capacity.logicalCores} cores ({js.toFixed2 (loadPerCore capacity)} per core)"
        considered := markChosen considered best.hostId
        excluded
        fellBack := false
        needsCheckout := best.needsCheckout }

/-- The notes on the host that was chosen. -/
def chosenNotes (js : Outside) (context : PlacementContext) (fellBack : Bool)
    (chosen : PlacementCandidate) : List String :=
  (if fellBack then [] else
    (if context.requiredAgent ≠ [] ∧ chosen.agents = none then ["agent list unknown"] else []) ++
    (if context.requiredCapabilities ≠ [] ∧ chosen.capabilities = none then
      ["capabilities unknown"] else [])) ++
  match chosen.mullionVersion.bind Text.truthy, context.primaryVersion.bind Text.truthy with
  | some version, some primary =>
    if js.isOlderVersion version primary then
      [s!"agent v{version}, older than the primary"] else []
  | _, _ => []

def chooseHost (js : Outside) (candidates : List PlacementCandidate)
    (context : PlacementContext) : PlacementDecision :=
  let decision := decideHost js candidates context
  let chosen := candidates.find? (·.hostId = decision.hostId)
  let skipped := decision.excluded.filter fun skipped =>
    skipped.reason.startsWith unsupportedPrefix
  let notes := (chosen.map (chosenNotes js context decision.fellBack)).getD [] ++
    skipped.map fun skipped => s!"skipped {skipped.hostId}: {skipped.reason}"
  if notes = [] then decision
  else { decision with reason := decision.reason ++ " (" ++ Text.join "; " notes ++ ")" }

theorem decideHost_fellBack (js : Outside) (candidates : List PlacementCandidate)
    (context : PlacementContext) :
    (decideHost js candidates context).fellBack = !candidates.any (eligible js context) := by
  unfold decideHost
  cases h : candidates.filter (eligible js context) with
  | nil =>
    have : candidates.any (eligible js context) = false := by
      simpa [List.filter_eq_nil_iff] using h
    simp [this]
  | cons first rest =>
    have hmem : first ∈ candidates.filter (eligible js context) := by simp [h]
    have : candidates.any (eligible js context) = true :=
      List.any_eq_true.2 ⟨first, List.mem_filter.1 hmem⟩
    simp only [this, Bool.not_true]
    split <;> rfl

/-- The choice falls back exactly when no candidate is eligible. -/
theorem chooseHost_fellBack (js : Outside) (candidates : List PlacementCandidate)
    (context : PlacementContext) :
    (chooseHost js candidates context).fellBack = !candidates.any (eligible js context) := by
  unfold chooseHost
  simp only
  split <;> exact decideHost_fellBack js candidates context

end Placement
end Mullion
