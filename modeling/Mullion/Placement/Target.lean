import Mullion.Placement.Policy

/-!
# Placement on a target

`resolveTargetHost` of `placement.ts`: a caller names a host or a platform, and the session
goes there or is refused with a text.

* `targeted`, `matching` — the candidates the target leaves;
* `refusalReasons`, `agentReasons`, `why` — the reasons in a refusal;
* `mightMatch` — whether waiting can help;
* `resolveTargetHost` — the function.
-/

namespace Mullion
namespace Placement

/-- `PlacementTarget`. -/
inductive PlacementTarget
  | host (hostId : HostId) (platform : Option String)
  | platform (platform : String)
  deriving DecidableEq, Repr

def PlacementTarget.wantedHost : PlacementTarget → Option HostId
  | .host hostId _ => some hostId
  | .platform _ => none

def PlacementTarget.wantedPlatform : PlacementTarget → Option String
  | .host _ wanted => wanted
  | .platform wanted => some wanted

def describeTarget : PlacementTarget → String
  | .platform platform => s!"platform {platform}"
  | .host hostId none => s!"host {hostId}"
  | .host hostId (some platform) => s!"host {hostId} (platform {platform})"

/-- What `collectCandidates` reads. -/
structure CollectedCandidates where
  localCapacity : Option HostCapacity
  candidates : List PlacementCandidate
  deriving DecidableEq, Repr

/-- The options of one call; `constraints.platform` and `constraints.capabilities` are the flags
of the project, parsed. -/
structure TargetRequest where
  pinnedHostId : HostId
  platformFlag : List String := []
  capabilityFlag : List String := []
  target : PlacementTarget
  unattended : Bool := false
  requestedBy : Option String := none
  requiredAgent : List String := []
  checkProjectFlags : Bool := false
  requiredLaunchOptions : List String := []
  requiredOperations : List String := []
  appVersion : Option String := none
  deriving DecidableEq, Repr

/-- `TargetPlacementResult`. -/
inductive TargetPlacementResult
  | ok (decision : PlacementDecision)
  | refused (detail : String) (isTransient unreadable : Bool)
  deriving DecidableEq, Repr

namespace TargetRequest

variable (js : Outside) (request : TargetRequest)

def wantedPlatform : Option String := request.target.wantedPlatform.map js.toLowerCase

def flagPlatforms : List String := if request.checkProjectFlags then request.platformFlag else []

/-- `agentContext`. -/
def needs : Needs :=
  { requiredAgent := request.requiredAgent
    requiredCapabilities := request.capabilityFlag
    requiredLaunchOptions := request.requiredLaunchOptions
    requiredOperations := request.requiredOperations }

def context (collected : CollectedCandidates) : PlacementContext :=
  { request.needs with
    pinnedHostId := request.pinnedHostId
    unattended := request.unattended
    localCapacity := collected.localCapacity
    allowBurst := true
    primaryVersion := request.appVersion }

/-- The candidate is the host that is named, if one is. -/
def onHost (candidate : PlacementCandidate) : Bool :=
  request.target.wantedHost.all (candidate.hostId = ·)

def onPlatform (candidate : PlacementCandidate) : Bool :=
  (request.wantedPlatform js).all (js.toLowerCase (reported candidate.platform) = ·)

def targeted (collected : CollectedCandidates) : List PlacementCandidate :=
  collected.candidates.filter fun candidate =>
    request.onHost candidate && request.onPlatform js candidate

def matching (collected : CollectedCandidates) : List PlacementCandidate :=
  (request.targeted js collected).filter fun candidate =>
    platformFlagState js candidate.platform request.flagPlatforms = .ok

/-! ## The reasons of a refusal -/

/-- What `refusalReasons` says of a matching candidate. -/
def stateReasons (localCapacity : Option HostCapacity) (candidate : PlacementCandidate) :
    List String :=
  (if candidate.online = false then ["a matching host is offline"]
    else if candidate.drained then ["a matching host is parked/drained"]
    else if reading localCapacity candidate = none then
      ["a matching host has no capacity reading yet"]
    else []) ++
  if candidate.projectCwd = none ∧ candidate.needsCheckout = false then
    ["the project has no checkout on a matching host"] else []

/-- What `refusalReasons` says when no candidate matches. -/
def absenceReasons (all : List PlacementCandidate) : List String :=
  match request.target.wantedHost, request.wantedPlatform js with
  | some wantedHost, wantedPlatform =>
    match all.find? (·.hostId = wantedHost), wantedPlatform with
    | none, _ => ["no such host"]
    | some named, some wantedPlatform =>
      if reported named.platform = "" then
        ["the named host has not reported its platform yet, so it cannot be confirmed as " ++
          wantedPlatform]
      else [s!"the named host reports platform {reported named.platform}, not {wantedPlatform}"]
    | some _, none => ["no matching host is available"]
  | none, some wantedPlatform =>
    s!"no host has reported platform {wantedPlatform}" ::
      if all.any (fun candidate => reported candidate.platform = "") then
        ["a host that has not reported its platform yet may match once it is online"] else []
  | none, none => ["no matching host is available"]

def refusalReasons (collected : CollectedCandidates) : List String :=
  let matching := request.matching js collected
  (matching.flatMap (stateReasons collected.localCapacity) ++
    if matching = [] then request.absenceReasons js collected.candidates else []).eraseDups

/-- The reason of a candidate whose agent lacks what the launch needs; it names the candidate. -/
def unsupportedReason (hostId : HostId) (unsupported : String) : String :=
  s!"{hostId} does not support {unsupported} (update the host)"

/-- What a matching candidate is known to lack. -/
def agentReasons (candidate : PlacementCandidate) : List String :=
  ((missingAgent candidate request.needs).map fun bin =>
    s!"a matching host has no {bin} CLI").toList ++
  ((missingCapability candidate request.needs).map fun lacking =>
    s!"a matching host lacks {lacking}").toList ++
  ((unsupportedBy candidate request.needs).map (unsupportedReason candidate.hostId)).toList

def why (collected : CollectedCandidates) : List String :=
  let matching := request.matching js collected
  (request.refusalReasons js collected ++ matching.flatMap request.agentReasons ++
    if matching.length < (request.targeted js collected).length then
      [describePlatformFlag request.flagPlatforms] else []).eraseDups

/-- `detail` of a refusal. -/
def detail (why : List String) : String :=
  s!"no eligible host matches {describeTarget request.target}" ++
    if why = [] then "" else " (" ++ Text.join "; " why ++ ")"

def mightMatch (collected : CollectedCandidates) : Bool :=
  collected.candidates.any fun candidate =>
    (candidate.projectCwd ≠ none || candidate.needsCheckout) &&
    platformFlagState js candidate.platform request.flagPlatforms ≠ .forbidden &&
    missingAgent candidate request.needs = none &&
    missingCapability candidate request.needs = none &&
    unsupportedBy candidate request.needs = none &&
    request.onHost candidate &&
    (request.onPlatform js candidate || reported candidate.platform = "")

end TargetRequest

/-- `resolveTargetHost`; `none` for the fleet is a `collectCandidates` that throws. -/
def resolveTargetHost (js : Outside) (fleet : Option CollectedCandidates)
    (request : TargetRequest) : TargetPlacementResult :=
  match fleet with
  | none => .refused (request.detail ["the host list could not be read"]) true true
  | some collected =>
    let decision := chooseHost js (request.matching js collected) (request.context collected)
    if decision.fellBack then
      .refused (request.detail (request.why js collected)) (request.mightMatch js collected) false
    else
      let requestedBy := request.requestedBy.getD "the caller's request"
      .ok { decision with
        reason := s!"placed on {describeTarget request.target} at {requestedBy} — " ++
          decision.reason }

/-- The text of a refusal. -/
def TargetPlacementResult.detail? : TargetPlacementResult → Option String
  | ok _ => none
  | refused detail _ _ => some detail

end Placement
end Mullion
