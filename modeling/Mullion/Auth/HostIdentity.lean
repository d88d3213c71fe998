import Mullion.Auth.HostPairing

/-!
# The identity of an execution host

The credentials of a host and the calls that issue, check and revoke them
(`services/host-registry.ts`). The columns are those of `HostPairing`, and with them the token of
the row, its origin and its flags.

* `claimHost`, `enrollHost`, `createPairedHost`, `reissuePairedIdentity`, `rotateSession` — the
  calls that issue a session, and a machine credential where the agent asks for one;
* `renewMachineCredential`, `checkMachineCredential` — the calls that a machine credential opens;
* `updateHost`, `revokeMachineIdentity` — the calls of the operator;
* `Call.run`, `step` — any of them, at times that do not decrease.

A call reads the clock as often as it likes in one instant. Two texts match when they are equal,
and the encryption is left out. What a call draws at random was not drawn before.
-/

namespace Mullion
namespace HostIdentity

open HostPairing (Draw seconds sessionTtlMs machineCredentialTtlMs hostName)

/-- `MACHINE_CREDENTIAL_GRACE_MS`. -/
def machineCredentialGraceMs : Int := sessionTtlMs

inductive Origin
  | manual
  | enrolled
  deriving DecidableEq

inductive HostRole
  | main
  | worker
  | burst
  deriving DecidableEq

/-- A row of `hosts`. -/
structure HostRow extends HostPairing.HostRow where
  authToken : Option String := none
  origin : Option Origin := none
  drained : Bool := false
  role : HostRole := .worker
  /-- the machine credentials issued for the host, the newest first -/
  issued : List String := []
  /-- when the credential was last rotated, or the one it replaced last accepted -/
  rotated : Option Int := none
  deriving DecidableEq

/-- The key of a row. -/
def HostRow.key (row : HostRow) : HostId := row.id

abbrev Hosts := Table HostRow HostRow.key

/-- `HostRegistration`. -/
structure Registration where
  hostId : HostId
  sessionId : String
  sessionSecret : String
  expiresAt : Int
  machineCredential : Option String
  deriving DecidableEq

/-- `RegisterAgentInput`. -/
structure RegisterAgentInput where
  baseUrl : Option String := none
  hostname : String
  name : Option String := none
  capabilities : Option String := none
  platform : Option String := none
  wantsMachineCredential : Bool := false

/-- `UpdateHostInput`. -/
structure UpdateHostInput where
  name : Option String := none
  baseUrl : Option String := none
  token : Option String := none
  drained : Option Bool := none
  role : Option HostRole := none

/-! ## What is issued -/

namespace HostRow

/-- `issueSession`, on the row of the host. -/
def issueSession (draw : Draw) (now : Int) (row : HostRow) : HostRow :=
  { row with toHostRow := HostPairing.issueSession draw now row.toHostRow }

/-- `issueMachineCredential`, on the row of the host. -/
def issueMachineCredential (draw : Draw) (now : Int) (row : HostRow) : HostRow :=
  let issued := HostPairing.issueMachineCredential draw now row.toHostRow
  { row with
    toHostRow := issued
    issued := draw.credential :: row.issued
    rotated := if issued.machineCredentialRotatedAt.isSome then some now else row.rotated }

/-- `withMachineCredential(issueSession(..))`, on the row of the host. -/
def register (input : RegisterAgentInput) (draw : Draw) (now : Int) (row : HostRow) : HostRow :=
  if input.wantsMachineCredential then (row.issueSession draw now).issueMachineCredential draw now
  else row.issueSession draw now

/-- The agent's platform; an absent one is not a reset. -/
def reportPlatform (input : RegisterAgentInput) (row : HostRow) : Option String :=
  (input.platform.bind Text.truthy).or row.platform

end HostRow

/-- What the caller is handed. -/
def registration (hostId : HostId) (draw : Draw) (now : Int) (credential : Option String) :
    Registration :=
  ⟨hostId, draw.sessionId, draw.sessionSecret, now + sessionTtlMs, credential⟩

/-- The credential that `withMachineCredential` hands out. -/
def RegisterAgentInput.credential (input : RegisterAgentInput) (draw : Draw) : Option String :=
  if input.wantsMachineCredential then some draw.credential else none

/-! ## The bootstrap credential -/

/-- A candidate of `claimHost` whose token matches. -/
def claimable (presentedToken : String) (row : HostRow) : Bool :=
  row.id ≠ localHostId && row.machineCredentialRevokedAt.isNone &&
    row.authToken = some presentedToken

/-- The self-report of a claim. -/
def HostRow.claimed (input : RegisterAgentInput) (row : HostRow) : HostRow :=
  { row with
    baseUrl := input.baseUrl.or row.baseUrl
    origin := some .manual
    hostname := input.hostname
    capabilities := input.capabilities
    platform := row.reportPlatform input }

theorem HostRow.key_register (input input' : RegisterAgentInput) (draw : Draw) (now : Int)
    (row : HostRow) : ((row.claimed input').register input draw now).key = row.key := by
  unfold HostRow.register
  split
  · rfl
  · rfl

/-- `claimHost`. -/
def claimHost (hosts : Hosts) (presentedToken : String) (input : RegisterAgentInput) (draw : Draw)
    (now : Int) : Option (Hosts × Registration) :=
  match hosts.rows.find? (claimable presentedToken) with
  | none => none
  | some matched =>
    some (hosts.update matched.id (fun row => (row.claimed input).register input draw now)
        (HostRow.key_register input input draw now),
      registration matched.id draw now (input.credential draw))

/-- The row that an enrollment inserts. -/
def enrolledRow (input : RegisterAgentInput) (draw : Draw) : HostRow :=
  { id := draw.hostId
    name := hostName input.name input.hostname
    baseUrl := input.baseUrl
    hostname := input.hostname
    capabilities := input.capabilities
    platform := input.platform
    origin := some .enrolled }

/-- `insertEnrolledHost`. -/
def insertEnrolledHost (hosts : Hosts) (input : RegisterAgentInput) (draw : Draw) (now : Int) :
    Hosts × Registration :=
  (hosts.insert ((enrolledRow input draw).register input draw now),
    registration draw.hostId draw now (input.credential draw))

/-- The row that an agent without a machine identity takes up again. -/
def reusable (baseUrl : String) (row : HostRow) : Bool :=
  row.origin = some .enrolled && row.baseUrl = some baseUrl &&
    row.machineCredentialRevokedAt.isNone && row.machineCredential.isNone

/-- The self-report of an enrollment. -/
def HostRow.enrolled (input : RegisterAgentInput) (row : HostRow) : HostRow :=
  { row with
    name := hostName input.name input.hostname
    hostname := input.hostname
    capabilities := input.capabilities
    platform := row.reportPlatform input }

/-- `enrollHost`. -/
def enrollHost (hosts : Hosts) (input : RegisterAgentInput) (draw : Draw) (now : Int) :
    Hosts × Registration :=
  match input.wantsMachineCredential, input.baseUrl with
  | false, some baseUrl =>
    match hosts.rows.find? (reusable baseUrl) with
    | some existing =>
      (hosts.update existing.id (fun row => (row.enrolled input).issueSession draw now)
          fun _ => rfl,
        registration existing.id draw now none)
    | none => insertEnrolledHost hosts input draw now
  | _, _ => insertEnrolledHost hosts input draw now

/-- `createPairedHost`. -/
def createPairedHost (hosts : Hosts) (input : RegisterAgentInput) (draw : Draw) (now : Int) :
    Hosts × Registration :=
  insertEnrolledHost hosts { input with wantsMachineCredential := true } draw now

/-- A credential in the place of one that was never received. -/
def HostRow.reissued (draw : Draw) (now : Int) (row : HostRow) : HostRow :=
  { row with
    machineCredential := some draw.credential
    machineCredentialExpiresAt := some (seconds (now + machineCredentialTtlMs))
    issued := draw.credential :: row.issued }

/-- `reissuePairedIdentity`. -/
def reissuePairedIdentity (hosts : Hosts) (hostId : HostId) (draw : Draw) (now : Int) :
    Option (Hosts × Registration) :=
  match hosts.get hostId with
  | none => none
  | some row =>
    if row.id = localHostId ∨ row.machineCredentialRevokedAt.isSome then none
    else if row.machineCredential.isNone ∨ row.machineCredentialRotatedAt.isSome then none
    else
      some (hosts.update hostId (fun row => (row.reissued draw now).issueSession draw now)
          fun _ => rfl,
        registration hostId draw now (some draw.credential))

/-! ## The machine credential -/

namespace HostRow

/-- The machine credential has not expired. -/
def unexpired (row : HostRow) (now : Int) : Bool :=
  row.machineCredentialExpiresAt.any fun expiresAt => now < expiresAt * 1000

def isCurrent (row : HostRow) (presented : String) : Bool :=
  row.machineCredential = some presented

/-- The replaced credential is in its grace period. -/
def prevLive (row : HostRow) (now : Int) : Bool :=
  row.machineCredentialRotatedAt.any fun rotatedAt =>
    now - rotatedAt * 1000 < machineCredentialGraceMs

def isPrev (row : HostRow) (presented : String) (now : Int) : Bool :=
  row.prevLive now && row.machineCredentialPrev = some presented

/-- The self-report of a renewal. -/
def renewed (input : RegisterAgentInput) (row : HostRow) : HostRow :=
  { row with
    baseUrl :=
      if input.baseUrl.isSome then input.baseUrl
      else if row.origin = some .enrolled then none
      else row.baseUrl
    hostname := input.hostname
    capabilities := input.capabilities
    platform := row.reportPlatform input }

/-- A renewal with the current credential. -/
def rotate (draw : Draw) (now : Int) (row : HostRow) : HostRow :=
  { row with
    machineCredential := some draw.credential
    machineCredentialPrev := row.machineCredential
    machineCredentialRotatedAt := some (seconds now)
    machineCredentialExpiresAt := some (seconds (now + machineCredentialTtlMs))
    issued := draw.credential :: row.issued
    rotated := some now }

/-- A renewal with the replaced credential. -/
def slide (now : Int) (row : HostRow) : HostRow :=
  { row with
    machineCredentialRotatedAt := some (seconds now)
    machineCredentialExpiresAt := some (seconds (now + machineCredentialTtlMs))
    rotated := some now }

end HostRow

/-- `renewMachineCredential`. -/
def renewMachineCredential (hosts : Hosts) (hostId : HostId) (presented : String)
    (input : RegisterAgentInput) (draw : Draw) (now : Int) : Option (Hosts × Registration) :=
  match hosts.get hostId with
  | none => none
  | some row =>
    if row.id = localHostId ∨ row.machineCredential.isNone then none
    else if row.machineCredentialRevokedAt.isSome then none
    else if row.unexpired now = false then none
    else if row.isCurrent presented then
      some (hosts.update hostId
          (fun row => ((row.renewed input).rotate draw now).issueSession draw now) fun _ => rfl,
        registration hostId draw now (some draw.credential))
    else if row.isPrev presented now then
      some (hosts.update hostId
          (fun row => ((row.renewed input).slide now).issueSession draw now) fun _ => rfl,
        registration hostId draw now row.machineCredential)
    else none

inductive MachineCredentialCheck
  | ok
  | revoked
  | invalid
  deriving DecidableEq

/-- `checkMachineCredential`. -/
def checkMachineCredential (hosts : Hosts) (hostId : HostId) (presented : String) (now : Int) :
    MachineCredentialCheck :=
  match hosts.get hostId with
  | none => .invalid
  | some row =>
    if row.id = localHostId then .invalid
    else if row.machineCredentialRevokedAt.isSome then .revoked
    else if row.machineCredential.isNone then .invalid
    else if row.unexpired now = false then .invalid
    else if row.isCurrent presented || row.isPrev presented now then .ok
    else .invalid

/-! ## The session -/

/-- `findLiveSession`. -/
def findLiveSession (hosts : Hosts) (hostId : HostId) (presentedSessionId : String) (now : Int) :
    Option HostRow :=
  (hosts.get hostId).filter fun row =>
    row.sessionId = some presentedSessionId &&
      row.sessionExpiresAt.any fun expiresAt => now < expiresAt * 1000

/-- `rotateSession`. -/
def rotateSession (hosts : Hosts) (hostId : HostId) (presentedSessionId : String) (draw : Draw)
    (now : Int) : Option (Hosts × Registration) :=
  (findLiveSession hosts hostId presentedSessionId now).map fun _ =>
    (hosts.update hostId (HostRow.issueSession draw now) fun _ => rfl,
      registration hostId draw now none)

/-! ## The operator -/

/-- What `updateHost` writes. -/
def HostRow.updated (input : UpdateHostInput) (row : HostRow) : HostRow :=
  { row with
    name := input.name.getD row.name
    baseUrl := input.baseUrl.or row.baseUrl
    drained := input.drained.getD row.drained
    role := input.role.getD row.role
    authToken := input.token.or row.authToken
    sessionId := if input.token.isSome then none else row.sessionId
    sessionSecret := if input.token.isSome then none else row.sessionSecret
    sessionExpiresAt := if input.token.isSome then none else row.sessionExpiresAt
    machineCredentialRevokedAt :=
      if input.token.isSome then none else row.machineCredentialRevokedAt }

/-- `updateHost`. -/
def updateHost (hosts : Hosts) (id : HostId) (input : UpdateHostInput) : Hosts :=
  hosts.update id (HostRow.updated input) fun _ => rfl

/-- What `revokeMachineIdentity` writes. -/
def HostRow.revoked (now : Int) (row : HostRow) : HostRow :=
  { row with
    machineCredential := none
    machineCredentialPrev := none
    machineCredentialRotatedAt := none
    machineCredentialExpiresAt := none
    machineCredentialRevokedAt := some (seconds now)
    sessionId := none
    sessionSecret := none
    sessionExpiresAt := none }

theorem HostRow.key_revoked (now : Int) (row : HostRow) : (row.revoked now).key = row.key := rfl

/-- `revokeMachineIdentity`. -/
def revokeMachineIdentity (hosts : Hosts) (hostId : HostId) (now : Int) : Hosts :=
  hosts.updateIf hostId (fun row => row.id ≠ localHostId) (HostRow.revoked now)
    (HostRow.key_revoked now)

/-! ## Calls -/

inductive Call
  | claimHost (presentedToken : String) (input : RegisterAgentInput) (draw : Draw)
  | enrollHost (input : RegisterAgentInput) (draw : Draw)
  | createPairedHost (input : RegisterAgentInput) (draw : Draw)
  | reissuePairedIdentity (hostId : HostId) (draw : Draw)
  | renewMachineCredential (hostId : HostId) (presented : String) (input : RegisterAgentInput)
      (draw : Draw)
  | checkMachineCredential (hostId : HostId) (presented : String)
  | rotateSession (hostId : HostId) (presentedSessionId : String) (draw : Draw)
  | updateHost (id : HostId) (input : UpdateHostInput)
  | revokeMachineIdentity (hostId : HostId)

/-- What a call draws at random, if anything. -/
def Call.draw : Call → Option Draw
  | .claimHost _ _ draw | .enrollHost _ draw | .createPairedHost _ draw
  | .reissuePairedIdentity _ draw | .renewMachineCredential _ _ _ draw
  | .rotateSession _ _ draw => some draw
  | .checkMachineCredential .. | .updateHost .. | .revokeMachineIdentity .. => none

/-- The table after a call, and what its caller is handed, if anything. -/
def Call.run (hosts : Hosts) (now : Int) : Call → Hosts × Option Registration
  | .claimHost presentedToken input draw =>
    match HostIdentity.claimHost hosts presentedToken input draw now with
    | some (hosts', reply) => (hosts', some reply)
    | none => (hosts, none)
  | .enrollHost input draw =>
    let enrolled := HostIdentity.enrollHost hosts input draw now
    (enrolled.1, some enrolled.2)
  | .createPairedHost input draw =>
    let paired := HostIdentity.createPairedHost hosts input draw now
    (paired.1, some paired.2)
  | .reissuePairedIdentity hostId draw =>
    match HostIdentity.reissuePairedIdentity hosts hostId draw now with
    | some (hosts', reply) => (hosts', some reply)
    | none => (hosts, none)
  | .renewMachineCredential hostId presented input draw =>
    match HostIdentity.renewMachineCredential hosts hostId presented input draw now with
    | some (hosts', reply) => (hosts', some reply)
    | none => (hosts, none)
  | .checkMachineCredential .. => (hosts, none)
  | .rotateSession hostId presentedSessionId draw =>
    match HostIdentity.rotateSession hosts hostId presentedSessionId draw now with
    | some (hosts', reply) => (hosts', some reply)
    | none => (hosts, none)
  | .updateHost id input => (HostIdentity.updateHost hosts id input, none)
  | .revokeMachineIdentity hostId => (HostIdentity.revokeMachineIdentity hosts hostId now, none)

/-- The table and the clock. -/
structure State where
  hosts : Hosts
  now : Int

/-- The draws are new: no row has the host id, and no machine credential is the one drawn. -/
def Fresh (hosts : Hosts) (draw : Draw) : Prop :=
  draw.hostId ∉ localHostId :: hosts.keys ∧ ∀ row ∈ hosts.rows, draw.credential ∉ row.issued

instance (hosts : Hosts) (draw : Draw) : Decidable (Fresh hosts draw) :=
  inferInstanceAs (Decidable (_ ∧ _))

/-- A call at a time. -/
def step (s : State) (label : Call × Int) : Option State :=
  if label.2 < s.now ∨ ¬ ∀ draw ∈ label.1.draw, Fresh s.hosts draw then none
  else some ⟨(label.1.run s.hosts label.2).1, label.2⟩

/-- The machine columns and the session of a row that nobody registered yet. -/
def HostRow.unregistered (row : HostRow) : Prop :=
  row.sessionId = none ∧ row.machineCredential = none ∧ row.machineCredentialPrev = none ∧
    row.machineCredentialRotatedAt = none ∧ row.issued = [] ∧
    (row.id = localHostId → row.origin ≠ some .enrolled)

/-- The calls start with rows that nobody registered yet. -/
def Unregistered (hosts : Hosts) : Prop := ∀ row ∈ hosts.rows, row.unregistered

end HostIdentity
end Mullion
