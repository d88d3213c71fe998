import Mullion.Lib.Run
import Mullion.Lib.Table
import Mullion.Message.Frame
import Mullion.Schema
import Mullion.Text

/-!
# Pairing codes of execution hosts

`host-pairing.ts`, with the two functions of `host-registry.ts` that it calls. The
columns are `timestamp` columns: they store whole seconds, and a query compares in
seconds what the code compares in milliseconds. What a caller presents, the code and its
request id, is any string of the language; a hash is taken of its UTF-8 bytes, in which every
lone surrogate is the same U+FFFD (`toWellFormed`).

* `PairingRow`, `HostRow`, `Db` — the two tables;
* `findLivePairing`, `lookUp`, `consumeHostPairing`, `redeemHostPairingCode`,
  `pairingRedeemWouldProceed` — the functions, `lookUp` being the first half of a redeem;
* `State`, `Event`, `step` — every order of issues, redeems, cleanups and revocations; a
  redeem may also run in two halves with anything in between;
* `Mark` — what happened, in order.
-/

namespace Mullion
namespace HostPairing

open MessageFrame (CodeUnit Utf16 isHighSurrogate isLowSurrogate)

/-- `HOST_PAIRING_TTL_MS`. -/
def hostPairingTtlMs : Int := 10 * 60 * 1000

/-- `HOST_PAIRING_RETRY_WINDOW_MS`. -/
def hostPairingRetryWindowMs : Int := 10 * 60 * 1000

/-- `SESSION_TTL_MS` of `host-registry.ts`. -/
def sessionTtlMs : Int := 24 * 60 * 60 * 1000

/-- `MACHINE_CREDENTIAL_TTL_MS`. -/
def machineCredentialTtlMs : Int := 90 * 24 * 60 * 60 * 1000

/-- What a `timestamp` column stores of a `Date`. -/
def seconds (ms : Int) : Int := ms / 1000

/-- A row of `host_pairings`. -/
structure PairingRow where
  id : String
  codeHash : Option String
  expiresAt : Int
  label : Option String
  redeemedAt : Option Int := none
  redeemedHostId : Option HostId := none
  redeemRequestHash : Option String := none
  revokedAt : Option Int := none
  deriving DecidableEq, Repr

/-- The columns of `hosts` that pairing writes or reads; the encryption is left out. -/
structure HostRow where
  id : HostId
  name : String
  baseUrl : Option String
  hostname : String
  capabilities : Option String
  platform : Option String
  sessionId : Option String := none
  sessionSecret : Option String := none
  sessionExpiresAt : Option Int := none
  machineCredential : Option String := none
  machineCredentialPrev : Option String := none
  machineCredentialRotatedAt : Option Int := none
  machineCredentialExpiresAt : Option Int := none
  machineCredentialRevokedAt : Option Int := none
  deriving DecidableEq, Repr

structure Db where
  pairings : Table PairingRow PairingRow.id
  hosts : Table HostRow HostRow.id

/-- `HostRegistration`. -/
structure HostRegistration where
  hostId : HostId
  sessionId : String
  sessionSecret : String
  expiresAt : Int
  machineCredential : String
  deriving DecidableEq, Repr

/-- `RedeemHostPairingInput`. -/
structure RedeemInput where
  requestId : Utf16
  hostname : String
  name : Option String := none
  platform : Option String := none
  capabilities : Option String := none
  baseUrl : Option String := none
  deriving DecidableEq, Repr

/-- What one call draws at random. -/
structure Draw where
  hostId : HostId
  sessionId : String
  sessionSecret : String
  credential : String
  deriving DecidableEq, Repr

/-! ## `host-registry.ts` -/

/-- `issueSession`, on the row of the host. -/
def issueSession (draw : Draw) (now : Int) (host : HostRow) : HostRow :=
  { host with
    sessionId := some draw.sessionId
    sessionSecret := some draw.sessionSecret
    sessionExpiresAt := some (seconds (now + sessionTtlMs)) }

/-- `issueMachineCredential`, on the row of the host. -/
def issueMachineCredential (draw : Draw) (now : Int) (host : HostRow) : HostRow :=
  let replacesLive := host.machineCredential.isSome && host.machineCredentialRevokedAt.isNone &&
    host.machineCredentialExpiresAt.any (fun expiresAt => now < expiresAt * 1000)
  { host with
    machineCredential := some draw.credential
    machineCredentialPrev := if replacesLive then host.machineCredential else none
    machineCredentialRotatedAt := if replacesLive then some (seconds now) else none
    machineCredentialExpiresAt := some (seconds (now + machineCredentialTtlMs))
    machineCredentialRevokedAt := none }

/-- What the caller is handed. -/
def registration (hostId : HostId) (draw : Draw) (now : Int) : HostRegistration :=
  ⟨hostId, draw.sessionId, draw.sessionSecret, now + sessionTtlMs, draw.credential⟩

/-- `input.name?.trim() || input.hostname`. -/
def hostName (name : Option String) (hostname : String) : String :=
  (name.bind fun name => Text.truthy (Text.trim name)).getD hostname

/-- `createPairedHost`. -/
def createPairedHost (hosts : Table HostRow HostRow.id) (input : RedeemInput)
    (name : Option String) (draw : Draw) (now : Int) :
    Table HostRow HostRow.id × HostRegistration :=
  (hosts.insert (issueMachineCredential draw now (issueSession draw now
      { id := draw.hostId
        name := hostName name input.hostname
        baseUrl := input.baseUrl
        hostname := input.hostname
        capabilities := input.capabilities
        platform := input.platform })),
    registration draw.hostId draw now)

/-- `reissuePairedIdentity`. -/
def reissuePairedIdentity (hosts : Table HostRow HostRow.id) (hostId : HostId) (draw : Draw)
    (now : Int) : Option (Table HostRow HostRow.id × HostRegistration) :=
  match hosts.get hostId with
  | none => none
  | some row =>
    if row.id = localHostId ∨ row.machineCredentialRevokedAt.isSome then none
    else if row.machineCredential.isNone ∨ row.machineCredentialRotatedAt.isSome then none
    else
      some (hosts.update hostId
          (fun host => issueSession draw now
            { host with
              machineCredential := some draw.credential
              machineCredentialExpiresAt := some (seconds (now + machineCredentialTtlMs)) })
          fun _ => rfl,
        registration hostId draw now)

/-! ## `host-pairing.ts` -/

/-- The condition under which `cleanupHostPairings` drops the lookup hash of a row. -/
def isSpent (now : Int) (row : PairingRow) : Bool :=
  match row.redeemedAt with
  | none => row.expiresAt < seconds now
  | some redeemedAt => redeemedAt < seconds (now - hostPairingRetryWindowMs)

/-- The condition under which `cleanupHostPairings` deletes a row. -/
def isOld (now : Int) (row : PairingRow) : Bool :=
  row.redeemedAt.isNone && row.expiresAt < seconds (now - 24 * 60 * 60 * 1000)

/-- `cleanupHostPairings`. -/
def cleanupHostPairings (db : Db) (now : Int) : Db :=
  { db with
    pairings := (db.pairings.updateWhere (fun row => row.codeHash.isSome && isSpent now row)
      (fun row => { row with codeHash := none }) fun _ => rfl).deleteWhere (isOld now) }

/-- `revokeHostPairing`. -/
def revokeHostPairing (db : Db) (id : String) (now : Int) : Db :=
  { db with
    pairings := db.pairings.updateIf id (fun row => row.redeemedAt.isNone)
      (fun row => { row with revokedAt := some (seconds now), codeHash := none }) fun _ => rfl }

/-- Whether `revokeHostPairing` finds a row to revoke. -/
def revocable (db : Db) (id : String) : Bool :=
  (db.pairings.get id).any fun row => row.redeemedAt.isNone

/-- The guarded update of `consumeHostPairing` sees a row come back. -/
def consumable (db : Db) (id : String) : Bool :=
  (db.pairings.get id).any fun row => row.redeemedAt.isNone && row.revokedAt.isNone

/-- `consumeHostPairing`; `now` is the clock inside the transaction. -/
def consumeHostPairing (db : Db) (pairing : PairingRow) (requestHash : String)
    (input : RedeemInput) (draw : Draw) (now : Int) : Db × Option HostRegistration :=
  if consumable db pairing.id then
    let claimed := db.pairings.update pairing.id
      (fun row =>
        { row with redeemedAt := some (seconds now), redeemRequestHash := some requestHash })
      fun _ => rfl
    let (hosts, registration) :=
      createPairedHost db.hosts input (input.name.or pairing.label) draw now
    ({ pairings := claimed.update pairing.id
        (fun row => { row with redeemedHostId := some registration.hostId }) fun _ => rfl
       hosts := hosts },
      some registration)
  else (db, none)

/-- What a redeem decides before it writes. -/
inductive Lookup
  | refused
  | retry (hostId : HostId)
  | consume (matched : PairingRow)
  deriving DecidableEq, Repr

/-- The character of one code unit, and of a lone surrogate in UTF-8. -/
def unitChar (u : CodeUnit) : Char :=
  if isHighSurrogate u || isLowSurrogate u then Char.ofNat 0xfffd else Char.ofNat u.toNat

/-- The text that the UTF-8 bytes of a string spell. -/
def toWellFormed : Utf16 → List Char
  | [] => []
  | [u] => [unitChar u]
  | u :: v :: rest =>
    if isHighSurrogate u && isLowSurrogate v then
      Char.ofNat (0x10000 + (u.toNat - 0xd800) * 0x400 + (v.toNat - 0xdc00)) :: toWellFormed rest
    else unitChar u :: toWellFormed (v :: rest)

/-- What `crypto.randomBytes(32).toString("hex")` can be. -/
def isPairingCode (code : Utf16) : Bool :=
  code.length = 64 && code.all fun u => (0x30 ≤ u && u ≤ 0x39) || (0x61 ≤ u && u ≤ 0x66)

section Hash

-- `createHash("sha256")` and `digest("hex")` of `node:crypto`, of the UTF-8 bytes of a text
variable (digest : List Char → String)

/-- `sha256Hex`. -/
def sha256Hex (value : Utf16) : String := digest (toWellFormed value)

/-- `issueHostPairingCode`, with the id and the code it draws. -/
def issueHostPairingCode (db : Db) (id : String) (code : Utf16) (label : Option String) (now : Int) :
    Db :=
  let db := cleanupHostPairings db now
  { db with
    pairings := db.pairings.insert
      { id := id
        codeHash := some (sha256Hex digest code)
        expiresAt := seconds (now + hostPairingTtlMs)
        label := label.bind fun label => Text.truthy (Text.trim label) } }

/-- The condition of the query in `findLivePairing`. -/
def isLive (code : Utf16) (now : Int) (row : PairingRow) : Bool :=
  row.codeHash = some (sha256Hex digest code) && row.revokedAt.isNone &&
    (seconds now < row.expiresAt ||
      row.redeemedAt.any fun redeemedAt => seconds (now - hostPairingRetryWindowMs) < redeemedAt)

/-- `findLivePairing`. -/
def findLivePairing (db : Db) (code : Utf16) (now : Int) : Option PairingRow :=
  db.pairings.rows.find? (isLive digest code now)

/-- `redeemHostPairingCode`, up to its first write. -/
def lookUp (db : Db) (code requestId : Utf16) (now : Int) : Lookup :=
  match findLivePairing digest db code now with
  | none => .refused
  | some matched =>
    match matched.redeemedAt with
    | some redeemedAt =>
      if redeemedAt * 1000 ≤ now - hostPairingRetryWindowMs then .refused
      else
        match matched.redeemRequestHash, matched.redeemedHostId with
        | some prior, some hostId =>
          if prior = "" ∨ hostId = "" ∨ sha256Hex digest requestId ≠ prior then .refused
          else .retry hostId
        | _, _ => .refused
    | none => if matched.expiresAt * 1000 ≤ now then .refused else .consume matched

/-- `redeemHostPairingCode`: `now` is the clock when it begins, `later` when it writes. -/
def redeemHostPairingCode (db : Db) (code : Utf16) (input : RedeemInput) (draw : Draw)
    (now later : Int) : Db × Option HostRegistration :=
  match lookUp digest db code input.requestId now with
  | .refused => (db, none)
  | .retry hostId =>
    match reissuePairedIdentity db.hosts hostId draw later with
    | none => (db, none)
    | some (hosts, registration) => ({ db with hosts := hosts }, some registration)
  | .consume matched =>
    consumeHostPairing db matched (sha256Hex digest input.requestId) input draw later

/-- `pairingRedeemWouldProceed`. -/
def pairingRedeemWouldProceed (db : Db) (code requestId : Utf16) (now : Int) : Bool :=
  match findLivePairing digest db code now with
  | none => false
  | some matched =>
    match matched.redeemedAt with
    | none => now < matched.expiresAt * 1000
    | some redeemedAt =>
      matched.redeemRequestHash.any (fun prior => prior ≠ "" && sha256Hex digest requestId = prior) &&
        matched.redeemedHostId.any (fun hostId => hostId ≠ "") &&
        now - hostPairingRetryWindowMs < redeemedAt * 1000

end Hash

/-! ## The system -/

/-- A redeem that succeeded. -/
structure Grant where
  code : Utf16
  requestId : Utf16
  hostId : HostId
  /-- the clock when the call began -/
  calledAt : Int
  /-- the clock when it wrote -/
  grantedAt : Int
  /-- the call created the host -/
  created : Bool
  deriving DecidableEq, Repr

inductive Mark
  | issued (id : String) (code : Utf16) (expiresAt : Int)
  | revoked (id : String)
  | granted (grant : Grant)
  deriving DecidableEq, Repr

/-- A redeem between its two halves. -/
structure Pending where
  code : Utf16
  input : RedeemInput
  calledAt : Int
  matched : PairingRow
  deriving DecidableEq, Repr

/-- The tables, the redeems between their halves, and what happened so far. -/
structure State where
  db : Db
  pending : List Pending
  trace : List Mark

/-- No code was issued yet. -/
def State.initial (hosts : Table HostRow HostRow.id) : State := ⟨⟨Table.empty, hosts⟩, [], []⟩

inductive Event
  /-- `issueHostPairingCode`: the id and the code are new -/
  | issue (id : String) (code : Utf16) (label : Option String) (now : Int)
  /-- `listHostPairings` -/
  | list (now : Int)
  | revoke (id : String) (now : Int)
  /-- a whole `redeemHostPairingCode` -/
  | redeem (code : Utf16) (input : RedeemInput) (draw : Draw) (now later : Int)
  /-- a redeem that has matched an unredeemed row and not yet consumed it -/
  | begin (code : Utf16) (input : RedeemInput) (now : Int)
  | consume (call : Pending) (draw : Draw) (later : Int)
  /-- whatever else is done to the hosts -/
  | hosts (hosts : Table HostRow HostRow.id)

/-- The id or the code was drawn before. -/
def Mark.draws (id : String) (code : Utf16) : Mark → Bool
  | .issued id' code' _ => id' = id || code' = code
  | _ => false

/-- What a redeem adds to the trace. -/
def grantMark (code : Utf16) (input : RedeemInput) (now later : Int) (created : Bool) :
    Option HostRegistration → List Mark
  | none => []
  | some r => [.granted ⟨code, input.requestId, r.hostId, now, later, created⟩]

def Lookup.creates : Lookup → Bool
  | .consume _ => true
  | _ => false

def step (digest : List Char → String) (s : State) : Event → Option State
  | .issue id code label now =>
    if isPairingCode code = false ∨ s.trace.any (Mark.draws id code) then none
    else
      some { s with
        db := issueHostPairingCode digest s.db id code label now
        trace := s.trace ++ [.issued id code (now + hostPairingTtlMs)] }
  | .list now => some { s with db := cleanupHostPairings s.db now }
  | .revoke id now =>
    some { s with
      db := revokeHostPairing s.db id now
      trace := s.trace ++ if revocable s.db id then [.revoked id] else [] }
  | .redeem code input draw now later =>
    if draw.hostId ∈ s.db.hosts.keys then none
    else
      let (db, result) := redeemHostPairingCode digest s.db code input draw now later
      some { s with
        db := db
        trace := s.trace ++ grantMark code input now later
          (lookUp digest s.db code input.requestId now).creates result }
  | .begin code input now =>
    match lookUp digest s.db code input.requestId now with
    | .consume matched => some { s with pending := s.pending ++ [⟨code, input, now, matched⟩] }
    | _ => none
  | .consume call draw later =>
    if call ∉ s.pending ∨ draw.hostId ∈ s.db.hosts.keys then none
    else
      let (db, result) := consumeHostPairing s.db call.matched
        (sha256Hex digest call.input.requestId) call.input draw later
      some { s with
        db := db
        trace := s.trace ++ grantMark call.code call.input call.calledAt later true result }
  | .hosts hosts => some { s with db := { s.db with hosts := hosts } }

end HostPairing
end Mullion
