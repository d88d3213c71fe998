import Mullion.Lib.Fields
import Mullion.Lib.OrderedMap
import Mullion.Lib.Run
import Mullion.Session.ControlSocket

/-!
# The streams to the hosts

The primary keeps one stream of each kind to every enrolled host: the events
(`remote-event-subscriber.ts`), the SSH agent (`ssh-agent-fanout.ts`) and the control relay
(`control-relay-fanout.ts`). The three files are one machine with other conditions, and
`routes/agent-channel.ts` and `routes/agent-bridge.ts` drive it.

* `App` — what `connect` and `reconcile` read of the application;
* `Stream` — what the three differ in, with `remoteEventSubscriber`, `sshAgentFanout` and
  `controlRelayFanout`;
* `closeFanout`, `scheduleReconnect`, `connect`, `reconcile`, `stop` — the functions of the source;
* `step` — a call, a timer or an event of a socket.
-/

namespace Mullion
namespace Fanout

open Fields (get)
open ControlSocket (Value)

/-- The delays before the attempts to reconnect, and the one to a host without the relay. -/
def RECONNECT_DELAYS_MS : List ℕ := [1000, 2000, 5000, 10000, 30000]

def UNSUPPORTED_RETRY_MS : ℕ := 10 * 60000

/-! ## The application -/

/-- A row of `hosts`. -/
structure Host where
  id : ℕ
  isLocal : Bool
  /-- whether it has an address -/
  baseUrl : Bool
  deriving DecidableEq, Repr

/-- What a channel carries, `carriedOperationsFor` of what both ends negotiated. -/
structure Carried where
  requests : Bool
  streams : Bool
  deriving DecidableEq, Repr

structure App where
  hosts : List Host
  /-- the outbound channels that are up -/
  agentChannels : ℕ → Option Carried
  /-- what a host's channel has negotiated -/
  boundHosts : ℕ → Option Carried
  connectedBridges : List ℕ

namespace App

def isChannelHostBound (app : App) (hostId : ℕ) : Bool :=
  (app.boundHosts hostId).any Carried.requests

def hasReachablePath (app : App) (host : Host) : Bool :=
  host.baseUrl || (app.agentChannels host.id).isSome || app.isChannelHostBound host.id

/-- `resolveHostTransport` for streams gives `channel-down`. -/
def isStreamChannelDown (app : App) (hostId : ℕ) : Bool :=
  !(app.agentChannels hostId).any Carried.streams && (app.boundHosts hostId).any Carried.streams

def bindChannelHost (app : App) (hostId : ℕ) (operations : Carried) : App :=
  { app with boundHosts := Function.update app.boundHosts hostId (some operations) }

def unbindChannelHost (app : App) (hostId : ℕ) : App :=
  { app with boundHosts := Function.update app.boundHosts hostId none }

/-- The channel of a host is accepted; it replaces the one before. -/
def acceptChannel (app : App) (hostId : ℕ) (carried : Carried) : App :=
  let entered := { app with
    agentChannels := Function.update app.agentChannels hostId (some carried) }
  if carried.requests || carried.streams then entered.bindChannelHost hostId carried
  else entered.unbindChannelHost hostId

/-- `mux.onClose` of the channel that is registered. -/
def loseChannel (app : App) (hostId : ℕ) : App :=
  { app with agentChannels := Function.update app.agentChannels hostId none }

variable (app : App) (hostId hostId' : ℕ)

@[simp] theorem acceptChannel_agentChannels (carried : Carried) :
    (app.acceptChannel hostId carried).agentChannels hostId' =
      if hostId' = hostId then some carried else app.agentChannels hostId' := by
  unfold acceptChannel
  dsimp only
  split <;> exact Function.update_apply _ _ _ _

@[simp] theorem acceptChannel_boundHosts (carried : Carried) :
    (app.acceptChannel hostId carried).boundHosts hostId' =
      if hostId' = hostId then
        if carried.requests || carried.streams then some carried else none
      else app.boundHosts hostId' := by
  unfold acceptChannel
  dsimp only
  split <;> exact Function.update_apply _ _ _ _

@[simp] theorem loseChannel_agentChannels :
    (app.loseChannel hostId).agentChannels hostId' =
      if hostId' = hostId then none else app.agentChannels hostId' :=
  Function.update_apply _ _ _ _

@[simp] theorem unbindChannelHost_boundHosts :
    (app.unbindChannelHost hostId).boundHosts hostId' =
      if hostId' = hostId then none else app.boundHosts hostId' :=
  Function.update_apply _ _ _ _

end App

/-! ## The three streams -/

/-- What one of the three does that the others do not. -/
structure Stream (Frame Item : Type) where
  /-- wanted only while a bridge is connected -/
  needsBridge : Bool
  /-- wanted only while events are kept or somebody listens -/
  needsPersistence : Bool
  /-- listens to `unexpected-response` -/
  probes : Bool
  /-- what is made of a frame, if anything -/
  read : Frame → Option Item

/-- A message of a WebSocket. -/
structure Message where
  isBinary : Bool
  data : List UInt8
  deriving DecidableEq, Repr

def Value.isNumber : Value → Bool
  | .number _ => true
  | _ => false

def Value.isString : Value → Bool
  | .string _ => true
  | _ => false

def isNotificationEvent : Value → Bool
  | .object v =>
    (get v "sessionId").any Value.isNumber && (get v "seq").any Value.isNumber &&
      (get v "kind").any Value.isString && (get v "ts").any Value.isNumber
  | _ => false

/-- `remote-event-subscriber.ts`; `parse` is `JSON.parse` on UTF-8. -/
def remoteEventSubscriber (parse : List UInt8 → Option Value) : Stream Message Value where
  needsBridge := false
  needsPersistence := true
  probes := false
  read message :=
    if message.isBinary then none else (parse message.data).filter isNotificationEvent

/-- `ssh-agent-fanout.ts`; a frame is a channel that the agent opens on the mux. -/
def sshAgentFanout : Stream ℕ ℕ where
  needsBridge := true
  needsPersistence := false
  probes := false
  read := some

/-- `control-relay-fanout.ts`; a frame is a channel that the agent opens on the mux. -/
def controlRelayFanout : Stream ℕ ℕ where
  needsBridge := false
  needsPersistence := false
  probes := true
  read := some

/-! ## State -/

/-- `readyState`. -/
inductive ReadyState
  | connecting
  | open
  | closing
  | closed
  deriving DecidableEq, Repr

/-- `HostFanout`, which `remote-event-subscriber.ts` calls `HostSubscription`. -/
structure HostFanout where
  hostId : ℕ
  stopped : Bool
  socket : Option ℕ
  attempt : ℕ
  /-- the delay of the timer, when it is armed -/
  reconnectTimer : Option ℕ
  /-- the socket that the timer terminates, when it is armed -/
  connectTimeoutTimer : Option ℕ
  unsupported : Bool
  deriving DecidableEq, Repr

/-- A socket, with the object whose listeners it has. -/
structure Socket (Frame Item : Type) where
  fanout : ℕ
  /-- the host that it was opened to -/
  hostId : ℕ
  readyState : ReadyState
  /-- what came in on it -/
  arrived : List Frame
  /-- what was handed on -/
  served : List Item

structure State (Frame Item : Type) where
  app : App
  /-- every `HostFanout` that was made -/
  objects : List HostFanout
  sockets : List (Socket Frame Item)
  /-- the object of a host -/
  fanouts : OrderedMap ℕ ℕ
  stopped : Bool
  /-- the calls of `onEvent`, or the channels that were taken on, with their host -/
  log : List (ℕ × Item)
  /-- the hosts that the last `reconcile` wanted -/
  desired : List ℕ
  /-- whether it could open streams to them -/
  complete : Bool
  /-- the hosts whose streams were bound to a channel that was down when they were unbound, until
  their next channel -/
  released : ℕ → Bool

variable {Frame Item : Type}

/-- The process has started. -/
def State.start (hosts : List Host) : State Frame Item where
  app := ⟨hosts, fun _ => none, fun _ => none, []⟩
  objects := []
  sockets := []
  fanouts := OrderedMap.empty
  stopped := false
  log := []
  desired := []
  complete := false
  released _ := false

def HostFanout.start (hostId : ℕ) : HostFanout where
  hostId := hostId
  stopped := false
  socket := none
  attempt := 0
  reconnectTimer := none
  connectTimeoutTimer := none
  unsupported := false

/-- The fields that `closeFanout` sets. -/
def HostFanout.close (f : HostFanout) : HostFanout :=
  { f with stopped := true, socket := none, reconnectTimer := none, connectTimeoutTimer := none }

def HostFanout.delay (f : HostFanout) : ℕ :=
  if f.unsupported then UNSUPPORTED_RETRY_MS
  else RECONNECT_DELAYS_MS.getD (min f.attempt (RECONNECT_DELAYS_MS.length - 1)) 0

namespace State

variable (s : State Frame Item)

/-- Assign fields of an object. -/
def modify (i : ℕ) (g : HostFanout → HostFanout) : State Frame Item :=
  { s with objects := s.objects.modify i g }

/-- `close()` or `terminate()` of a socket: its `close` event is still to come. -/
def closeSocket (k : ℕ) : State Frame Item :=
  { s with sockets := s.sockets.modify k fun w =>
      if w.readyState = .closed then w else { w with readyState := .closing } }

/-- `mux.close()`, where there is one, closes the socket as well. -/
def closeFanout (i : ℕ) : State Frame Item :=
  match s.objects[i]? with
  | none => s
  | some f =>
    let released := s.modify i HostFanout.close
    match f.socket with
    | none => released
    | some k => released.closeSocket k

def scheduleReconnect (i : ℕ) : State Frame Item :=
  match s.objects[i]? with
  | none => s
  | some f =>
    if f.stopped || s.stopped then s
    else s.modify i fun f =>
      { f with reconnectTimer := some f.delay, attempt := f.attempt + 1 }

variable (m : Stream Frame Item)

/-- `throws` says for which hosts `getRemoteHostClient` or the opening of the stream throws. -/
def connect (throws : ℕ → Bool) (i : ℕ) : State Frame Item :=
  match s.objects[i]? with
  | none => s
  | some f =>
    if f.stopped || s.stopped then s
    else if m.needsBridge && s.app.connectedBridges.isEmpty then s
    else if s.app.isStreamChannelDown f.hostId then s
    else if throws f.hostId then s.scheduleReconnect i
    else
      let k := s.sockets.length
      { s.modify i fun f => { f with socket := some k, connectTimeoutTimer := some k } with
        sockets := s.sockets ++ [⟨i, f.hostId, .connecting, [], []⟩] }

/-- What `reconcile` reads of the settings and the listeners. -/
structure Reading where
  /-- `none` when the settings cannot be read -/
  eventPersistence : Option Bool
  hasLiveDemand : Bool
  deriving DecidableEq, Repr

/-- `desiredIds`. -/
def desiredIds : List ℕ :=
  if m.needsBridge && s.app.connectedBridges.isEmpty then []
  else (s.app.hosts.filter fun h => !h.isLocal && s.app.hasReachablePath h).map Host.id

/-- One turn of the loop that closes. -/
def drop (desired force : List ℕ) (e : ℕ × ℕ) : State Frame Item :=
  if e.1 ∉ desired ∨ e.1 ∈ force then
    let closed := s.closeFanout e.2
    { closed with fanouts := closed.fanouts.erase e.1 }
  else s

/-- One turn of the loop that opens. -/
def openFanout (throws : ℕ → Bool) (hostId : ℕ) : State Frame Item :=
  if (s.fanouts.lookup hostId).isSome then s
  else
    let i := s.objects.length
    { s with
      objects := s.objects ++ [HostFanout.start hostId]
      fanouts := s.fanouts.set hostId i }.connect m throws i

/-- Every object is closed and the map cleared. -/
def clear : State Frame Item :=
  { s.fanouts.entries.rows.foldl (fun s e => s.closeFanout e.2) s with
    fanouts := OrderedMap.empty }

def reconcile (force : List ℕ) (reading : Reading) (throws : ℕ → Bool) : State Frame Item :=
  if s.stopped then s
  else if m.needsPersistence && reading.eventPersistence == some false &&
      !reading.hasLiveDemand then
    { s.clear with desired := [], complete := true }
  else
    let desired := s.desiredIds m
    let closed := s.fanouts.entries.rows.foldl (fun s e => s.drop desired force e) s
    -- what is not confirmed is not opened
    if m.needsPersistence && reading.eventPersistence == none then
      { closed with desired := desired, complete := false }
    else
      { desired.foldl (fun s hostId => s.openFanout m throws hostId) closed with
        desired := desired, complete := true }

def stop : State Frame Item := { s with stopped := true }.clear

/-! ## Events of sockets -/

/-- The socket opens. -/
def onOpen (k : ℕ) (w : Socket Frame Item) : State Frame Item :=
  { s.modify w.fanout fun f =>
      { f with connectTimeoutTimer := none, attempt := 0, unsupported := false } with
    sockets := s.sockets.modify k fun w => { w with readyState := .open } }

/-- A message comes in, or the agent opens a channel. -/
def onFrame (k : ℕ) (w : Socket Frame Item) (x : Frame) : State Frame Item :=
  let heard := { s with
    sockets := s.sockets.modify k fun w => { w with arrived := w.arrived ++ [x] } }
  match s.objects[w.fanout]? with
  | none => heard
  | some f =>
    if f.stopped || s.stopped then heard
    else
      match m.read x with
      | none => heard
      | some item =>
        { heard with
          sockets := heard.sockets.modify k fun w => { w with served := w.served ++ [item] }
          log := s.log ++ [(f.hostId, item)] }

def onClose (k : ℕ) (w : Socket Frame Item) : State Frame Item :=
  ({ s.modify w.fanout fun f => { f with connectTimeoutTimer := none, socket := none } with
    sockets := s.sockets.modify k fun w => { w with readyState := .closed } }).scheduleReconnect
      w.fanout

end State

/-! ## Steps -/

open State (Reading)

inductive Event (Frame : Type)
  /-- the table of hosts changes -/
  | hosts (hosts : List Host)
  /-- an agent's channel is accepted -/
  | channelUp (hostId : ℕ) (carried : Carried) (reading : Reading) (throws : ℕ → Bool)
  | channelClosed (hostId : ℕ)
  /-- the identity of a host is revoked, or the host deleted -/
  | unbind (hostId : ℕ)
  | trackBridge (bridgeId : ℕ) (reading : Reading) (throws : ℕ → Bool)
  | bridgeClosed (bridgeId : ℕ) (reading : Reading) (throws : ℕ → Bool)
  | reconcile (force : List ℕ) (reading : Reading) (throws : ℕ → Bool)
  | stop
  | reconnectTimer (i : ℕ) (throws : ℕ → Bool)
  | connectTimeout (i : ℕ)
  | unexpectedResponse (k : ℕ) (statusCode : ℕ)
  | opened (k : ℕ)
  | frame (k : ℕ) (x : Frame)
  | closed (k : ℕ)

/-- The bridges have changed. -/
def bridgesChanged (m : Stream Frame Item) (s : State Frame Item) (bridges : List ℕ)
    (reading : Reading) (throws : ℕ → Bool) : State Frame Item :=
  let changed := { s with app := { s.app with connectedBridges := bridges } }
  if m.needsBridge then changed.reconcile m [] reading throws else changed

def step (m : Stream Frame Item) (s : State Frame Item) :
    Event Frame → Option (State Frame Item)
  | .hosts hosts => some { s with app := { s.app with hosts := hosts } }
  | .channelUp hostId carried reading throws =>
    some ({ s with
      app := s.app.acceptChannel hostId carried
      released := Function.update s.released hostId false }.reconcile m [hostId] reading throws)
  | .channelClosed hostId => some { s with app := s.app.loseChannel hostId }
  | .unbind hostId =>
    some { s with
      app := s.app.unbindChannelHost hostId
      released := if s.app.isStreamChannelDown hostId then Function.update s.released hostId true
        else s.released }
  | .trackBridge bridgeId reading throws =>
    some (bridgesChanged m s (s.app.connectedBridges.insert bridgeId) reading throws)
  | .bridgeClosed bridgeId reading throws =>
    some (bridgesChanged m s (s.app.connectedBridges.erase bridgeId) reading throws)
  | .reconcile force reading throws => some (s.reconcile m force reading throws)
  | .stop => some s.stop
  | .reconnectTimer i throws =>
    match s.objects[i]? with
    | some f =>
      if f.reconnectTimer = none then none
      else some ((s.modify i fun f => { f with reconnectTimer := none }).connect m throws i)
    | none => none
  | .connectTimeout i =>
    match s.objects[i]? with
    | some f =>
      match f.connectTimeoutTimer with
      | some k => some ((s.modify i fun f => { f with connectTimeoutTimer := none }).closeSocket k)
      | none => none
    | none => none
  | .unexpectedResponse k statusCode =>
    match s.sockets[k]? with
    | some w =>
      if m.probes && w.readyState == .connecting then
        some ((s.modify w.fanout fun f =>
          { f with unsupported := statusCode == 404 }).closeSocket k)
      else none
    | none => none
  | .opened k =>
    match s.sockets[k]? with
    | some w => if w.readyState = .connecting then some (s.onOpen k w) else none
    | none => none
  | .frame k x =>
    match s.sockets[k]? with
    | some w =>
      if w.readyState = .open ∨ w.readyState = .closing then some (s.onFrame m k w x) else none
    | none => none
  | .closed k =>
    match s.sockets[k]? with
    | some w => if w.readyState = .closed then none else some (s.onClose k w)
    | none => none

end Fanout
end Mullion
