import Mathlib.Data.List.Basic
import Mathlib.Data.List.Nodup
import Mathlib.Tactic

/-!
# One end of a multiplexed connection

The state and the handlers of `createMuxConnection` (`ssh-agent-mux.ts`): many
logical channels over one WebSocket, each with its own credit window.  One
handler call is one atomic step (the event loop runs it to its end), so each is
a function from the connection's state to the new state and the frames it
sends, in order.

* `pickFreeChannelId`, `allocateChannelId` choose the id of a new channel;
* `openChannel` opens one, or queues the call when every slot is taken;
* `drainSlotWaiters` hands freed slots to the queued calls;
* `handleMessage` is the frame handler;
* `openAckTimeout`, `waitTimeout`, `close`, `send`, `eof`, `acknowledgeConsumed`
  and `onData`/`onEof` are the remaining entry points.

Consumer callbacks are not part of the state: what a callback does to the
connection is a further call of one of these entry points.
-/

namespace Mullion
namespace Mux

/-- Initial channel window, in bytes. -/
def channelWindowBytes : Nat := 256 * 1024

/-- Consumed bytes after which a `WindowAdjust` is sent. -/
def windowAdjustThresholdBytes : Nat := channelWindowBytes / 2

/-- Default cap on concurrently open channels of one connection. -/
def defaultMaxChannels : Nat := 256

/-- An allocator that has come to this id or beyond wraps instead of stepping on. -/
def lastChannelId : Nat := 0xfffffffe

/-- The frames of the wire protocol. -/
inductive Frame
  | openReq (channelId : Nat)
  | openAck (channelId : Nat)
  | openFail (channelId : Nat)
  | data (channelId : Nat) (payload : List UInt8)
  | windowAdjust (channelId : Nat) (byteCount : Nat)
  | eof (channelId : Nat)
  | close (channelId : Nat)
  | ping
  | pong
  deriving DecidableEq, Repr

/-- `ChannelImpl`: an open channel as one end sees it.  A closed channel is in
no connection's map, so there is no `closed` flag here. -/
structure Channel where
  id : Nat
  /-- Bytes this end may still send. -/
  sendWindowBytes : Nat
  /-- Bytes consumed and not yet returned to the peer by a `WindowAdjust`. -/
  unacknowledgedBytes : Nat
  /-- Chunks that arrived before the first `onData` listener. -/
  pendingData : List (List UInt8)
  /-- Whether an `onData` listener is attached. -/
  dataAttached : Bool
  /-- An `Eof` that arrived before the first `onEof` listener. -/
  pendingEof : Bool
  /-- Whether an `onEof` listener is attached. -/
  eofAttached : Bool
  deriving DecidableEq, Repr

/-- A new channel: full window, nothing received, no listener. -/
def Channel.new (id : Nat) : Channel :=
  { id, sendWindowBytes := channelWindowBytes, unacknowledgedBytes := 0, pendingData := [],
    dataAttached := false, pendingEof := false, eofAttached := false }

/-- Bytes held for a listener that is not attached yet. -/
def Channel.pendingDataBytes (ch : Channel) : Nat := (ch.pendingData.map List.length).sum

/-- A queued `openChannel` call. `key` stands for the identity of the closure. -/
structure SlotWaiter where
  key : Nat
  stream : Bool
  preview : Bool
  deriving DecidableEq, Repr

/-- `OpenChannelOptions`. `waitTimeoutMs` is `0` when not given; `key` names the
call, for the events that end its wait. -/
structure OpenChannelOptions where
  stream : Bool := false
  preview : Bool := false
  waitTimeoutMs : Nat := 0
  aborted : Bool := false
  key : Nat := 0
  deriving DecidableEq, Repr

/-- The options a queued call is replayed with: its caps, and no second wait. -/
def SlotWaiter.opts (w : SlotWaiter) : OpenChannelOptions :=
  if w.preview then { preview := true } else if w.stream then { stream := true } else {}

/-- Which ids an end allocates. -/
inductive Parity
  | even
  | odd
  deriving DecidableEq, Repr

/-- `startChannelId`. -/
def Parity.startChannelId : Parity → Nat
  | .even => 2
  | .odd => 1

/-- The state of one `MuxConnection`. -/
structure Connection where
  maxChannels : Nat
  maxStreamChannels : Nat
  maxPreviewChannels : Nat
  channelIdParity : Parity
  channels : List Channel
  pendingOpens : List Nat
  streamIds : List Nat
  previewIds : List Nat
  nextChannelId : Nat
  slotWaiters : List SlotWaiter
  closed : Bool
  deriving DecidableEq, Repr

/-- `createMuxConnection`: the caps clamped as the source clamps them. -/
def createMuxConnection (channelIdParity : Parity) (maxChannels : Nat := defaultMaxChannels)
    (maxStreamChannels : Nat := maxChannels)
    (maxPreviewChannels : Nat := min maxStreamChannels maxChannels) : Connection :=
  { maxChannels
    maxStreamChannels := min maxStreamChannels maxChannels
    maxPreviewChannels := min maxPreviewChannels (min maxStreamChannels maxChannels)
    channelIdParity
    channels := []
    pendingOpens := []
    streamIds := []
    previewIds := []
    nextChannelId := channelIdParity.startChannelId
    slotWaiters := []
    closed := false }

/-- What `openChannel` answers at once. `opening id` is the promise that waits
for the peer. -/
inductive OpenOutcome
  | connectionClosed
  | previewCapReached
  | streamCapReached
  | channelCapReached
  | aborted
  | waiting
  | allocatorExhausted
  | opening (id : Nat)
  deriving DecidableEq, Repr

namespace Connection

/-! ## The maps -/

/-- The ids of the open channels. -/
def channelIds (c : Connection) : List Nat := c.channels.map Channel.id

/-- `channels.size + pendingOpens.size`. -/
def slotsInUse (c : Connection) : Nat := c.channels.length + c.pendingOpens.length

/-- `combinedOccupiedIds`. -/
def combinedOccupiedIds (c : Connection) : List Nat := c.channelIds ++ c.pendingOpens

/-- `streamsInUse`. -/
def streamsInUse (c : Connection) : Nat :=
  c.streamIds.length + (c.slotWaiters.filter SlotWaiter.stream).length

/-- `previewsInUse`. -/
def previewsInUse (c : Connection) : Nat :=
  c.previewIds.length + (c.slotWaiters.filter SlotWaiter.preview).length

/-- `forgetStream`. -/
def forgetStream (c : Connection) (id : Nat) : Connection :=
  { c with streamIds := c.streamIds.filter (· ≠ id), previewIds := c.previewIds.filter (· ≠ id) }

/-- `channels.get`. -/
def getChannel (c : Connection) (id : Nat) : Option Channel :=
  c.channels.find? (fun ch => ch.id = id)

/-- `channels.set` of an id the map does not hold. -/
def addChannel (c : Connection) (ch : Channel) : Connection :=
  { c with channels := c.channels ++ [ch] }

/-- `channels.delete`. -/
def deleteChannel (c : Connection) (id : Nat) : Connection :=
  { c with channels := c.channels.filter (fun ch => ch.id ≠ id) }

/-- Replace the state of one open channel. -/
def setChannel (c : Connection) (ch : Channel) : Connection :=
  { c with channels := c.channels.map (fun x => if x.id = ch.id then ch else x) }

/-- `pendingOpens.delete`. -/
def deletePending (c : Connection) (id : Nat) : Connection :=
  { c with pendingOpens := c.pendingOpens.filter (· ≠ id) }

/-! ## Allocation of ids -/

/-- The id tried after `id`, stepping by two so that the parity stays, and back
to `start` at the end of the 32-bit space. -/
def stepId (start id : Nat) : Nat := if lastChannelId ≤ id then start else id + 2

/-- `pickFreeChannelId`: the first id from `id` on that is not occupied, or
nothing (the source throws) once `maxChecks` candidates were taken. -/
def pickFreeChannelId (occupied : List Nat) (start : Nat) : Nat → Nat → Option Nat
  | 0, id => if id ∈ occupied then none else some id
  | maxChecks + 1, id =>
    if id ∈ occupied then pickFreeChannelId occupied start maxChecks (stepId start id)
    else some id

/-- `allocateChannelId`. -/
def allocateChannelId (c : Connection) : Option (Nat × Connection) :=
  match pickFreeChannelId c.combinedOccupiedIds c.nextChannelId c.maxChannels c.nextChannelId with
  | none => none
  | some id => some (id, { c with nextChannelId := stepId c.channelIdParity.startChannelId id })

/-! ## Opening a channel -/

/-- The end of `openChannel`, once a slot is free: pick an id, record the open
and ask the peer. -/
def startOpen (c : Connection) (stream preview : Bool) :
    Connection × List Frame × OpenOutcome :=
  match c.allocateChannelId with
  | none => (c, [], .allocatorExhausted)
  | some (id, c) =>
    ({ c with
        pendingOpens := c.pendingOpens ++ [id]
        streamIds := if stream then c.streamIds ++ [id] else c.streamIds
        previewIds := if preview then c.previewIds ++ [id] else c.previewIds },
      [.openReq id], .opening id)

/-- `openChannel`. -/
def openChannel (c : Connection) (opts : OpenChannelOptions) :
    Connection × List Frame × OpenOutcome :=
  let stream := opts.stream || opts.preview
  if c.closed then (c, [], .connectionClosed)
  else if opts.preview ∧ c.maxPreviewChannels ≤ c.previewsInUse then (c, [], .previewCapReached)
  else if stream ∧ c.maxStreamChannels ≤ c.streamsInUse then (c, [], .streamCapReached)
  else if c.maxChannels ≤ c.slotsInUse then
    if opts.waitTimeoutMs = 0 then (c, [], .channelCapReached)
    else if opts.aborted then (c, [], .aborted)
    else
      ({ c with slotWaiters :=
          c.slotWaiters ++ [{ key := opts.key, stream, preview := opts.preview }] },
        [], .waiting)
  else c.startOpen stream opts.preview

/-- The loop of `drainSlotWaiters` over the queue `ws`. A waiter whose open
throws leaves the loop. -/
def drainLoop : Connection → List SlotWaiter → Connection × List Frame
  | c, [] => ({ c with slotWaiters := [] }, [])
  | c, w :: ws =>
    if c.slotsInUse < c.maxChannels then
      match openChannel { c with slotWaiters := ws } w.opts with
      | (c, out, .allocatorExhausted) => (c, out)
      | (c, out, _) =>
        let (c, rest) := drainLoop c ws
        (c, out ++ rest)
    else ({ c with slotWaiters := w :: ws }, [])

/-- `drainSlotWaiters`. -/
def drainSlotWaiters (c : Connection) : Connection × List Frame :=
  if c.closed then (c, []) else drainLoop c c.slotWaiters

/-- Run `drainSlotWaiters` after sending `out`. -/
def thenDrain (c : Connection) (out : List Frame) : Connection × List Frame :=
  let (c, rest) := c.drainSlotWaiters
  (c, out ++ rest)

/-! ## Entry points on one channel -/

/-- `ChannelImpl.close`, with the `removeChannel` it ends in. A channel that is
no longer in the map is closed already. -/
def close (c : Connection) (id : Nat) : Connection × List Frame :=
  match c.getChannel id with
  | none => (c, [])
  | some _ => ((c.deleteChannel id).forgetStream id).thenDrain [.close id]

/-- `ChannelImpl.send`; `none` where the source throws. -/
def send (c : Connection) (id : Nat) (chunk : List UInt8) : Option (Connection × List Frame) :=
  match c.getChannel id with
  | none => none
  | some ch =>
    if ch.sendWindowBytes < chunk.length then none
    else some (c.setChannel { ch with sendWindowBytes := ch.sendWindowBytes - chunk.length },
      [.data id chunk])

/-- `ChannelImpl.eof`. -/
def eof (c : Connection) (id : Nat) : Connection × List Frame :=
  match c.getChannel id with
  | none => (c, [])
  | some _ => (c, [.eof id])

/-- `ChannelImpl.acknowledgeConsumed`. -/
def acknowledgeConsumed (c : Connection) (id byteCount : Nat) : Connection × List Frame :=
  match c.getChannel id with
  | none => (c, [])
  | some ch =>
    let unacknowledged := ch.unacknowledgedBytes + byteCount
    if windowAdjustThresholdBytes ≤ unacknowledged then
      (c.setChannel { ch with unacknowledgedBytes := 0 }, [.windowAdjust id unacknowledged])
    else (c.setChannel { ch with unacknowledgedBytes := unacknowledged }, [])

/-- `ChannelImpl.onData`: the first listener takes what was held for it. -/
def onData (c : Connection) (id : Nat) : Connection :=
  match c.getChannel id with
  | none => c
  | some ch => c.setChannel { ch with dataAttached := true, pendingData := [] }

/-- `ChannelImpl.onEof`. -/
def onEof (c : Connection) (id : Nat) : Connection :=
  match c.getChannel id with
  | none => c
  | some ch => c.setChannel { ch with eofAttached := true, pendingEof := false }

/-- `ChannelImpl.handleData`: hold the chunk while nobody listens, and close the
channel when the peer overran the window it was granted. -/
def handleData (c : Connection) (ch : Channel) (chunk : List UInt8) : Connection × List Frame :=
  if ch.dataAttached then (c, [])
  else if channelWindowBytes < ch.pendingDataBytes + chunk.length then c.close ch.id
  else (c.setChannel { ch with pendingData := ch.pendingData ++ [chunk] }, [])

/-- `ChannelImpl.handleEof`. -/
def handleEof (c : Connection) (ch : Channel) : Connection :=
  if ch.eofAttached then c else c.setChannel { ch with pendingEof := true }

/-- `ChannelImpl.handleWindowAdjust`: the credit never passes the first window. -/
def handleWindowAdjust (c : Connection) (ch : Channel) (byteCount : Nat) : Connection :=
  c.setChannel
    { ch with sendWindowBytes := min (ch.sendWindowBytes + byteCount) channelWindowBytes }

/-! ## The frame handler and the timers -/

/-- The frames that need an open channel; others are dropped. -/
def handleChannelFrame (c : Connection) (id : Nat)
    (handle : Channel → Connection × List Frame) : Connection × List Frame :=
  match c.getChannel id with
  | none => (c, [])
  | some ch => handle ch

/-- `handleMessage`. -/
def handleMessage (c : Connection) : Frame → Connection × List Frame
  | .ping => (c, [.pong])
  | .pong => (c, [])
  | .openReq id =>
    if c.maxChannels ≤ c.slotsInUse then (c, [.openFail id])
    -- an id the peer chose although this end already uses it
    else if id ∈ c.channelIds ∨ id ∈ c.pendingOpens then (c, [.openFail id])
    else (c.addChannel (Channel.new id), [.openAck id])
  | .openAck id =>
    if id ∈ c.pendingOpens then ((c.deletePending id).addChannel (Channel.new id), [])
    else (c, [])
  | .openFail id =>
    if id ∈ c.pendingOpens then ((c.deletePending id).forgetStream id).thenDrain []
    else (c, [])
  | .data id payload => c.handleChannelFrame id (fun ch => c.handleData ch payload)
  | .windowAdjust id n => c.handleChannelFrame id (fun ch => (c.handleWindowAdjust ch n, []))
  | .eof id => c.handleChannelFrame id (fun ch => (c.handleEof ch, []))
  | .close id =>
    c.handleChannelFrame id (fun _ => ((c.deleteChannel id).forgetStream id).thenDrain [])

/-- The timer of a pending open fires: the open is forgotten. Nothing is sent. -/
def openAckTimeout (c : Connection) (id : Nat) : Connection × List Frame :=
  ((c.deletePending id).forgetStream id).thenDrain []

/-- A queued call's own timer, or its abort signal, takes it out of the queue. -/
def waitTimeout (c : Connection) (key : Nat) : Connection :=
  { c with slotWaiters := c.slotWaiters.filter (fun w => w.key ≠ key) }

end Connection

end Mux
end Mullion
