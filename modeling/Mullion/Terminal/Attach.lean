import Mullion.Terminal.Session

/-!
# Streaming a session to a browser

`attachSocketToSession` and `proxyToRemoteAttach` (`routes/terminal.ts`). The first replays a
session to a socket and streams its output; a socket that does not drain makes it drop output
until a resync. The second pipes the stream of an agent's `attachSocketToSession` to a browser
and does the same for the browser's socket, with a request to the agent for the resync.

* `Item` — what is put on a socket. Two things are not on the wire: which replay a resync
  announces (`Mark`), and where a chunk of output was not sent (`skipped`);
* `SocketLike` — a socket, open or not, with the bytes it has buffered;
* `Attachment` — one `attachSocketToSession`, with its `dirty` flag and drain watch;
* `Proxy` — one `proxyToRemoteAttach`, with its three states and its timer;
* `Attachment.next`, `Remote.next` — the events of a direct attachment and of a remote one.
-/

namespace Mullion
namespace Terminal

open StartupQuery (TerminalPalette)

def backpressureMaxBufferedBytes : Nat := 4 * 1024 * 1024
def resyncDrainBytes : Nat := 256 * 1024

/-! ## Sockets -/

/-- The replay of a resync: the snapshot that was taken, and how many chunks the session had
emitted by then. -/
structure Mark where
  snapshot : List UInt8
  emitted : Nat
  deriving DecidableEq, Repr

/-- The control messages but the resync. -/
inductive ControlMessage
  | geometry (cols rows minCols minRows : Nat)
  | exited (incompatible : Bool)
  deriving DecidableEq, Repr

/-- What is put on a socket: a binary frame, a `{type:"resync"}`, another control message; or
the place of a chunk that was not sent. -/
inductive Item
  | binary (bytes : List UInt8)
  | resync (mark : Mark)
  | control (message : ControlMessage)
  | skipped
  deriving DecidableEq, Repr

/-- The server's end of a socket. `room` is how many more frames it takes before it closes
itself (`CHANNEL_MAX_BUFFERED_BYTES` of a `SocketChannel`), if it ever does. -/
structure SocketLike where
  isOpen : Bool
  bufferedAmount : Nat
  room : Option Nat
  items : List Item
  deriving DecidableEq, Repr

namespace SocketLike

variable (s : SocketLike)

def send (item : Item) : SocketLike :=
  if s.isOpen then
    match s.room with
    | some 0 => { s with isOpen := false }
    | some (n + 1) => { s with room := some n, items := s.items ++ [item] }
    | none => { s with items := s.items ++ [item] }
  else s

/-- A chunk is not sent. -/
def skip : SocketLike := if s.isOpen then { s with items := s.items ++ [.skipped] } else s

def close : SocketLike := { s with isOpen := false }

end SocketLike

/-! ## A direct attachment -/

/-- `attachSocketToSession`, with the chunks the session has emitted since. -/
structure Attachment where
  session : Session
  socket : SocketLike
  dirty : Bool
  drainTimer : Bool
  subscribed : Bool
  emitted : List (List UInt8)
  deriving DecidableEq, Repr

/-- What comes in on the socket, as far as it changes what goes out. -/
inductive AttachMessage
  | resize (cols rows : Nat)
  | resyncRequest
  deriving DecidableEq, Repr

namespace Attachment

variable (a : Attachment)

/-- The geometry message. -/
def geometry : ControlMessage :=
  .geometry a.session.cols a.session.rows minTerminalCols minTerminalRows

def sendGeometry : Attachment := { a with socket := a.socket.send (.control a.geometry) }

/-- The replay that a resync would announce now. -/
def mark : Mark := ⟨a.session.getScrollback, a.emitted.length⟩

/-- The replay itself, if there is anything to replay. -/
def sendBacklog : Attachment :=
  if a.session.getScrollback ≠ [] then
    { a with socket := a.socket.send (.binary a.session.getScrollback) }
  else a

def requestRedraw : Attachment := { a with session := a.session.requestRedraw }

def sendResync : Attachment :=
  ({ a with socket := a.socket.send (.resync a.mark) }).sendBacklog.sendGeometry.requestRedraw

/-- The listener for output. -/
def onData (chunk : List UInt8) : Attachment :=
  if a.socket.isOpen = false then a
  else if a.dirty then { a with socket := a.socket.skip }
  else if backpressureMaxBufferedBytes < a.socket.bufferedAmount then
    { a with dirty := true, drainTimer := true, socket := a.socket.skip }
  else { a with socket := a.socket.send (.binary chunk) }

/-- A tick of the drain watch. -/
def drainTick : Attachment :=
  if a.socket.isOpen = false then { a with drainTimer := false }
  else if resyncDrainBytes < a.socket.bufferedAmount then a
  else ({ a with drainTimer := false, dirty := false }).sendResync

def onMessage : AttachMessage → Attachment
  | .resize cols rows => ({ a with session := a.session.resize cols rows }).sendGeometry
  | .resyncRequest => if a.dirty then a else a.sendResync

def onExit (incompatible : Bool) : Attachment :=
  let a := { a with session := a.session.onExit }
  if a.subscribed then { a with socket := a.socket.send (.control (.exited incompatible)) } else a

def onClose : Attachment :=
  { a with socket := a.socket.close, drainTimer := false, subscribed := false }

/-- The session writes `rawData`: the chunk goes to the ring first, then to the listeners. -/
def output (now : Nat) (palette : Option TerminalPalette) (rawData : List Char) : Attachment :=
  let outcome := a.session.onData now palette rawData
  let a := { a with session := outcome.1 }
  match outcome.2.fanOut with
  | none => a
  | some chunk =>
    let a := { a with emitted := a.emitted ++ [chunk] }
    if a.subscribed then a.onData chunk else a

end Attachment

/-- The attachment of a socket to a session; `wasAlive` tells whether it was running. -/
def attachSocketToSession (session : Session) (wasAlive : Bool) (bufferedAmount : Nat)
    (room : Option Nat) : Attachment :=
  let a : Attachment :=
    { session := session, socket := ⟨true, bufferedAmount, room, []⟩, dirty := false,
      drainTimer := false, subscribed := true, emitted := [] }
  let a := a.sendBacklog.sendGeometry
  if wasAlive then a.requestRedraw else a

/-- The events of an attachment. -/
inductive AttachEvent
  | output (now : Nat) (palette : Option TerminalPalette) (rawData : List Char)
  | session (e : SessionEvent)
  | exit (incompatible : Bool)
  | buffered (amount : Nat)
  | drainTick
  | message (m : AttachMessage)
  | close
  deriving DecidableEq, Repr

/-- One event. `session` is whatever else happens to the session, through other attachments
too; the drain watch ticks only while its timer is set. -/
def Attachment.next (a : Attachment) : AttachEvent → Option Attachment
  | .output now palette rawData => some (a.output now palette rawData)
  | .session (.data _ _ _) => none
  | .session .exit => none
  | .session e => (a.session.next e).map fun s => { a with session := s }
  | .exit incompatible => some (a.onExit incompatible)
  | .buffered amount => some { a with socket := { a.socket with bufferedAmount := amount } }
  | .drainTick => if a.drainTimer then some a.drainTick else none
  | .message m => if a.subscribed then some (a.onMessage m) else none
  | .close => some a.onClose

/-! ## A remote attachment -/

inductive ResyncState
  | live
  | dirty
  | awaiting
  deriving DecidableEq, Repr

/-- `resyncTimer`: the drain watch, or the wait for the agent's resync. -/
inductive ResyncTimer
  | drain
  | ack
  deriving DecidableEq, Repr

/-- `upstream.readyState`. -/
inductive Upstream
  | connecting
  | opened
  | closed
  deriving DecidableEq, Repr

/-- `proxyToRemoteAttach`, with how many items of the agent it has taken, and how many
requests for a resync it has sent upstream. -/
structure Proxy where
  resyncState : ResyncState
  resyncTimer : Option ResyncTimer
  browserSocket : SocketLike
  upstream : Upstream
  taken : Nat
  requested : Nat
  deriving DecidableEq, Repr

namespace Proxy

variable (p : Proxy)

def clearResyncTimer : Proxy := { p with resyncTimer := none }

def closeForReconnect : Proxy :=
  { p.clearResyncTimer with browserSocket := p.browserSocket.close }

def requestUpstreamResync : Proxy :=
  if p.upstream ≠ .opened then p.closeForReconnect
  else
    { p with resyncState := .awaiting, requested := p.requested + 1, resyncTimer := some .ack }

def startResyncDrainWatch : Proxy := { p with resyncState := .dirty, resyncTimer := some .drain }

def forward (item : Item) : Proxy := { p with browserSocket := p.browserSocket.send item }

def discard : Proxy := { p with browserSocket := p.browserSocket.skip }

/-- A message from upstream. -/
def onMessage (item : Item) : Proxy :=
  if p.browserSocket.isOpen = false then p
  else
    match item, p.resyncState with
    | .skipped, _ => p.discard
    | .binary bytes, .live =>
      if backpressureMaxBufferedBytes < p.browserSocket.bufferedAmount then
        p.startResyncDrainWatch.discard
      else p.forward (.binary bytes)
    | .binary _, .dirty => p.discard
    | .binary _, .awaiting => p.discard
    | .resync mark, .awaiting =>
      ({ p.clearResyncTimer with resyncState := .live }).forward (.resync mark)
    | .resync mark, _ => p.forward (.resync mark)
    | .control message, _ => p.forward (.control message)

/-- A tick of the drain watch. -/
def drainTick : Proxy :=
  if p.browserSocket.isOpen = false then p.clearResyncTimer
  else if resyncDrainBytes < p.browserSocket.bufferedAmount then p
  else p.clearResyncTimer.requestUpstreamResync

/-- The browser's socket closes: the timer goes, and the upstream with it. -/
def onBrowserClose : Proxy :=
  { p.clearResyncTimer with browserSocket := p.browserSocket.close, upstream := .closed }

/-- The upstream closes or fails: so does the browser's socket. -/
def onUpstreamClose : Proxy :=
  { p.clearResyncTimer with browserSocket := p.browserSocket.close, upstream := .closed }

end Proxy

/-- `proxyToRemoteAttach`, before the upstream is open. -/
def proxyToRemoteAttach (bufferedAmount : Nat) (room : Option Nat) : Proxy where
  resyncState := .live
  resyncTimer := none
  browserSocket := ⟨true, bufferedAmount, room, []⟩
  upstream := .connecting
  taken := 0
  requested := 0

/-- An agent's attachment and the proxy that reads it. -/
structure Remote where
  agent : Attachment
  proxy : Proxy
  deriving DecidableEq, Repr

/-- The events of a remote attachment. -/
inductive RemoteEvent
  | agent (e : AttachEvent)
  | upstreamOpen
  | upstreamMessage
  | upstreamClose
  | buffered (amount : Nat)
  | drainTick
  | ackTimeout
  | browserClose
  deriving DecidableEq, Repr

/-- One event. A request for a resync reaches the agent as a message of its socket, at any
time and from whomever: the proxy forwards what the browser sends, too. -/
def Remote.next (r : Remote) : RemoteEvent → Option Remote
  | .agent e => (r.agent.next e).map fun a => { r with agent := a }
  | .upstreamOpen =>
    if r.proxy.upstream = .connecting then
      some { r with proxy := { r.proxy with upstream := .opened } }
    else none
  | .upstreamMessage =>
    if r.proxy.upstream = .opened then
      (r.agent.socket.items[r.proxy.taken]?).map fun item =>
        { r with proxy := { r.proxy.onMessage item with taken := r.proxy.taken + 1 } }
    else none
  | .upstreamClose => some { r with proxy := r.proxy.onUpstreamClose }
  | .buffered amount =>
    some { r with proxy := { r.proxy with
      browserSocket := { r.proxy.browserSocket with bufferedAmount := amount } } }
  | .drainTick =>
    if r.proxy.resyncTimer = some .drain then some { r with proxy := r.proxy.drainTick } else none
  | .ackTimeout =>
    if r.proxy.resyncTimer = some .ack then some { r with proxy := r.proxy.closeForReconnect }
    else none
  | .browserClose => some { r with proxy := r.proxy.onBrowserClose }

end Terminal
end Mullion
