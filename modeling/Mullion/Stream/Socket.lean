import Mullion.Lib.Framing
import Mullion.Mux.Station

/-!
# A socket over one channel

`ChannelSocket` (`channel-socket.ts`): a view of one mux channel that looks like a
WebSocket. Messages go out as `[flags : 1][length : 4][payload]`, behind one line of text on
the side that accepts the stream.

* `SocketData`, `Message` — what `send` takes and what a "message" event carries;
* `pump` — write what is queued while the window of the channel allows it;
* `Socket.send`, `Socket.close`, `Socket.ingest`, … — the methods;
* `Wire`, `Wire.step` — two sockets bound to the two ends of a channel, and one step.
-/

namespace Mullion
namespace Stream

open Mux Station Framing

/-! ## Messages -/

/-- `WRITE_CHUNK_BYTES`. -/
def writeChunkBytes : Nat := 32 * 1024

/-- `AGENT_CHANNEL_MAX_STREAM_MESSAGE_BYTES`. -/
def maxStreamMessageBytes : Nat := 1024 * 1024

/-- `AGENT_CHANNEL_MAX_BUFFERED_BYTES`. -/
def maxBufferedBytes : Nat := 8 * 1024 * 1024

/-- `AGENT_CHANNEL_MAX_HEAD_BYTES`. -/
def maxHeadBytes : Nat := 64 * 1024

/-- `ChannelSocketData`. -/
inductive SocketData
  | string (text : String)
  | buffer (bytes : List UInt8)
  | buffers (parts : List (List UInt8))
  deriving DecidableEq, Repr

/-- The bytes that `send` makes of its argument. -/
def SocketData.payload : SocketData → List UInt8
  | .string text => text.toUTF8.toList
  | .buffer bytes => bytes
  | .buffers parts => parts.flatten

/-- `typeof data !== "string"`. -/
def SocketData.isBinary : SocketData → Bool
  | .string _ => false
  | _ => true

/-- A message, as its bytes and its text or binary flag. -/
structure Message where
  payload : List UInt8
  isBinary : Bool
  deriving DecidableEq, Repr

/-- The message that `send` makes of its arguments. -/
def SocketData.message (data : SocketData) (binary : Option Bool) : Message :=
  ⟨data.payload, binary.getD data.isBinary⟩

namespace Message

/-- A message on the channel. -/
def frame (m : Message) : Tagged := ⟨[if m.isBinary then 1 else 0], m.payload⟩

/-- `drainMessages` reads the flag from the lowest bit. -/
def ofFrame (f : Tagged) : Message := ⟨f.payload, (f.tag.headD 0 &&& 1) == 1⟩

theorem ofFrame_frame (m : Message) : ofFrame m.frame = m := by
  obtain ⟨payload, isBinary⟩ := m
  have hflag : (((if isBinary then 1 else 0 : UInt8) &&& 1) == 1) = isBinary := by
    cases isBinary <;> decide
  exact congrArg (Message.mk payload) hflag

/-- The buffers that `send` queues. -/
def buffers (m : Message) : List (List UInt8) :=
  (m.frame.tag ++ be32 m.payload.length) :: if m.payload.length = 0 then [] else [m.payload]

theorem flatten_buffers (m : Message) : m.buffers.flatten = m.frame.encode := by
  unfold buffers
  split
  case isTrue h =>
    rw [List.length_eq_zero_iff] at h
    simp only [frame, Tagged.encode, h, List.flatten_cons, List.flatten_nil]
  case isFalse => simp only [frame, Tagged.encode, List.flatten_cons, List.flatten_nil,
      List.append_nil, List.append_assoc]

end Message

/-- The frames of a stream. -/
def messages : Format UInt8 Tagged := prefixed 1 maxStreamMessageBytes

/-! ## The accept head -/

/-- `ChannelStreamAcceptHead`, of which the socket reads these. -/
structure AcceptHead where
  status : Int
  resumed : Bool
  deriving DecidableEq, Repr

/-- The bytes of a text in ASCII. -/
def ascii (text : String) : List UInt8 := text.toList.map fun c => UInt8.ofNat c.toNat

/-- `acceptHead(200, undefined, resumed)`, without its newline. -/
def acceptText : Bool → List UInt8
  | false => ascii "\x7b\"status\":200\x7d"
  | true => ascii "\x7b\"status\":200,\"resumed\":true\x7d"

/-- `JSON.parse` of a head and the check of its status; `none` when one of them throws. -/
structure HeadReader where
  parse : List UInt8 → Option AcceptHead
  parse_accept : ∀ resumed, parse (acceptText resumed) = some ⟨200, resumed⟩

/-- A reader of the two accept heads. -/
instance : Inhabited HeadReader where
  default :=
    { parse := fun raw =>
        if raw = acceptText false then some ⟨200, false⟩
        else if raw = acceptText true then some ⟨200, true⟩
        else none
      parse_accept := by decide }

/-- The newline after a head. -/
def newline : UInt8 := 0x0a

/-- The accept head as it is sent. -/
def acceptLine (resumed : Bool) : List UInt8 := acceptText resumed ++ [newline]

/-! ## Writing -/

/-- `pump`: pieces of what is queued, in order, while the window of the channel is open. -/
def pump (channel : Station) : List (List UInt8) → Station × List (List UInt8)
  | [] => (channel, [])
  | head :: queue =>
    let n := min (min writeChunkBytes head.length) channel.sendWindow
    if _h : n = 0 then (channel, head :: queue)
    else
      match channel.act (.send (head.take n)) with
      | none => (channel, head :: queue)
      | some channel =>
        if n = head.length then pump channel queue else pump channel (head.drop n :: queue)
termination_by queue => queue.flatten.length
decreasing_by
  · simp only [List.flatten_cons, List.length_append]
    omega
  · simp only [List.flatten_cons, List.length_append, List.length_drop]
    omega

/-- `readyState`. -/
inductive ReadyState
  | connecting
  | open_
  | closing
  | closed
  deriving DecidableEq, Repr

/-- A `ChannelSocket` that is bound to its channel. `closeEmitted` is that `readyState` is
`closed`. -/
structure Socket where
  readyState : ReadyState
  headBuffer : Option (List UInt8)
  resumed : Bool := false
  queue : List (List UInt8) := []
  parseBuffer : List UInt8 := []
  channel : Station
  /-- The messages that `send` took. -/
  sent : List Message := []
  /-- The "message" events. -/
  received : List Message := []
  /-- What was queued when the socket finished. -/
  dropped : List UInt8 := []
  /-- It ended with a call of `close`. -/
  closeCalled : Bool := false
  /-- It ended because of what it read. -/
  failed : Bool := false

namespace Socket

variable (s : Socket)

/-- `bufferedAmount`. -/
def queuedBytes : Nat := s.queue.flatten.length

/-- `finish`. -/
def finish : Socket :=
  if s.readyState = .closed then s
  else { s with readyState := .closed, queue := [], dropped := s.queue.flatten }

/-- `close`, which is `terminate`. -/
def close : Socket :=
  if s.readyState = .closed then s else finish { s with channel := s.channel.close }

/-- A call of `close` by the owner. -/
def callClose : Socket :=
  if s.readyState = .closed then s else { s.close with closeCalled := true }

/-- `fail`, of a socket that is not closed, for what it read. -/
def fail : Socket := { s.close with failed := true }

/-- `pump` on the socket. -/
def pumped : Socket :=
  { s with channel := (pump s.channel s.queue).1, queue := (pump s.channel s.queue).2 }

/-- `send`. -/
def send (data : SocketData) (binary : Option Bool) : Socket :=
  if s.readyState ≠ .open_ then s
  else if maxStreamMessageBytes < (data.message binary).payload.length then s.close -- `fail`
  else
    let s := pumped { s with
      queue := s.queue ++ (data.message binary).buffers
      sent := s.sent ++ [data.message binary] }
    if maxBufferedBytes < s.queuedBytes then s.close else s

/-- `sendRaw`. -/
def sendRaw (bytes : List UInt8) : Socket := pumped { s with queue := s.queue ++ [bytes] }

/-- `drainMessages`. The owner calls `close` after `stop` more events, if it does. -/
def drainMessages (stop : Option Nat) (s : Socket) : Socket :=
  if stop = some 0 then s.callClose
  else if s.readyState ≠ .open_ then s
  else
    match _h : messages.front s.parseBuffer with
    | .more => s
    | .bad => s.fail
    | .frame f rest => drainMessages (stop.map (· - 1))
      { s with parseBuffer := rest, received := s.received ++ [Message.ofFrame f] }
termination_by s.parseBuffer.length
decreasing_by exact messages.shorter _h

/-- What follows the head in `ingest`. -/
def feed (stop : Option Nat) (rest : List UInt8) : Socket :=
  if rest.length = 0 then s
  else drainMessages stop { s with parseBuffer := s.parseBuffer ++ rest }

/-- `handleAccept`, and whether it goes on. -/
def handleAccept (json : HeadReader) (raw : List UInt8) : Socket × Bool :=
  match json.parse raw with
  | none => (s.fail, false)
  | some head =>
    if head.status ≠ 200 then
      let s := finish { s with readyState := .closing }
      ({ s with channel := s.channel.close, failed := true }, false)
    else ({ s with resumed := head.resumed, readyState := .open_ }, true)

/-- `ingest`. -/
def ingest (json : HeadReader) (stop : Option Nat) (chunk : List UInt8) : Socket :=
  let s := { s with channel := s.channel.acknowledge chunk.length }
  if s.readyState = .closed then s
  else
    match s.headBuffer with
    | none => s.feed stop chunk
    | some kept =>
      match chunk.idxOf? newline with
      | none =>
        let s := { s with headBuffer := some (kept ++ chunk) }
        if maxHeadBytes < (kept ++ chunk).length then s.fail else s
      | some nl =>
        let raw := kept ++ chunk.take nl
        if maxHeadBytes < raw.length then { s with headBuffer := some raw }.fail
        else
          let (s, accepted) := { s with headBuffer := none }.handleAccept json raw
          if accepted then s.feed stop (chunk.drop (nl + 1)) else s

/-- The arrival of a frame, and the listeners of the channel. -/
def arrive (json : HeadReader) (id : Nat) (stop : Option Nat) (p : Packet) : Socket :=
  if s.channel.closed then s
  else
    let s := { s with channel := s.channel.handle id p }
    match p with
    | .data payload => s.ingest json stop payload
    | .windowAdjust _ => s.pumped
    | .eof => s.close
    | .close => s.finish
    | .openAck => s

/-- The connection under the channel is lost. -/
def lost : Socket := finish { s with channel := { s.channel with phase := .gone } }

end Socket

/-! ## The line in front -/

/-- Without a newline it is a part of the line. -/
theorem line_part {kept t text u : List UInt8} (hkept : newline ∉ kept)
    (heq : text ++ newline :: u = kept ++ t) : kept <+: text := by
  rcases List.append_eq_append_iff.1 heq with ⟨mid, hmid, hrest⟩ | ⟨mid, hmid, -⟩
  · cases mid with
    | nil => rw [hmid, List.append_nil]
    | cons b mid =>
      obtain ⟨rfl, -⟩ := List.cons.inj hrest
      exact absurd (by rw [hmid]; exact List.mem_append_right _ List.mem_cons_self) hkept
  · exact ⟨mid, hmid.symm⟩

/-- A chunk with a newline, cut there. -/
theorem cut_line {chunk : List UInt8} {nl : Nat} (hnl : chunk.idxOf? newline = some nl) :
    chunk = chunk.take nl ++ newline :: chunk.drop (nl + 1) ∧ newline ∉ chunk.take nl := by
  obtain ⟨hlt, hat, hbefore⟩ := List.idxOf?_eq_some_iff.1 hnl
  refine ⟨?_, fun hmem => ?_⟩
  · rw [← hat, List.getElem_cons_drop, List.take_append_drop]
  · obtain ⟨j, hj, hjeq⟩ := List.getElem_of_mem hmem
    rw [List.length_take] at hj
    rw [List.getElem_take] at hjeq
    exact hbefore j (by omega) hjeq

/-- The first newline ends the line. -/
theorem line_unique {line text t u : List UInt8} (hline : newline ∉ line) (htext : newline ∉ text)
    (heq : line ++ newline :: t = text ++ newline :: u) : line = text ∧ t = u := by
  have hle := line_part htext heq
  have hhead := hle.eq_of_length (le_antisymm hle.length_le (line_part hline heq.symm).length_le)
  rw [hhead] at heq
  exact ⟨hhead.symm, (List.cons.inj (List.append_cancel_left heq)).2⟩

/-- It does, wherever the stream is cut. -/
theorem line_split {kept chunk t text u : List UInt8} {nl : Nat} (hkept : newline ∉ kept)
    (htext : newline ∉ text) (hnl : chunk.idxOf? newline = some nl)
    (heq : text ++ newline :: u = kept ++ (chunk ++ t)) :
    kept ++ chunk.take nl = text ∧ u = chunk.drop (nl + 1) ++ t := by
  obtain ⟨hchunk, hno⟩ := cut_line hnl
  rw [hchunk, List.append_assoc, ← List.append_assoc kept, List.cons_append] at heq
  have hboth : newline ∉ kept ++ chunk.take nl := by
    intro hmem
    exact (List.mem_append.1 hmem).elim hkept hno
  obtain ⟨hhead, hrest⟩ := line_unique htext hboth heq
  exact ⟨hhead.symm, hrest⟩

/-! ## Two sockets -/

/-- The sockets at the two ends: the primary at `a`, which opened the channel and expects the
accept head, and the agent at `b`. -/
abbrev Wire := End → Socket

namespace Wire

/-- The channel, when the agent has received `openHeadBytes`. -/
def channel (id openHeadBytes : Nat) : End → Station
  | .a => { phase := .live { (Channel.new id).onData.onEof with
      sendWindowBytes := channelWindowBytes - openHeadBytes } }
  | .b => { phase := .live { (Channel.new id).onData.onEof with
      unacknowledgedBytes := openHeadBytes } }

/-- Both sockets are bound: the agent has read the open head and sends the accept head. -/
def bound (id openHeadBytes : Nat) (resumed : Bool) : Wire
  | .a =>
    { readyState := .connecting
      headBuffer := some []
      channel := channel id openHeadBytes .a }
  | .b =>
    Socket.sendRaw
      { readyState := .open_
        headBuffer := none
        channel := channel id openHeadBytes .b }
      (acceptLine resumed)

/-- What can happen at one end. -/
inductive Event
  | send (data : SocketData) (binary : Option Bool)
  | close
  /-- `terminate`; also `failToOpen`. -/
  | terminate
  /-- The oldest frame from the other end arrives. -/
  | deliver (stop : Option Nat)
  /-- The oldest frame from the other end is cut in two. -/
  | cut (n : Nat)
  /-- The two oldest frames from the other end are one. -/
  | join
  /-- More credit arrives. -/
  | windowAdjust (byteCount : Nat)
  | lost
  deriving DecidableEq, Repr

/-- One socket changes. -/
def update (w : Wire) (e : End) (s : Socket) : Wire := fun x => if x = e then s else w x

/-- The frames on the way to an end change. -/
def relink (w : Wire) (e : End) (out : List Packet) : Wire :=
  w.update e.peer { w e.peer with
    channel := { (w e.peer).channel with out := out } }

/-- One step. -/
def step (json : HeadReader) (id : Nat) (w : Wire) : End × Event → Option Wire
  | (e, .send data binary) => some (w.update e ((w e).send data binary))
  | (e, .close) => some (w.update e (w e).callClose)
  | (e, .terminate) => some (w.update e (w e).close)
  | (e, .deliver stop) =>
    match (w e.peer).channel.out with
    | [] => none
    | p :: rest => some ((w.relink e rest).update e ((w e).arrive json id stop p))
  | (e, .cut n) =>
    match (w e.peer).channel.out with
    | .data p :: rest => some (w.relink e (.data (p.take n) :: .data (p.drop n) :: rest))
    | _ => none
  | (e, .join) =>
    match (w e.peer).channel.out with
    | .data p :: .data q :: rest => some (w.relink e (.data (p ++ q) :: rest))
    | _ => none
  | (e, .windowAdjust n) => some (w.update e ((w e).arrive json id none (.windowAdjust n)))
  | (e, .lost) => some (w.update e (w e).lost)

end Wire

end Stream
end Mullion
