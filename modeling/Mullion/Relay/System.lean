import Mullion.Relay.Pipe

/-!
# A client, the relay and the agent

`pipeFilteredChannelToChannel` (`ssh-agent-relay.ts`) between the channel of an SSH client
and the channel toward the agent, with the far ends of both.

* `Bridge` — the relay: a filtered direction and a raw one between the same two channels;
* `Bridge.fromClient`, `Bridge.fromAgent` — a frame arrives and the listeners run;
* `Peers` — the requests of the client, and when the agent may answer;
* `System.step` — one step of the client, the agent or a link.
-/

namespace Mullion
namespace Relay

open Mux Station Framing

/-! ## The relay -/

/-- `pipeFilteredChannelToChannel`. -/
structure Bridge where
  /-- `requestSource`. -/
  client : Station
  /-- `replyDest`. -/
  agent : Station
  /-- What `SignOnlyFilter` keeps. -/
  filter : List UInt8 := []
  /-- `pending` of the requests. -/
  requests : List (List UInt8) := []
  /-- `pending` of the replies. -/
  replies : List (List UInt8) := []

namespace Bridge

variable (r : Bridge)

/-- `pipeFilteredRequestDirection(requestSource, replyDest)`. -/
def request : Direction (List UInt8) :=
  { source := r.client, dest := r.agent, stage := r.filter, pending := r.requests }

def withRequest (d : Direction (List UInt8)) : Bridge :=
  { r with client := d.source, agent := d.dest, filter := d.stage, requests := d.pending }

/-- `pipeChannelDirection(replyDest, requestSource)`. -/
def reply : Direction Unit :=
  { source := r.agent, dest := r.client, stage := (), pending := r.replies }

def withReply (d : Direction Unit) : Bridge :=
  { r with agent := d.source, client := d.dest, replies := d.pending }

/-- The arrival of a frame on `requestSource`. -/
def fromClient (id : Nat) (p : Packet) : Bridge :=
  if r.client.closed then r
  else
    let r := { r with client := r.client.handle id p }
    match p with
    | .data chunk => r.withRequest (r.request.onData signOnly chunk)
    | .windowAdjust _ => r.withReply r.reply.flushed
    | .eof => r.withRequest r.request.onEof
    | .close => { r with agent := r.agent.close }
    | .openAck => r

/-- The arrival of a frame on `replyDest`. -/
def fromAgent (id : Nat) (p : Packet) : Bridge :=
  if r.agent.closed then r
  else
    let r := { r with agent := r.agent.handle id p }
    match p with
    | .data chunk => r.withReply (r.reply.onData raw chunk)
    | .windowAdjust _ => r.withRequest r.request.flushed
    | .eof => r.withReply r.reply.onEof
    | .close => { r with client := r.client.close }
    | .openAck => r

end Bridge

/-! ## The far ends -/

/-- The bytes of frames. -/
def encode (fs : List Tagged) : List UInt8 := fs.flatMap Tagged.encode

/-- A frame of the agent protocol that `SignOnlyFilter` takes. -/
structure Request where
  frame : Tagged
  untagged : frame.tag = []
  fits : frame.payload.length ≤ maxFrameBytes

/-- A request of some type and `n` further bytes. -/
def ask (type : UInt8) (n : Nat) (h : n < maxFrameBytes) : Request where
  frame := ⟨[], type :: List.replicate n 0⟩
  untagged := rfl
  fits := by
    rw [List.length_cons, List.length_replicate]
    exact h

theorem ask_length (type : UInt8) (n : Nat) (h : n < maxFrameBytes) :
    (ask type n h).frame.encode.length = n + 5 := by
  simp only [ask, Tagged.encode, List.nil_append, List.length_append, length_be32, List.length_cons,
    List.length_replicate]
  omega

/-- The requests of a client. -/
def frames (script : List Request) : List Tagged := script.map Request.frame

/-- What the far ends do. -/
structure Peers where
  /-- What the client asks. -/
  script : List Request
  /-- Whether the agent may have sent these bytes, when it has received those. -/
  mayAnswer : List UInt8 → List UInt8 → Bool

/-- The SSH client, the relay and the agent. -/
structure System where
  client : Station
  bridge : Bridge
  agent : Station

namespace System

/-- What can happen. -/
inductive Event
  | clientSend (chunk : List UInt8)
  | clientAcknowledge (byteCount : Nat)
  | agentSend (chunk : List UInt8)
  | agentAcknowledge (byteCount : Nat)
  /-- The oldest frame of the client arrives at the relay. -/
  | fromClient
  | fromAgent
  | toClient
  | toAgent
  deriving DecidableEq, Repr

/-- A far end acknowledges bytes that it was handed, and none twice. -/
def acknowledged (st : Station) (byteCount : Nat) : Option Station :=
  if st.acked + byteCount ≤ st.handed.length then st.act (.acknowledgeConsumed byteCount) else none

/-- One step. The channels have the ids `ids.1` and `ids.2`. -/
def step (peers : Peers) (ids : Nat × Nat) (s : System) : Event → Option System
  | .clientSend chunk =>
    if s.client.sent ++ chunk <+: encode (frames peers.script) then
      (s.client.act (.send chunk)).map fun client => { s with client }
    else none
  | .clientAcknowledge n => (acknowledged s.client n).map fun client => { s with client }
  | .agentSend chunk =>
    if peers.mayAnswer s.agent.handed (s.agent.sent ++ chunk) then
      (s.agent.act (.send chunk)).map fun agent => { s with agent }
    else none
  | .agentAcknowledge n => (acknowledged s.agent n).map fun agent => { s with agent }
  | .fromClient =>
    match s.client.out with
    | [] => none
    | p :: out => some
      { s with client := { s.client with out }, bridge := s.bridge.fromClient ids.1 p }
  | .fromAgent =>
    match s.agent.out with
    | [] => none
    | p :: out => some
      { s with agent := { s.agent with out }, bridge := s.bridge.fromAgent ids.2 p }
  | .toClient =>
    match s.bridge.client.out with
    | [] => none
    | p :: out => some
      { s with
        client := s.client.handle ids.1 p
        bridge := { s.bridge with client := { s.bridge.client with out } } }
  | .toAgent =>
    match s.bridge.agent.out with
    | [] => none
    | p :: out => some
      { s with
        agent := s.agent.handle ids.2 p
        bridge := { s.bridge with agent := { s.bridge.agent with out } } }

/-- An end that is open and listens. -/
def open_ (id : Nat) : Station := { phase := .live (Channel.new id).onData }

/-- Both channels are open, and piped. -/
def piped (ids : Nat × Nat) : System where
  client := open_ ids.1
  bridge := { client := open_ ids.1, agent := open_ ids.2 }
  agent := open_ ids.2

/-- The channel of the client. -/
def clientLane (s : System) : Lane
  | .a => s.client
  | .b => s.bridge.client

/-- The channel toward the agent. -/
def agentLane (s : System) : Lane
  | .a => s.bridge.agent
  | .b => s.agent

end System

end Relay
end Mullion
