import Mullion.Lib.Run
import Mullion.Mux.Pair

/-!
# One channel between its two ends

The life of one channel, from the moment the acceptor took it: `ChannelImpl`
(`ssh-agent-mux.ts`) at each end, and the frames of the channel on the two links.

* `Channel.send`, `Channel.acknowledgeConsumed`, … — the methods of `ChannelImpl`, and how
  the entry points of the connection come down to them;
* `Packet`, `Station`, `Lane` — the frames of the channel, one end, both ends;
* `Station.act`, `Station.handle` — a call at one end, the arrival of a frame;
* `payloads`, `grants` — the bytes and the credit in flight;
* `Lane.step` — one step of the two ends.
-/

namespace Mullion
namespace Mux

/-! ## The methods of a channel -/

namespace Channel

variable (ch : Channel)

/-- `send`; `none` where the source throws. -/
def send (chunk : List UInt8) : Option Channel :=
  if ch.sendWindowBytes < chunk.length then none
  else some { ch with sendWindowBytes := ch.sendWindowBytes - chunk.length }

/-- `acknowledgeConsumed`, and the count of the `WindowAdjust` it sends. -/
def acknowledgeConsumed (byteCount : Nat) : Channel × Option Nat :=
  let unacknowledged := ch.unacknowledgedBytes + byteCount
  if windowAdjustThresholdBytes ≤ unacknowledged then
    ({ ch with unacknowledgedBytes := 0 }, some unacknowledged)
  else ({ ch with unacknowledgedBytes := unacknowledged }, none)

/-- What is acknowledged is kept, or returned with all that was kept. -/
theorem acknowledgeConsumed_cases (n : Nat) :
    ch.acknowledgeConsumed n =
      ({ ch with unacknowledgedBytes := 0 }, some (ch.unacknowledgedBytes + n)) ∧
      windowAdjustThresholdBytes ≤ ch.unacknowledgedBytes + n ∨
    ch.acknowledgeConsumed n =
      ({ ch with unacknowledgedBytes := ch.unacknowledgedBytes + n }, none) ∧
      ch.unacknowledgedBytes + n < windowAdjustThresholdBytes := by
  by_cases h : windowAdjustThresholdBytes ≤ ch.unacknowledgedBytes + n
  · exact .inl ⟨if_pos h, h⟩
  · exact .inr ⟨if_neg h, Nat.not_le.1 h⟩

/-- `onData`. -/
def onData : Channel := { ch with dataAttached := true, pendingData := [] }

/-- `onEof`. -/
def onEof : Channel := { ch with eofAttached := true, pendingEof := false }

/-- The chunk does not fit into what is held for a listener. -/
def overruns (chunk : List UInt8) : Bool :=
  channelWindowBytes < ch.pendingDataBytes + chunk.length

/-- `handleData` while nobody listens. -/
def hold (chunk : List UInt8) : Channel := { ch with pendingData := ch.pendingData ++ [chunk] }

/-- `handleEof`. -/
def handleEof : Channel := if ch.eofAttached then ch else { ch with pendingEof := true }

/-- `handleWindowAdjust`. -/
def handleWindowAdjust (byteCount : Nat) : Channel :=
  { ch with sendWindowBytes := min (ch.sendWindowBytes + byteCount) channelWindowBytes }

end Channel

/-! ## The two ends -/

/-- A frame of the channel. -/
inductive Packet
  | openAck
  | data (payload : List UInt8)
  | windowAdjust (byteCount : Nat)
  | eof
  | close
  deriving DecidableEq, Repr

/-- What an end knows of the channel. -/
inductive Phase
  /-- It waits for the `OpenAck`. -/
  | pending
  | live (ch : Channel)
  | gone
  deriving DecidableEq, Repr

/-- One end of the channel, with the frames it has sent that have not arrived. -/
structure Station where
  phase : Phase
  out : List Packet := []
  /-- All bytes passed to `send`. -/
  sent : List UInt8 := []
  /-- All bytes passed to the listeners of `onData`. -/
  handed : List UInt8 := []
  /-- All that was passed to `acknowledgeConsumed`. -/
  acked : Nat := 0
  deriving DecidableEq, Repr

/-- A call at one end. -/
inductive Act
  | send (chunk : List UInt8)
  | acknowledgeConsumed (byteCount : Nat)
  | onData
  | onEof
  | eof
  | close
  /-- The timer of the pending open. -/
  | openAckTimeout
  deriving DecidableEq, Repr

namespace Station

/-- `close`. -/
def close (st : Station) : Station :=
  match st.phase with
  | .live _ => { st with phase := .gone, out := st.out ++ [.close] }
  | _ => st

/-- A call; `none` where there is nothing to call or the source throws. -/
def act (st : Station) (a : Act) : Option Station :=
  match st.phase with
  | .pending => if a = .openAckTimeout then some { st with phase := .gone } else none
  | .live ch =>
    match a with
    | .send chunk => (ch.send chunk).map fun ch =>
      { st with
        phase := .live ch
        out := st.out ++ [.data chunk]
        sent := st.sent ++ chunk }
    | .acknowledgeConsumed n => some
      { st with
        phase := .live (ch.acknowledgeConsumed n).1
        out := st.out ++ ((ch.acknowledgeConsumed n).2.map Packet.windowAdjust).toList
        acked := st.acked + n }
    | .onData => some
      { st with phase := .live ch.onData, handed := st.handed ++ ch.pendingData.flatten }
    | .onEof => some { st with phase := .live ch.onEof }
    | .eof => some { st with out := st.out ++ [.eof] }
    | .close => some st.close
    | .openAckTimeout => none
  | .gone =>
    match a with
    | .send _ | .openAckTimeout => none
    | _ => some st

/-- The arrival of a frame. `id` is the id of the channel. -/
def handle (id : Nat) (st : Station) (p : Packet) : Station :=
  match st.phase with
  | .pending => if p = .openAck then { st with phase := .live (Channel.new id) } else st
  | .live ch =>
    match p with
    | .data payload =>
      if ch.dataAttached then { st with handed := st.handed ++ payload }
      else if ch.overruns payload then st.close
      else { st with phase := .live (ch.hold payload) }
    | .windowAdjust n => { st with phase := .live (ch.handleWindowAdjust n) }
    | .eof => { st with phase := .live ch.handleEof }
    | .close => { st with phase := .gone }
    | .openAck => st
  | .gone => st

end Station

/-- The channel: its opener `a` and its acceptor `b`. -/
abbrev Lane := End → Station

namespace Lane

/-! ## What is in flight -/

/-- The bytes of a frame. -/
def payload : Packet → List UInt8
  | .data p => p
  | _ => []

/-- The credit of a frame. -/
def grant : Packet → Nat
  | .windowAdjust n => n
  | _ => 0

/-- The bytes in flight. -/
def payloads (out : List Packet) : List UInt8 := out.flatMap payload

/-- The credit in flight. -/
def grants (out : List Packet) : Nat := (out.map grant).sum

@[simp] theorem payloads_nil : payloads [] = [] := rfl

@[simp] theorem payloads_cons (p : Packet) (out : List Packet) :
    payloads (p :: out) = payload p ++ payloads out := List.flatMap_cons

@[simp] theorem payloads_append (out out' : List Packet) :
    payloads (out ++ out') = payloads out ++ payloads out' := List.flatMap_append

theorem payloads_data (chunks : List (List UInt8)) :
    payloads (chunks.map .data) = chunks.flatten := by
  induction chunks with
  | nil => rfl
  | cons chunk chunks ih =>
    rw [List.map_cons, payloads_cons, ih, List.flatten_cons]
    rfl

@[simp] theorem grants_nil : grants [] = 0 := rfl

@[simp] theorem grants_cons (p : Packet) (out : List Packet) :
    grants (p :: out) = grant p + grants out := by
  rw [grants, List.map_cons, List.sum_cons, grants]

@[simp] theorem grants_append (out out' : List Packet) :
    grants (out ++ out') = grants out + grants out' := by
  rw [grants, List.map_append, List.sum_append, grants, grants]

/-! ## The steps -/

/-- The acceptor has taken the channel and said so. -/
def accepted (id : Nat) : Lane
  | .a => { phase := .pending }
  | .b => { phase := .live (Channel.new id), out := [.openAck] }

/-- What can happen at one end. -/
inductive Event
  | act (a : Act)
  /-- The oldest frame from the other end arrives. -/
  | deliver
  deriving DecidableEq, Repr

/-- One step. -/
def step (id : Nat) (s : Lane) : End × Event → Option Lane
  | (e, .act a) => ((s e).act a).map fun st x => if x = e then st else s x
  | (e, .deliver) =>
    match (s e.peer).out with
    | [] => none
    | p :: rest =>
      some fun x => if x = e then (s e).handle id p else { s e.peer with out := rest }

/-- The oldest packet of the peer arrives. -/
theorem step_deliver (id : Nat) {s : Lane} {e : End} {p : Packet} {rest : List Packet}
    (h : (s e.peer).out = p :: rest) :
    step id s (e, .deliver) =
      some fun x => if x = e then (s e).handle id p else { s e.peer with out := rest } := by
  rw [step, h]

end Lane

end Mux
end Mullion
