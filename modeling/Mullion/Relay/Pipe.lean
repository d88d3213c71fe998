import Mullion.Mux.Station
import Mullion.Relay.Filter

/-!
# Piping one channel into another

`pipeChannelDirection` (`ssh-agent-mux.ts`) and `pipeFilteredRequestDirection`
(`ssh-agent-relay.ts`): what arrives on `source` waits for the window of `dest`, and is
acknowledged to `source` once it has been sent.

* `Stage` — what becomes of a chunk before it waits: nothing, or the sign-only filter;
* `flush`, `flush_spec` — send what fits, and what that leaves;
* `Direction.onData`, `Direction.onEof`, `Direction.onDrain` — the listeners;
* `Direction.step` — one event of one direction.
-/

namespace Mullion
namespace Relay

open Mux Station

/-- What becomes of a chunk; `none` when it throws. -/
structure Stage (σ : Type*) where
  feed : σ → List UInt8 → Option (σ × FilterResult)

/-- `pipeChannelDirection`. -/
def raw : Stage Unit where
  feed _ chunk := some ((), { forward := [chunk] })

/-- `pipeFilteredRequestDirection`. -/
def signOnly : Stage (List UInt8) where
  feed := feed

/-! ## The listeners -/

/-- `flush`: send what fits, in order. -/
def flush (source dest : Station) : List (List UInt8) → Station × Station × List (List UInt8)
  | [] => (source, dest, [])
  | next :: pending =>
    match dest.act (.send next) with
    | none => (source, dest, next :: pending)
    | some dest => flush (acknowledge source next.length) dest pending

/-- `flush` sends a first part of what waits, and stops at what does not fit. -/
theorem flush_spec (source dest : Station) (pending : List (List UInt8)) :
    ∃ done, pending = done ++ (flush source dest pending).2.2 ∧
      (flush source dest pending).2.1.out = dest.out ++ done.map .data ∧
      (∀ next rest, (flush source dest pending).2.2 = next :: rest →
        (flush source dest pending).2.1.act (.send next) = none) := by
  induction pending generalizing source dest with
  | nil => exact ⟨[], rfl, (List.append_nil _).symm, nofun⟩
  | cons next pending ih =>
    unfold flush
    cases hsend : dest.act (.send next) with
    | none =>
      refine ⟨[], rfl, (List.append_nil _).symm, fun n rest heq => ?_⟩
      cases heq
      exact hsend
    | some dest' =>
      obtain ⟨done, hpending, hout, hstop⟩ := ih (acknowledge source next.length) dest'
      obtain ⟨ch, -, -, rfl⟩ := act_send hsend
      refine ⟨next :: done, ?_, ?_, hstop⟩
      · rw [List.cons_append, ← hpending]
      · rw [hout, wrote_out, List.map_cons, List.append_assoc]
        rfl

/-- `sendReject`: the reply is dropped when it does not fit. -/
def sendReject (source : Station) (replyFrame : List UInt8) (originalLength : Nat) : Station :=
  acknowledge ((source.act (.send replyFrame)).getD source) originalLength

/-- The loop over the rejected frames. -/
def sendRejects (source : Station) : List (List UInt8) → List Nat → Station
  | frame :: frames, length :: lengths =>
    sendRejects (sendReject source frame length) frames lengths
  | _, _ => source

/-- One direction of a relay. -/
structure Direction (σ : Type*) where
  source : Station
  dest : Station
  stage : σ
  pending : List (List UInt8) := []
  /-- All bytes that were to be forwarded. -/
  forwarded : List UInt8 := []
  /-- `Eof` has arrived. -/
  ended : Bool := false

namespace Direction

variable {σ : Type*} (stage : Stage σ) (d : Direction σ)

/-- `flush` of this direction. -/
def flushed (d : Direction σ) : Direction σ :=
  let (source, dest, pending) := flush d.source d.dest d.pending
  { d with source, dest, pending }

/-- The listener of `source.onData`. -/
def onData (chunk : List UInt8) : Direction σ :=
  if closed d.dest || closed d.source then d
  else
    match stage.feed d.stage chunk with
    | none => { d with source := d.source.close, dest := d.dest.close }
    | some (s, result) =>
      flushed { d with
        stage := s
        source := sendRejects d.source result.reject result.rejectedLengths
        pending := d.pending ++ result.forward
        forwarded := d.forwarded ++ result.forward.flatten }

/-- The listener of `source.onEof`. -/
def onEof : Direction σ := { d with dest := sendEof d.dest, ended := true }

/-- The listener of `dest.onDrain`, when a `WindowAdjust` has arrived on `dest`. -/
def onDrain (id byteCount : Nat) : Direction σ :=
  flushed { d with dest := d.dest.handle id (.windowAdjust byteCount) }

/-- What can happen to one direction. -/
inductive Event
  | data (chunk : List UInt8)
  | eof
  | windowAdjust (byteCount : Nat)
  deriving DecidableEq, Repr

/-- One step; the `Eof` of the source is the last it sends. -/
def step (id : Nat) : Event → Option (Direction σ)
  | .data chunk => if d.ended then none else some (d.onData stage chunk)
  | .eof => if d.ended then none else some d.onEof
  | .windowAdjust n => some (d.onDrain id n)

/-- Two channels that are open, and piped. -/
def piped (sourceId destId : Nat) (s : σ) : Direction σ :=
  { source := { phase := .live (Channel.new sourceId).onData }
    dest := { phase := .live (Channel.new destId).onData }
    stage := s }

end Direction

end Relay
end Mullion
