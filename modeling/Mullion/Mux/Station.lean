import Mullion.Mux.Lane

/-!
# The calls that a consumer makes

What the consumers of a channel (`ssh-agent-mux.ts`) read of it and ask of it.

* `closed`, `sendWindow` — what a consumer reads;
* `acknowledge`, `sendEof` — calls that do nothing once the channel is closed;
* `wrote`, `act_send` and its companions — when `send` succeeds, and what it does.
-/

namespace Mullion
namespace Mux
namespace Station

/-- `closed`. -/
def closed (st : Station) : Bool :=
  match st.phase with
  | .live _ => false
  | _ => true

/-- `sendWindow`. -/
def sendWindow (st : Station) : Nat :=
  match st.phase with
  | .live ch => ch.sendWindowBytes
  | _ => 0

/-- `acknowledgeConsumed`. -/
def acknowledge (st : Station) (byteCount : Nat) : Station :=
  (st.act (.acknowledgeConsumed byteCount)).getD st

/-- `eof`, when the channel is not closed. -/
def sendEof (st : Station) : Station := (st.act .eof).getD st

variable {st st' : Station}

theorem sendWindow_live {ch : Channel} (hp : st.phase = .live ch) :
    sendWindow st = ch.sendWindowBytes := by
  unfold sendWindow
  rw [hp]

/-! ## Closed or not -/

theorem closed_live (ch : Channel) (out : List Packet) (sent handed : List UInt8) (acked : Nat) :
    closed ⟨.live ch, out, sent, handed, acked⟩ = false := rfl

theorem not_closed (h : ¬ closed st = true) : ∃ ch, st.phase = .live ch := by
  unfold closed at h
  split at h
  case h_1 ch hp => exact ⟨ch, hp⟩
  case h_2 => exact absurd rfl h

theorem closed_of_live {ch : Channel} (hp : st.phase = .live ch) : closed st = false := by
  unfold closed
  rw [hp]

theorem close_live {ch : Channel} (hp : st.phase = .live ch) :
    st.close = { st with phase := .gone, out := st.out ++ [.close] } := by
  unfold Station.close
  rw [hp]

theorem acknowledge_live {ch : Channel} (hp : st.phase = .live ch) (n : Nat) :
    acknowledge st n =
      { st with
        phase := .live (ch.acknowledgeConsumed n).1
        out := st.out ++ ((ch.acknowledgeConsumed n).2.map Packet.windowAdjust).toList
        acked := st.acked + n } := by
  unfold acknowledge Station.act
  rw [hp]
  rfl

theorem acknowledge_closed (h : closed st = true) (n : Nat) : acknowledge st n = st := by
  unfold acknowledge Station.act
  cases hp : st.phase with
  | pending => rfl
  | live ch =>
    rw [closed_of_live hp] at h
    cases h
  | gone => rfl

@[simp] theorem acknowledge_handed (st : Station) (n : Nat) :
    (acknowledge st n).handed = st.handed := by
  cases hc : closed st with
  | true => rw [acknowledge_closed hc]
  | false =>
    obtain ⟨ch, hp⟩ := not_closed (Bool.eq_false_iff.1 hc)
    rw [acknowledge_live hp]

@[simp] theorem closed_acknowledge (st : Station) (n : Nat) :
    closed (acknowledge st n) = closed st := by
  cases hc : closed st with
  | true => rw [acknowledge_closed hc, hc]
  | false =>
    obtain ⟨ch, hp⟩ := not_closed (Bool.eq_false_iff.1 hc)
    rw [acknowledge_live hp]
    rfl

/-- A window adjustment sends nothing and closes nothing. -/
theorem handle_adjust_out (st : Station) (id n : Nat) :
    (st.handle id (.windowAdjust n)).out = st.out ∧
      closed (st.handle id (.windowAdjust n)) = closed st := by
  unfold Station.handle closed
  cases hp : st.phase with
  | pending =>
    rw [if_neg nofun]
    exact ⟨rfl, by rw [hp]⟩
  | live ch => exact ⟨rfl, rfl⟩
  | gone => exact ⟨rfl, by rw [hp]⟩

/-! ## The arrival of a frame at an open channel -/

section Handle

variable {ch : Channel} (hp : st.phase = .live ch) (id : Nat)
include hp

theorem handle_data (hdata : ch.dataAttached = true) (payload : List UInt8) :
    st.handle id (.data payload) = { st with handed := st.handed ++ payload } := by
  unfold Station.handle
  rw [hp]
  exact if_pos hdata

theorem handle_windowAdjust (n : Nat) :
    st.handle id (.windowAdjust n) = { st with phase := .live (ch.handleWindowAdjust n) } := by
  unfold Station.handle
  rw [hp]

theorem handle_eof : st.handle id .eof = { st with phase := .live ch.handleEof } := by
  unfold Station.handle
  rw [hp]

theorem handle_close : st.handle id .close = { st with phase := .gone } := by
  unfold Station.handle
  rw [hp]

theorem handle_openAck : st.handle id .openAck = st := by
  unfold Station.handle
  rw [hp]

end Handle

/-! ## Sending -/

/-- An end after it has sent `chunk` on its channel. -/
def wrote (st : Station) (ch : Channel) (chunk : List UInt8) : Station :=
  { st with
    phase := .live { ch with sendWindowBytes := ch.sendWindowBytes - chunk.length }
    out := st.out ++ [.data chunk]
    sent := st.sent ++ chunk }

@[simp] theorem wrote_phase (ch : Channel) (chunk : List UInt8) : (st.wrote ch chunk).phase =
    .live { ch with sendWindowBytes := ch.sendWindowBytes - chunk.length } := rfl

@[simp] theorem wrote_out (ch : Channel) (chunk : List UInt8) :
    (st.wrote ch chunk).out = st.out ++ [.data chunk] := rfl

@[simp] theorem wrote_sent (ch : Channel) (chunk : List UInt8) :
    (st.wrote ch chunk).sent = st.sent ++ chunk := rfl

@[simp] theorem wrote_handed (ch : Channel) (chunk : List UInt8) :
    (st.wrote ch chunk).handed = st.handed := rfl

/-- What `send` does. -/
theorem act_send {chunk : List UInt8} (h : st.act (.send chunk) = some st') :
    ∃ ch, st.phase = .live ch ∧ chunk.length ≤ ch.sendWindowBytes ∧ st' = st.wrote ch chunk := by
  unfold Station.act at h
  split at h
  · cases h
  case h_2 ch hp =>
    obtain ⟨ch', hsend, rfl⟩ := Option.map_eq_some_iff.1 h
    unfold Channel.send at hsend
    split at hsend
    · cases hsend
    case isFalse hfits =>
      cases hsend
      exact ⟨ch, hp, Nat.not_lt.1 hfits, rfl⟩
  · cases h

theorem act_send_live {ch : Channel} (hp : st.phase = .live ch) {chunk : List UInt8}
    (h : chunk.length ≤ ch.sendWindowBytes) :
    st.act (.send chunk) = some (st.wrote ch chunk) := by
  unfold Station.act Channel.send
  rw [hp]
  simp only [if_neg (Nat.not_lt.2 h), Option.map_some]
  rfl

/-- A live channel refuses only what does not fit. -/
theorem act_send_none {ch : Channel} (hp : st.phase = .live ch) {chunk : List UInt8}
    (h : st.act (.send chunk) = none) : ch.sendWindowBytes < chunk.length := by
  unfold Station.act at h
  rw [hp] at h
  rw [Option.map_eq_none_iff] at h
  unfold Channel.send at h
  split at h
  case isTrue hlt => exact hlt
  case isFalse => cases h

theorem act_send_closed (h : closed st = true) (chunk : List UInt8) :
    st.act (.send chunk) = none := by
  unfold closed at h
  unfold Station.act
  split at h
  · cases h
  case h_2 hno =>
    split
    · rfl
    case h_2 ch hp => exact absurd hp (hno ch)
    · rfl

theorem sendEof_live {ch : Channel} (hp : st.phase = .live ch) :
    sendEof st = { st with out := st.out ++ [.eof] } := by
  unfold sendEof Station.act
  rw [hp]
  rfl

theorem sendEof_closed (h : closed st = true) : sendEof st = st := by
  unfold closed at h
  unfold sendEof Station.act
  split at h
  · cases h
  case h_2 hno =>
    split
    · rfl
    case h_2 ch hp => exact absurd hp (hno ch)
    · rfl

end Station
end Mux
end Mullion
