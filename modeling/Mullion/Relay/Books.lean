import Mullion.Mux.Calls
import Mullion.Relay.System

/-!
# The books of the relay

What the listeners of the relay send, acknowledge and leave waiting.

* `Listening` — an end that is open and hands on what arrives;
* `flush_calls`, `sendRejects_calls` — what is sent and acknowledged by `flush` and by the
  rejections;
* `onData_signOnly` — what a chunk of the client becomes.
-/

namespace Mullion
namespace Relay

open Mux Station Framing

/-! ## Ends that listen -/

/-- An end that is open, hands on what arrives and returns credit in time. -/
def Listening (st : Station) : Prop :=
  ∃ ch, st.phase = .live ch ∧ ch.dataAttached = true ∧
    ch.unacknowledgedBytes < windowAdjustThresholdBytes

section Listening

variable {st st' : Station}

theorem Listening.calls (h : Listening st) (hc : Calls st st') : Listening st' := by
  obtain ⟨ch, hp, hdata, hless⟩ := h
  obtain ⟨ch', hp', hdata', -, hless'⟩ := hc.live hp
  exact ⟨ch', hp', hdata'.trans hdata, hless' hless⟩

theorem Listening.open_ (h : Listening st) : st.closed = false := by
  obtain ⟨ch, hp, -⟩ := h
  exact closed_of_live hp

theorem Listening.acked (h : Listening st) (n : Nat) :
    (st.acknowledge n).acked = st.acked + n := by
  obtain ⟨ch, hp, -⟩ := h
  rw [acknowledge_live hp]

theorem Listening.sent (h : Listening st) (n : Nat) : (st.acknowledge n).sent = st.sent := by
  obtain ⟨ch, hp, -⟩ := h
  rw [acknowledge_live hp]

theorem Listening.sendWindow (h : Listening st) (n : Nat) :
    (st.acknowledge n).sendWindow = st.sendWindow := by
  obtain ⟨ch, hp, -⟩ := h
  rw [acknowledge_live hp, sendWindow_live hp]
  rcases ch.acknowledgeConsumed_cases n with ⟨hack, -⟩ | ⟨hack, -⟩ <;> rw [hack] <;> rfl

/-- What fits is sent. -/
theorem Listening.send (h : Listening st) {chunk : List UInt8}
    (hfits : chunk.length ≤ st.sendWindow) :
    ∃ ch, st.phase = .live ch ∧ chunk.length ≤ ch.sendWindowBytes ∧
      st.act (.send chunk) = some (st.wrote ch chunk) ∧
      (st.wrote ch chunk).sendWindow = st.sendWindow - chunk.length := by
  obtain ⟨ch, hp, -⟩ := h
  rw [sendWindow_live hp] at hfits ⊢
  exact ⟨ch, hp, hfits, act_send_live hp hfits, sendWindow_live (wrote_phase _ _)⟩

/-- What does not fit is refused. -/
theorem Listening.send_none (h : Listening st) {chunk : List UInt8} :
    st.act (.send chunk) = none ↔ st.sendWindow < chunk.length := by
  constructor
  · intro hnone
    obtain ⟨ch, hp, -⟩ := h
    rw [sendWindow_live hp]
    exact act_send_none hp hnone
  · intro hlong
    obtain ⟨ch, hp, -⟩ := h
    rw [sendWindow_live hp] at hlong
    unfold Station.act Channel.send
    rw [hp]
    simp only [if_pos hlong, Option.map_none]

/-- A chunk is handed on. -/
theorem Listening.handle_data (h : Listening st) (id : Nat) (chunk : List UInt8) :
    st.handle id (.data chunk) = { st with handed := st.handed ++ chunk } := by
  obtain ⟨ch, hp, hdata, -⟩ := h
  exact Station.handle_data hp id hdata chunk

theorem Listening.handle_windowAdjust (h : Listening st) (id n : Nat) :
    ∃ phase, st.handle id (.windowAdjust n) = { st with phase } ∧
      Listening { st with phase } := by
  obtain ⟨ch, hp, hdata, hless⟩ := h
  exact ⟨_, Station.handle_windowAdjust hp id n, _, rfl, hdata, hless⟩

end Listening

/-! ## Flushing -/

/-- What `flush` sends and acknowledges. -/
structure Flushed (source dest : Station) (pending : List (List UInt8))
    (r : Station × Station × List (List UInt8)) : Prop where
  calls_source : Calls source r.1
  calls_dest : Calls dest r.2.1
  acked : r.1.acked + r.2.2.flatten.length = source.acked + pending.flatten.length
  same : r.1.sent = source.sent ∧ r.1.sendWindow = source.sendWindow ∧ r.2.1.acked = dest.acked
  /-- The first of what waits is sent. -/
  sent : ∃ done, pending = done ++ r.2.2 ∧ r.2.1.sent = dest.sent ++ done.flatten
  stopped : ∀ next rest, r.2.2 = next :: rest → r.2.1.sendWindow < next.length

theorem flush_calls {source dest : Station} (pending : List (List UInt8)) (hs : Listening source)
    (hd : Listening dest)
    (hack : source.acked + pending.flatten.length ≤ source.handed.length) :
    Flushed source dest pending (flush source dest pending) := by
  induction pending generalizing source dest with
  | nil => exact ⟨.refl, .refl, rfl, ⟨rfl, rfl, rfl⟩, ⟨[], rfl, (List.append_nil _).symm⟩, nofun⟩
  | cons next pending ih =>
    rw [List.flatten_cons, List.length_append] at hack
    unfold flush
    by_cases hfits : next.length ≤ dest.sendWindow
    · obtain ⟨ch, hp, hroom, hsend, -⟩ := hd.send hfits
      simp only [hsend]
      have hcalls : Calls source (source.acknowledge next.length) := .acknowledge _ .refl (by omega)
      have hcalls' : Calls dest (dest.wrote ch next) := .send next .refl hp hroom
      have hacked := hs.acked next.length
      obtain ⟨h₁, h₂, h₃, ⟨h₄, h₅, h₆⟩, ⟨done, h₇, h₈⟩, h₉⟩ := ih (hs.calls hcalls)
        (hd.calls hcalls') (by rw [hacked, hcalls.handed]; omega)
      refine ⟨hcalls.trans h₁, hcalls'.trans h₂, ?_,
        ⟨h₄.trans (hs.sent _), h₅.trans (hs.sendWindow _), h₆⟩, ⟨next :: done, ?_, ?_⟩, h₉⟩
      · rw [h₃, hacked, List.flatten_cons, List.length_append]
        omega
      · rw [List.cons_append, ← h₇]
      · rw [h₈, wrote_sent, List.flatten_cons, List.append_assoc]
    · have hsend : dest.act (.send next) = none := hd.send_none.2 (Nat.not_le.1 hfits)
      simp only [hsend]
      refine ⟨.refl, .refl, rfl, ⟨rfl, rfl, rfl⟩, ⟨[], rfl, (List.append_nil _).symm⟩, ?_⟩
      intro n rest heq
      obtain ⟨rfl, -⟩ := List.cons.inj heq
      exact Nat.not_le.1 hfits

/-! ## Rejections -/

/-- What the loop over the rejected frames sends and acknowledges. -/
theorem sendRejects_calls {source : Station} (replies : List (List UInt8)) (lengths : List Nat)
    (hlen : replies.length = lengths.length) (hs : Listening source)
    (hack : source.acked + lengths.sum ≤ source.handed.length) :
    Calls source (sendRejects source replies lengths) ∧
      (sendRejects source replies lengths).acked = source.acked + lengths.sum ∧
      (replies.flatten.length ≤ source.sendWindow →
        (sendRejects source replies lengths).sent = source.sent ++ replies.flatten) := by
  induction replies generalizing source lengths with
  | nil =>
    obtain rfl := List.length_eq_zero_iff.1 hlen.symm
    exact ⟨.refl, rfl, fun _ => (List.append_nil _).symm⟩
  | cons reply replies ih =>
    obtain ⟨n, lengths, rfl⟩ := List.exists_cons_of_length_pos (by rw [← hlen]; exact Nat.succ_pos _)
    rw [List.sum_cons] at hack ⊢
    -- the reply, when it fits
    obtain ⟨sent, hsent⟩ : ∃ st, st = (source.act (.send reply)).getD source := ⟨_, rfl⟩
    have hcalls : Calls source sent := by
      rw [hsent]
      by_cases hfits : reply.length ≤ source.sendWindow
      · obtain ⟨ch, hp, hroom, hsend, -⟩ := hs.send hfits
        rw [hsend]
        exact .send reply .refl hp hroom
      · rw [(hs.send_none).2 (Nat.not_le.1 hfits)]
        exact .refl
    have hsame : sent.acked = source.acked := by
      rw [hsent]
      by_cases hfits : reply.length ≤ source.sendWindow
      · obtain ⟨ch, -, -, hsend, -⟩ := hs.send hfits
        rw [hsend]
        rfl
      · rw [(hs.send_none).2 (Nat.not_le.1 hfits)]
        rfl
    have hs' := hs.calls hcalls
    have hstep : Calls source (sent.acknowledge n) :=
      .acknowledge n hcalls (by rw [hsame, hcalls.handed]; omega)
    have hacked := hs'.acked n
    obtain ⟨h₁, h₂, h₃⟩ := ih lengths (Nat.succ.inj hlen) (hs.calls hstep)
      (by rw [hacked, hsame, hstep.handed]; omega)
    have hunfold : sendRejects source (reply :: replies) (n :: lengths) =
        sendRejects (sent.acknowledge n) replies lengths := by rw [hsent]; rfl
    rw [hunfold]
    refine ⟨hstep.trans h₁, ?_, fun hfits => ?_⟩
    · rw [h₂, hacked, hsame]
      omega
    · rw [List.flatten_cons, List.length_append] at hfits
      obtain ⟨ch, -, -, hsend, hwindow⟩ := hs.send (by omega : reply.length ≤ source.sendWindow)
      have heq : sent = source.wrote ch reply := by rw [hsent, hsend]; rfl
      rw [h₃ (by rw [hs'.sendWindow, heq, hwindow]; omega), hs'.sent, heq, wrote_sent,
        List.flatten_cons, List.append_assoc]

/-! ## The books of a bridge -/

/-- What a bridge has cut, forwarded and acknowledged, when `fs` is what the client sent. -/
structure Account (fs : List Tagged) (r : Bridge) : Prop where
  client : Listening r.client
  agent : Listening r.agent
  cut : agentFrames.drain r.client.handed = (fs, some r.filter)
  /-- What is allowed is forwarded, in order. -/
  forwarded : ∃ done, (fs.filter allowed).map Tagged.encode = done ++ r.requests ∧
    r.agent.sent = done.flatten
  /-- What is not acknowledged to the client waits in the relay. -/
  kept : r.client.acked + r.filter.length + r.requests.flatten.length = r.client.handed.length
  owed : r.agent.acked + r.replies.flatten.length = r.agent.handed.length

/-- The books of a bridge between two events: what waits does not fit. -/
structure Books (fs : List Tagged) (r : Bridge) : Prop extends Account fs r where
  stopped : ∀ next rest, r.requests = next :: rest → r.agent.sendWindow < next.length

section Books

variable {fs : List Tagged} {r : Bridge}

/-- Flushing the requests. -/
theorem Account.request (h : Account fs r) :
    Books fs (r.withRequest r.request.flushed) ∧
      Calls r.client (r.withRequest r.request.flushed).client ∧
      Calls r.agent (r.withRequest r.request.flushed).agent := by
  have hkept := h.kept
  have hflush := flush_calls r.requests h.client h.agent (by omega)
  rw [show r.withRequest r.request.flushed =
    { r with
      client := (flush r.client r.agent r.requests).1
      agent := (flush r.client r.agent r.requests).2.1
      requests := (flush r.client r.agent r.requests).2.2 } from rfl]
  generalize flush r.client r.agent r.requests = res at hflush ⊢
  obtain ⟨source, dest, left⟩ := res
  obtain ⟨hsource, hdest, hflushed, ⟨-, -, hsame⟩, ⟨done, hdone, hsent⟩, hstopped⟩ := hflush
  refine ⟨⟨?_, hstopped⟩, hsource, hdest⟩
  constructor
  case client => exact h.client.calls hsource
  case agent => exact h.agent.calls hdest
  case cut =>
    rw [hsource.handed]
    exact h.cut
  case forwarded =>
    obtain ⟨before, hbefore, hagent⟩ := h.forwarded
    refine ⟨before ++ done, ?_, ?_⟩
    · rw [hbefore, hdone, List.append_assoc]
    · rw [List.flatten_append, ← hagent, hsent]
  case kept =>
    simp only [] at hflushed ⊢
    rw [hsource.handed]
    omega
  case owed =>
    rw [hsame, hdest.handed]
    exact h.owed

/-- Flushing the replies. -/
theorem Books.reply (h : Books fs r) :
    Books fs (r.withReply r.reply.flushed) ∧
      Calls r.client (r.withReply r.reply.flushed).client ∧
      Calls r.agent (r.withReply r.reply.flushed).agent := by
  have howed := h.owed
  have hflush := flush_calls r.replies h.agent h.client (by omega)
  rw [show r.withReply r.reply.flushed =
    { r with
      client := (flush r.agent r.client r.replies).2.1
      agent := (flush r.agent r.client r.replies).1
      replies := (flush r.agent r.client r.replies).2.2 } from rfl]
  generalize flush r.agent r.client r.replies = res at hflush ⊢
  obtain ⟨source, dest, left⟩ := res
  obtain ⟨hsource, hdest, hflushed, ⟨hsent, hwindow, hsame⟩, -, -⟩ := hflush
  refine ⟨⟨?_, fun next rest hnext => ?_⟩, hdest, hsource⟩
  · constructor
    case client => exact h.client.calls hdest
    case agent => exact h.agent.calls hsource
    case cut =>
      rw [hdest.handed]
      exact h.cut
    case forwarded =>
      rw [hsent]
      exact h.forwarded
    case kept =>
      rw [hsame, hdest.handed]
      exact h.kept
    case owed =>
      rw [hsource.handed]
      exact hflushed.trans howed
  · rw [hwindow]
    exact h.stopped next rest hnext

/-- What has arrived does not change the books. -/
theorem Books.arrived (h : Books fs r) (out out' : List Packet) :
    Books fs { r with client := { r.client with out }, agent := { r.agent with out := out' } } :=
  ⟨⟨h.client, h.agent, h.cut, h.forwarded, h.kept, h.owed⟩, h.stopped⟩

/-! ## The arrival of a frame -/

/-- A chunk of the client, when its rejections have been written. -/
def Bridge.refused (r : Bridge) (new : List Tagged) (kept : List UInt8) : Bridge :=
  { r with
    client := sendRejects r.client (classified new).reject (classified new).rejectedLengths
    filter := kept
    requests := r.requests ++ (classified new).forward }

/-- What a chunk of the client becomes. -/
theorem Bridge.fromClient_data (h : Account fs r) (id : Nat) {chunk kept : List UInt8}
    {new : List Tagged} (hfeed : agentFrames.drain (r.filter ++ chunk) = (new, some kept)) :
    r.fromClient id (.data chunk) =
      let r' := { r with client := r.client.handle id (.data chunk) }.refused new kept
      r'.withRequest r'.request.flushed := by
  have hhandle := h.client.handle_data id chunk
  have hopen : (r.agent.closed || (r.client.handle id (.data chunk)).closed) = false := by
    rw [h.agent.open_, hhandle]
    exact h.client.open_
  have hstage : signOnly.feed r.filter chunk = some (kept, classified new) := by
    show feed r.filter chunk = _
    unfold feed
    rw [hfeed]
  have hdata : Direction.onData signOnly
      { source := r.client.handle id (.data chunk), dest := r.agent, stage := r.filter,
        pending := r.requests } chunk = _ := if_neg (Bool.eq_false_iff.1 hopen)
  unfold Bridge.fromClient
  rw [if_neg (Bool.eq_false_iff.1 h.client.open_)]
  show Bridge.withRequest _ (Direction.onData signOnly _ chunk) = _
  rw [show (Bridge.request { r with client := r.client.handle id (.data chunk) }) =
    { source := r.client.handle id (.data chunk), dest := r.agent, stage := r.filter,
      pending := r.requests } from rfl, hdata, hstage]
  rfl

/-- What a chunk of the agent becomes. -/
theorem Bridge.fromAgent_data (h : Account fs r) (id : Nat) (chunk : List UInt8) :
    r.fromAgent id (.data chunk) =
      let r' := { r with
        agent := r.agent.handle id (.data chunk), replies := r.replies ++ [chunk] }
      r'.withReply r'.reply.flushed := by
  have hhandle := h.agent.handle_data id chunk
  have hopen : (r.client.closed || (r.agent.handle id (.data chunk)).closed) = false := by
    rw [h.client.open_, hhandle]
    exact h.agent.open_
  have hdata : Direction.onData raw
      { source := r.agent.handle id (.data chunk), dest := r.client, stage := (),
        pending := r.replies } chunk = _ := if_neg (Bool.eq_false_iff.1 hopen)
  unfold Bridge.fromAgent
  rw [if_neg (Bool.eq_false_iff.1 h.agent.open_)]
  show Bridge.withReply _ (Direction.onData raw _ chunk) = _
  rw [show (Bridge.reply { r with agent := r.agent.handle id (.data chunk) }) =
    { source := r.agent.handle id (.data chunk), dest := r.client, stage := (),
      pending := r.replies } from rfl, hdata]
  rfl

theorem Bridge.fromClient_windowAdjust (h : Account fs r) (id n : Nat) :
    r.fromClient id (.windowAdjust n) =
      let r' := { r with client := r.client.handle id (.windowAdjust n) }
      r'.withReply r'.reply.flushed := if_neg (Bool.eq_false_iff.1 h.client.open_)

theorem Bridge.fromAgent_windowAdjust (h : Account fs r) (id n : Nat) :
    r.fromAgent id (.windowAdjust n) =
      let r' := { r with agent := r.agent.handle id (.windowAdjust n) }
      r'.withRequest r'.request.flushed := if_neg (Bool.eq_false_iff.1 h.agent.open_)

/-- A chunk of the client is refused or waits. -/
theorem Account.refused (h : Account fs r) (id : Nat) {chunk kept : List UInt8} {new : List Tagged}
    (hfeed : agentFrames.drain (r.filter ++ chunk) = (new, some kept)) :
    Account (fs ++ new)
        (Bridge.refused { r with client := r.client.handle id (.data chunk) } new kept) ∧
      Calls (r.client.handle id (.data chunk))
        (Bridge.refused { r with client := r.client.handle id (.data chunk) } new kept).client := by
  have hhandle := h.client.handle_data id chunk
  obtain ⟨arrived, harrived⟩ : ∃ st, st = r.client.handle id (.data chunk) := ⟨_, rfl⟩
  rw [← harrived] at hhandle ⊢
  have hlisten : Listening arrived := by
    rw [hhandle]
    exact h.client
  have hhanded : arrived.handed.length = r.client.handed.length + chunk.length := by
    rw [hhandle]
    exact List.length_append
  have hacked : arrived.acked = r.client.acked := by rw [hhandle]
  have hkept := h.kept
  have htotal : r.filter.length + chunk.length =
      (new.flatMap Tagged.encode).length + kept.length := by
    rw [← List.length_append, ← List.length_append, encode_drain hfeed]
  rw [← classified_total] at htotal
  obtain ⟨hcalls, hrejected, -⟩ := sendRejects_calls (classified new).reject
    (classified new).rejectedLengths (classified_lengths new) hlisten (by omega)
  refine ⟨?_, hcalls⟩
  unfold Bridge.refused
  constructor
  case client => exact hlisten.calls hcalls
  case agent => exact h.agent
  case cut =>
    rw [hcalls.handed, hhandle]
    exact (Format.drain_append_some _ h.cut chunk).trans (by rw [hfeed])
  case forwarded =>
    obtain ⟨done, hdone, hsent⟩ := h.forwarded
    refine ⟨done, ?_, hsent⟩
    rw [List.filter_append, List.map_append, hdone, classified_forward, List.append_assoc]
  case kept =>
    simp only []
    rw [hcalls.handed, hrejected, List.flatten_append, List.length_append]
    omega
  case owed => exact h.owed

/-- A chunk of the agent waits. -/
theorem Books.answered (h : Books fs r) (id : Nat) (chunk : List UInt8) :
    Books fs { r with
      agent := r.agent.handle id (.data chunk), replies := r.replies ++ [chunk] } := by
  rw [h.agent.handle_data id chunk]
  refine ⟨⟨h.client, h.agent, h.cut, h.forwarded, h.kept, ?_⟩, h.stopped⟩
  have howed := h.owed
  simp only [List.flatten_append, List.flatten_singleton, List.length_append]
  omega

theorem Books.adjusted (h : Books fs r) (id n : Nat) :
    Books fs { r with client := r.client.handle id (.windowAdjust n) } := by
  obtain ⟨phase, hhandle, hlisten⟩ := h.client.handle_windowAdjust id n
  rw [hhandle]
  exact ⟨⟨hlisten, h.agent, h.cut, h.forwarded, h.kept, h.owed⟩, h.stopped⟩

theorem Account.adjusted (h : Account fs r) (id n : Nat) :
    Account fs { r with agent := r.agent.handle id (.windowAdjust n) } := by
  obtain ⟨phase, hhandle, hlisten⟩ := h.agent.handle_windowAdjust id n
  rw [hhandle]
  exact ⟨h.client, hlisten, h.cut, h.forwarded, h.kept, h.owed⟩

/-- What a chunk of the client leaves, and the calls it makes. -/
theorem Books.fromClient_data (h : Books fs r) (id : Nat) {chunk kept : List UInt8}
    {new : List Tagged} (hfeed : agentFrames.drain (r.filter ++ chunk) = (new, some kept)) :
    Books (fs ++ new) (r.fromClient id (.data chunk)) ∧
      Calls (r.client.handle id (.data chunk)) (r.fromClient id (.data chunk)).client ∧
      Calls r.agent (r.fromClient id (.data chunk)).agent := by
  obtain ⟨hrefused, hcalls⟩ := h.toAccount.refused id hfeed
  rw [Bridge.fromClient_data h.toAccount id hfeed]
  obtain ⟨hbooks, hclient, hagent⟩ := hrefused.request
  exact ⟨hbooks, hcalls.trans hclient, hagent⟩

theorem Books.fromClient_windowAdjust (h : Books fs r) (id n : Nat) :
    Books fs (r.fromClient id (.windowAdjust n)) ∧
      Calls (r.client.handle id (.windowAdjust n)) (r.fromClient id (.windowAdjust n)).client ∧
      Calls r.agent (r.fromClient id (.windowAdjust n)).agent := by
  rw [Bridge.fromClient_windowAdjust h.toAccount]
  exact (h.adjusted id n).reply

/-- What a chunk of the agent leaves, and the calls it makes. -/
theorem Books.fromAgent_data (h : Books fs r) (id : Nat) (chunk : List UInt8) :
    Books fs (r.fromAgent id (.data chunk)) ∧
      Calls r.client (r.fromAgent id (.data chunk)).client ∧
      Calls (r.agent.handle id (.data chunk)) (r.fromAgent id (.data chunk)).agent := by
  rw [Bridge.fromAgent_data h.toAccount]
  exact (h.answered id chunk).reply

theorem Books.fromAgent_windowAdjust (h : Books fs r) (id n : Nat) :
    Books fs (r.fromAgent id (.windowAdjust n)) ∧
      Calls r.client (r.fromAgent id (.windowAdjust n)).client ∧
      Calls (r.agent.handle id (.windowAdjust n)) (r.fromAgent id (.windowAdjust n)).agent := by
  rw [Bridge.fromAgent_windowAdjust h.toAccount]
  exact (h.toAccount.adjusted id n).request

end Books

end Relay
end Mullion
