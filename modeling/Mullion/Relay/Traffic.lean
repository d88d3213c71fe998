import Mullion.Relay.Books

/-!
# What holds while the relay runs

The invariant of the client, the relay and the agent, along every run.

* `Plain` — the frames that are sent: data and window adjustments;
* `Inv` — the credit of both channels, the books of the relay and the script of the client;
* `step_inv` — every step keeps it.
-/

namespace Mullion
namespace Relay

open Mux Station Framing

/-! ## Calls and arrivals -/

/-- A frame that carries data or credit. -/
def Plain (p : Packet) : Prop := (∃ chunk, p = .data chunk) ∨ ∃ n, p = .windowAdjust n

theorem plain_of_calls {st st' : Station} (h : Calls st st') (hst : ∀ p ∈ st.out, Plain p) :
    ∀ p ∈ st'.out, Plain p := by
  obtain ⟨ps, hout, hps⟩ := h.out
  rw [hout]
  intro p hp
  rcases List.mem_append.1 hp with hp | hp
  · exact hst p hp
  · exact hps p hp

theorem calls_of_send {st st' : Station} {chunk : List UInt8}
    (h : st.act (.send chunk) = some st') : Calls st st' := by
  obtain ⟨ch, hp, hfits, rfl⟩ := act_send h
  exact .send chunk .refl hp hfits

theorem calls_of_acknowledged {st st' : Station} {n : Nat}
    (h : System.acknowledged st n = some st') : Calls st st' ∧ st'.sent = st.sent := by
  unfold System.acknowledged at h
  split at h
  case isTrue hhonest =>
    have heq : st' = st.acknowledge n := by
      unfold Station.acknowledge
      rw [h]
      rfl
    rw [heq]
    refine ⟨.acknowledge n .refl hhonest, ?_⟩
    cases hc : st.closed with
    | true => rw [acknowledge_closed hc]
    | false =>
      obtain ⟨ch, hp⟩ := not_closed (Bool.eq_false_iff.1 hc)
      rw [acknowledge_live hp]
  case isFalse => cases h

/-- What arrives at an end that listens leaves it listening, and sends nothing. -/
theorem Listening.handle {st : Station} (h : Listening st) (id : Nat) {p : Packet}
    (hp : Plain p) : Listening (st.handle id p) ∧ (st.handle id p).out = st.out ∧
      (st.handle id p).sent = st.sent := by
  rcases hp with ⟨chunk, rfl⟩ | ⟨n, rfl⟩
  · rw [h.handle_data id chunk]
    exact ⟨h, rfl, rfl⟩
  · obtain ⟨phase, hhandle, hlisten⟩ := h.handle_windowAdjust id n
    rw [hhandle]
    exact ⟨hlisten, rfl, rfl⟩

/-! ## The frames of a script -/

/-- Frames of a script are cut again as they were encoded. -/
theorem drain_encoded (script : List Request) {fs : List Tagged}
    (h : ∀ f ∈ fs, f ∈ frames script) : agentFrames.drain (encode fs) = (fs, some []) := by
  rw [← List.append_nil (encode fs)]
  refine (@drain_encode 0 maxFrameBytes fs (fun f hf => ?_) (fun f hf => ?_)
    (by decide) []).trans ?_
  · obtain ⟨q, -, rfl⟩ := List.mem_map.1 (h f hf)
    rw [q.untagged]
    rfl
  · obtain ⟨q, -, rfl⟩ := List.mem_map.1 (h f hf)
    exact q.fits
  · rw [show (prefixed 0 maxFrameBytes).drain [] = ([], some []) from rfl, List.append_nil]

theorem drain_frames (script : List Request) :
    agentFrames.drain (encode (frames script)) = (frames script, some []) :=
  drain_encoded script fun _ hf => hf

/-- What has arrived of a script is cut into the first of its frames. -/
theorem drain_script (script : List Request) {t : List UInt8}
    (ht : t <+: encode (frames script)) :
    ∃ fs kept left, agentFrames.drain t = (fs, some kept) ∧ frames script = fs ++ left := by
  obtain ⟨rest, hrest⟩ := ht
  obtain ⟨fs, kept, left, hdrain, hfs, -⟩ :=
    Format.drain_prefix _ ((congrArg _ hrest).trans (drain_frames script))
  exact ⟨fs, kept, left, hdrain, hfs⟩

namespace System

/-! ## The invariant -/

/-- What holds of the client, the relay and the agent. -/
structure Inv (peers : Peers) (s : System) : Prop where
  clientSide : Lane.Inv s.clientLane
  agentSide : Lane.Inv s.agentLane
  client : Listening s.client
  agent : Listening s.agent
  /-- The client sends its script. -/
  script : s.client.sent <+: encode (frames peers.script)
  books : ∃ fs, Books fs s.bridge
  plain : (∀ p ∈ s.client.out, Plain p) ∧ (∀ p ∈ s.bridge.client.out, Plain p) ∧
    (∀ p ∈ s.bridge.agent.out, Plain p) ∧ ∀ p ∈ s.agent.out, Plain p

variable {peers : Peers} {ids : Nat × Nat} {s s' : System}

theorem clientLane_calls {client : Station} (h : Lane.Inv s.clientLane)
    (hc : Calls s.client client) : Lane.Inv (clientLane { s with client }) := by
  have hcalls := Lane.Inv.calls (e := .a) h hc
  have heq : clientLane { s with client } = fun x => if x = .a then client else s.clientLane x := by
    funext x
    cases x <;> rfl
  rw [heq]
  exact hcalls

theorem agentLane_calls {agent : Station} (h : Lane.Inv s.agentLane)
    (hc : Calls s.agent agent) : Lane.Inv (agentLane { s with agent }) := by
  have hcalls := Lane.Inv.calls (e := .b) h hc
  have heq : agentLane { s with agent } = fun x => if x = .b then agent else s.agentLane x := by
    funext x
    cases x <;> rfl
  rw [heq]
  exact hcalls

/-- What has been handed on by the relay is what the client has sent, but for what is in
flight. -/
theorem Inv.arrived (h : Inv peers s) :
    s.bridge.client.handed ++ Lane.payloads s.client.out = s.client.sent := by
  obtain ⟨fs, hbooks⟩ := h.books
  obtain ⟨ch, hp, hdata, -⟩ := hbooks.client
  obtain ⟨hdelivered, hheld⟩ := h.clientSide.conserved.delivered .a ch hp
  have hnil := hheld hdata
  rw [hnil, List.flatten_nil, List.append_nil] at hdelivered
  exact hdelivered

/-- A frame of the client arrives at the relay. -/
theorem Inv.crossClient (h : Inv peers s) {p : Packet} {out : List Packet} {r : Bridge} (id : Nat)
    (hout : s.client.out = p :: out) (hbooks : ∃ fs, Books fs r)
    (hclient : Calls (s.bridge.client.handle id p) r.client)
    (hagent : Calls s.bridge.agent r.agent) :
    Inv peers { s with client := { s.client with out }, bridge := r } := by
  obtain ⟨hplainClient, hplainBack, hplainOn, hplainAgent⟩ := h.plain
  obtain ⟨fs, hbefore⟩ := h.books
  obtain ⟨-, hsame, -⟩ := hbefore.client.handle id (hplainClient p (hout ▸ List.mem_cons_self))
  constructor
  case clientSide =>
    have hdeliver : Lane.step id s.clientLane (.b, .deliver) = some fun x =>
        if x = .b then s.bridge.client.handle id p else { s.client with out } :=
      Lane.step_deliver id hout
    have hcalls := Lane.Inv.calls (e := .b)
      (Lane.step_inv (l := (.b, .deliver)) h.clientSide trivial hdeliver) hclient
    refine cast (congrArg Lane.Inv ?_) hcalls
    funext x
    cases x <;> rfl
  case agentSide =>
    refine cast (congrArg Lane.Inv ?_) (Lane.Inv.calls (e := .a) h.agentSide hagent)
    funext x
    cases x <;> rfl
  case client => exact h.client
  case agent => exact h.agent
  case script => exact h.script
  case books => exact hbooks
  case plain =>
    exact ⟨fun q hq => hplainClient q (hout ▸ List.mem_cons_of_mem _ hq),
      plain_of_calls hclient (by rw [hsame]; exact hplainBack),
      plain_of_calls hagent hplainOn, hplainAgent⟩

/-- A frame of the agent arrives at the relay. -/
theorem Inv.crossAgent (h : Inv peers s) {p : Packet} {out : List Packet} {r : Bridge} (id : Nat)
    (hout : s.agent.out = p :: out) (hbooks : ∃ fs, Books fs r)
    (hclient : Calls s.bridge.client r.client)
    (hagent : Calls (s.bridge.agent.handle id p) r.agent) :
    Inv peers { s with agent := { s.agent with out }, bridge := r } := by
  obtain ⟨hplainClient, hplainBack, hplainOn, hplainAgent⟩ := h.plain
  obtain ⟨fs, hbefore⟩ := h.books
  obtain ⟨-, hsame, -⟩ := hbefore.agent.handle id (hplainAgent p (hout ▸ List.mem_cons_self))
  constructor
  case clientSide =>
    refine cast (congrArg Lane.Inv ?_) (Lane.Inv.calls (e := .b) h.clientSide hclient)
    funext x
    cases x <;> rfl
  case agentSide =>
    have hdeliver : Lane.step id s.agentLane (.a, .deliver) = some fun x =>
        if x = .a then s.bridge.agent.handle id p else { s.agent with out } :=
      Lane.step_deliver id hout
    have hcalls := Lane.Inv.calls (e := .a)
      (Lane.step_inv (l := (.a, .deliver)) h.agentSide trivial hdeliver) hagent
    refine cast (congrArg Lane.Inv ?_) hcalls
    funext x
    cases x <;> rfl
  case client => exact h.client
  case agent => exact h.agent
  case script => exact h.script
  case books => exact hbooks
  case plain =>
    exact ⟨hplainClient, plain_of_calls hclient hplainBack,
      plain_of_calls hagent (by rw [hsame]; exact hplainOn),
      fun q hq => hplainAgent q (hout ▸ List.mem_cons_of_mem _ hq)⟩

/-- A frame of the relay arrives at the client. -/
theorem Inv.toClient (h : Inv peers s) {p : Packet} {out : List Packet} (id : Nat)
    (hout : s.bridge.client.out = p :: out) :
    Inv peers { s with
      client := s.client.handle id p
      bridge := { s.bridge with client := { s.bridge.client with out } } } := by
  obtain ⟨hplainClient, hplainBack, hplainOn, hplainAgent⟩ := h.plain
  obtain ⟨fs, hbooks⟩ := h.books
  obtain ⟨hlisten, hsame, hsent⟩ :=
    h.client.handle id (hplainBack p (hout ▸ List.mem_cons_self))
  constructor
  case clientSide =>
    have hdeliver : Lane.step id s.clientLane (.a, .deliver) = some fun x =>
        if x = .a then s.client.handle id p else { s.bridge.client with out } :=
      Lane.step_deliver id hout
    refine cast (congrArg Lane.Inv ?_)
      (Lane.step_inv (l := (.a, .deliver)) h.clientSide trivial hdeliver)
    funext x
    cases x <;> rfl
  case agentSide => exact h.agentSide
  case client => exact hlisten
  case agent => exact h.agent
  case script =>
    show (s.client.handle id p).sent <+: _
    rw [hsent]
    exact h.script
  case books => exact ⟨fs, hbooks.arrived out s.bridge.agent.out⟩
  case plain =>
    exact ⟨by rw [hsame]; exact hplainClient, fun q hq => hplainBack q (hout ▸ List.mem_cons_of_mem _ hq),
      hplainOn, hplainAgent⟩

/-- A frame of the relay arrives at the agent. -/
theorem Inv.toAgent (h : Inv peers s) {p : Packet} {out : List Packet} (id : Nat)
    (hout : s.bridge.agent.out = p :: out) :
    Inv peers { s with
      agent := s.agent.handle id p
      bridge := { s.bridge with agent := { s.bridge.agent with out } } } := by
  obtain ⟨hplainClient, hplainBack, hplainOn, hplainAgent⟩ := h.plain
  obtain ⟨fs, hbooks⟩ := h.books
  obtain ⟨hlisten, hsame, -⟩ :=
    h.agent.handle id (hplainOn p (hout ▸ List.mem_cons_self))
  constructor
  case clientSide => exact h.clientSide
  case agentSide =>
    have hdeliver : Lane.step id s.agentLane (.b, .deliver) = some fun x =>
        if x = .b then s.agent.handle id p else { s.bridge.agent with out } :=
      Lane.step_deliver id hout
    refine cast (congrArg Lane.Inv ?_)
      (Lane.step_inv (l := (.b, .deliver)) h.agentSide trivial hdeliver)
    funext x
    cases x <;> rfl
  case client => exact h.client
  case agent => exact hlisten
  case script => exact h.script
  case books => exact ⟨fs, hbooks.arrived s.bridge.client.out out⟩
  case plain =>
    exact ⟨hplainClient, hplainBack, fun q hq => hplainOn q (hout ▸ List.mem_cons_of_mem _ hq),
      by rw [hsame]; exact hplainAgent⟩

/-- The client calls its end. -/
theorem Inv.clientCalls (h : Inv peers s) {client : Station} (hc : Calls s.client client)
    (hsent : client.sent <+: encode (frames peers.script)) : Inv peers { s with client } :=
  ⟨clientLane_calls h.clientSide hc, h.agentSide, h.client.calls hc, h.agent, hsent, h.books,
    plain_of_calls hc h.plain.1, h.plain.2⟩

/-- The agent calls its end. -/
theorem Inv.agentCalls (h : Inv peers s) {agent : Station} (hc : Calls s.agent agent) :
    Inv peers { s with agent } :=
  ⟨h.clientSide, agentLane_calls h.agentSide hc, h.client, h.agent.calls hc, h.script, h.books,
    h.plain.1, h.plain.2.1, h.plain.2.2.1, plain_of_calls hc h.plain.2.2.2⟩

/-- What the relay has cut is in the script. -/
theorem Inv.cut_mem (h : Inv peers s) {fs : List Tagged} (hbooks : Books fs s.bridge) {f : Tagged}
    (hf : f ∈ fs) : f ∈ frames peers.script := by
  obtain ⟨all, kept, left, hdrain, hall⟩ := drain_script peers.script
    (List.IsPrefix.trans ⟨_, h.arrived⟩ h.script)
  rw [hbooks.cut] at hdrain
  obtain ⟨rfl, -⟩ := Prod.mk.inj hdrain
  rw [hall]
  exact List.mem_append_left _ hf

/-- The frames that a chunk of the client completes. -/
theorem Inv.feed (h : Inv peers s) {fs : List Tagged} (hbooks : Books fs s.bridge)
    {chunk : List UInt8} {out : List Packet} (hout : s.client.out = .data chunk :: out) :
    ∃ new kept left, agentFrames.drain (s.bridge.filter ++ chunk) = (new, some kept) ∧
      frames peers.script = fs ++ new ++ left := by
  have harrived := h.arrived
  rw [hout, Lane.payloads_cons, ← List.append_assoc] at harrived
  have hprefix : s.bridge.client.handed ++ chunk <+: encode (frames peers.script) :=
    List.IsPrefix.trans ⟨Lane.payloads out, harrived⟩ h.script
  obtain ⟨all, kept, left, hdrain, hall⟩ := drain_script peers.script hprefix
  rw [Format.drain_append_some _ hbooks.cut chunk] at hdrain
  obtain ⟨rfl, hkept⟩ := Prod.mk.inj hdrain
  exact ⟨_, kept, left, Prod.ext rfl hkept, hall⟩

/-- Every step keeps the invariant. -/
theorem step_inv {ev : Event} (h : Inv peers s) (hs : step peers ids s ev = some s') :
    Inv peers s' := by
  obtain ⟨fs, hbooks⟩ := h.books
  cases ev with
  | clientSend chunk =>
    rw [step] at hs
    split at hs
    case isTrue hscript =>
      obtain ⟨client, hact, rfl⟩ := Option.map_eq_some_iff.1 hs
      have hsent : client.sent = s.client.sent ++ chunk := by
        obtain ⟨ch, -, -, rfl⟩ := act_send hact
        rfl
      exact h.clientCalls (calls_of_send hact) (hsent ▸ hscript)
    case isFalse => cases hs
  | clientAcknowledge n =>
    obtain ⟨client, hack, rfl⟩ := Option.map_eq_some_iff.1 hs
    obtain ⟨hcalls, hsent⟩ := calls_of_acknowledged hack
    exact h.clientCalls hcalls (hsent ▸ h.script)
  | agentSend chunk =>
    rw [step] at hs
    split at hs
    · obtain ⟨agent, hact, rfl⟩ := Option.map_eq_some_iff.1 hs
      exact h.agentCalls (calls_of_send hact)
    · cases hs
  | agentAcknowledge n =>
    obtain ⟨agent, hack, rfl⟩ := Option.map_eq_some_iff.1 hs
    exact h.agentCalls (calls_of_acknowledged hack).1
  | fromClient =>
    rw [step] at hs
    split at hs
    · cases hs
    case h_2 p out hout =>
      cases hs
      rcases h.plain.1 p (hout ▸ List.mem_cons_self) with ⟨chunk, rfl⟩ | ⟨n, rfl⟩
      · obtain ⟨new, kept, -, hfeed, -⟩ := h.feed hbooks hout
        obtain ⟨hafter, hclient, hagent⟩ := hbooks.fromClient_data ids.1 hfeed
        exact h.crossClient ids.1 hout ⟨_, hafter⟩ hclient hagent
      · obtain ⟨hafter, hclient, hagent⟩ := hbooks.fromClient_windowAdjust ids.1 n
        exact h.crossClient ids.1 hout ⟨_, hafter⟩ hclient hagent
  | fromAgent =>
    rw [step] at hs
    split at hs
    · cases hs
    case h_2 p out hout =>
      cases hs
      rcases h.plain.2.2.2 p (hout ▸ List.mem_cons_self) with ⟨chunk, rfl⟩ | ⟨n, rfl⟩
      · obtain ⟨hafter, hclient, hagent⟩ := hbooks.fromAgent_data ids.2 chunk
        exact h.crossAgent ids.2 hout ⟨_, hafter⟩ hclient hagent
      · obtain ⟨hafter, hclient, hagent⟩ := hbooks.fromAgent_windowAdjust ids.2 n
        exact h.crossAgent ids.2 hout ⟨_, hafter⟩ hclient hagent
  | toClient =>
    rw [step] at hs
    split at hs
    · cases hs
    case h_2 p out hout =>
      cases hs
      exact h.toClient ids.1 hout
  | toAgent =>
    rw [step] at hs
    split at hs
    · cases hs
    case h_2 p out hout =>
      cases hs
      exact h.toAgent ids.2 hout

/-- It holds when both channels have been opened. -/
theorem Inv.piped (peers : Peers) (ids : Nat × Nat) : Inv peers (piped ids) := by
  have hopen : ∀ id, Listening (open_ id) := fun id =>
    ⟨_, rfl, rfl, (by decide : 0 < windowAdjustThresholdBytes)⟩
  have hlane : ∀ id, Lane.Inv fun _ => open_ id := by
    intro id
    refine ⟨fun e => ⟨Nat.le_refl _, ?_, ?_, nofun⟩, fun e => ⟨?_, ?_, ?_, ?_⟩, nofun⟩
    · intro ch hch _
      cases hch
      rfl
    · intro ch _ _
      rfl
    · exact fun _ => rfl
    · exact fun _ _ => rfl
    · exact fun _ => Nat.zero_le _
    · exact fun _ => Nat.le_refl _
  constructor
  case clientSide =>
    refine cast (congrArg Lane.Inv ?_) (hlane ids.1)
    funext x
    cases x <;> rfl
  case agentSide =>
    refine cast (congrArg Lane.Inv ?_) (hlane ids.2)
    funext x
    cases x <;> rfl
  case client => exact hopen ids.1
  case agent => exact hopen ids.2
  case script => exact List.nil_prefix
  case books => exact ⟨[], ⟨hopen ids.1, hopen ids.2, rfl, ⟨[], rfl, rfl⟩, rfl, rfl⟩, nofun⟩
  case plain =>
    exact ⟨fun _ h => absurd h List.not_mem_nil, fun _ h => absurd h List.not_mem_nil,
      fun _ h => absurd h List.not_mem_nil, fun _ h => absurd h List.not_mem_nil⟩

end System

end Relay
end Mullion
