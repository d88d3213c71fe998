import Mullion.Lib.Run
import Mullion.Relay.Traffic

/-!
# What the relay parks

A frame waits in the relay until all of it has arrived and all of it fits into the window of the
other side. The window grows as the far end acknowledges, so a frame should not wait for good; but
the far end acknowledges in steps, and keeps back what is less than one. When nothing is in flight
and everything is acknowledged that will be (`Quiet`), does any frame still wait?

`Unparked` says none does. At rest the credit of a channel is known to the byte: the window is what
it was at the beginning less what the far side keeps back (`credit_at_rest`). So a frame is parked
exactly if it is longer than that, and nothing is parked exactly when there is `Room`. Less than
half a window is ever kept back, and there is always room for frames of half a window
(`room_of_moderate`). `unparked_iff` is both; in `parks` a longer frame is parked for good, which
`largest_request_parks` has for a request of the greatest length.
-/

namespace Mullion
namespace Relay

open Mux Station Framing

/-! ## The property -/

/-- Nothing is in flight, and the far ends have acknowledged everything. -/
structure Quiet (s : System) : Prop where
  clientOut : s.client.out = []
  clientBack : s.bridge.client.out = []
  agentOn : s.bridge.agent.out = []
  agentOut : s.agent.out = []
  clientAcked : s.client.acked = s.client.handed.length
  agentAcked : s.agent.acked = s.agent.handed.length

/-- The frame of which a part has arrived. -/
def underWay (peers : Peers) (s : System) : Option Tagged :=
  (frames peers.script)[(agentFrames.drain s.bridge.client.handed).1.length]?

/-- No allowed frame waits in the relay, and the rest of a frame that is half received can
be sent. -/
structure Unparked (peers : Peers) (s : System) : Prop where
  requests : s.bridge.requests = []
  received : s.bridge.filter ≠ [] → ∃ f ∈ underWay peers s,
    f.encode.length ≤ s.bridge.filter.length + s.client.sendWindow

/-- The frames fit into the window beside the bytes that are consumed and not yet returned
as credit. -/
structure Room (peers : Peers) (s : System) : Prop where
  requests : ∀ next ∈ s.bridge.requests.head?,
    next.length + Lane.unacknowledged s.agent.phase ≤ channelWindowBytes
  received : s.bridge.filter ≠ [] → ∀ f ∈ underWay peers s,
    f.encode.length + Lane.unacknowledged s.bridge.client.phase ≤ channelWindowBytes

/-- A request that fits into half of the window. -/
def Moderate (q : Request) : Prop :=
  q.frame.encode.length + windowAdjustThresholdBytes ≤ channelWindowBytes + 1

/-! ## Credit at rest -/

section Quiet

variable {peers : Peers} {ids : Nat × Nat} {s : System}

theorem Listening.unacknowledged {st : Station} (h : Listening st) :
    Lane.unacknowledged st.phase < windowAdjustThresholdBytes := by
  obtain ⟨ch, hp, -, hless⟩ := h
  rw [hp]
  exact hless

/-- The credit of a link on which nothing is in flight. -/
theorem credit_at_rest {l : Lane} (h : Lane.Inv l) {e : End} (hsender : Listening (l e))
    (hreceiver : Listening (l e.peer)) (hout : (l e).out = []) (hback : (l e.peer).out = []) :
    (l e).sendWindow + (l e.peer).handed.length + Lane.unacknowledged (l e.peer).phase =
      channelWindowBytes + (l e.peer).acked := by
  obtain ⟨ch, hp, -⟩ := hsender
  obtain ⟨ch', hp', hdata, -⟩ := hreceiver
  have hcredit := (h.flow e).credit (by rw [hp]; nofun) (by rw [hp']; nofun)
  have hnil := (h.ok e.peer).replayed ch' hp' hdata
  rw [hout, hback, Lane.payloads_nil, Lane.grants_nil, Lane.received, hp, hp', Lane.held_live, hnil]
    at hcredit
  simp only [List.length_nil, List.flatten_nil, Nat.add_zero, Lane.window_live] at hcredit
  rw [sendWindow_live hp, hp']
  exact hcredit

/-- What the client may still send, when nothing is in flight. -/
theorem Quiet.client (hq : Quiet s) (h : System.Inv peers s) :
    s.client.sendWindow + s.bridge.filter.length + s.bridge.requests.flatten.length +
      Lane.unacknowledged s.bridge.client.phase = channelWindowBytes := by
  obtain ⟨fs, hbooks⟩ := h.books
  have hcredit := credit_at_rest (e := .a) h.clientSide h.client hbooks.client hq.clientOut
    hq.clientBack
  have hkept := hbooks.kept
  change s.client.sendWindow + s.bridge.client.handed.length +
    Lane.unacknowledged s.bridge.client.phase = channelWindowBytes + s.bridge.client.acked
    at hcredit
  omega

/-- What the relay may still forward, when nothing is in flight. -/
theorem Quiet.agent (hq : Quiet s) (h : System.Inv peers s) :
    s.bridge.agent.sendWindow + Lane.unacknowledged s.agent.phase = channelWindowBytes := by
  obtain ⟨fs, hbooks⟩ := h.books
  have hcredit := credit_at_rest (e := .a) h.agentSide hbooks.agent h.agent hq.agentOn hq.agentOut
  have hacked := hq.agentAcked
  change s.bridge.agent.sendWindow + s.agent.handed.length +
    Lane.unacknowledged s.agent.phase = channelWindowBytes + s.agent.acked at hcredit
  omega

/-- A frame of which a part has arrived is in the script. -/
theorem System.Inv.underWay (h : System.Inv peers s) (hpart : s.bridge.filter ≠ []) :
    ∃ f, f ∈ Relay.underWay peers s := by
  obtain ⟨fs, hbooks⟩ := h.books
  obtain ⟨rest, hrest⟩ : s.bridge.client.handed <+: encode (frames peers.script) :=
    List.IsPrefix.trans ⟨_, h.arrived⟩ h.script
  have hwhole := drain_frames peers.script
  rw [← hrest, Format.drain_append_some _ hbooks.cut] at hwhole
  obtain ⟨hfs, hnone⟩ := Prod.mk.inj hwhole
  obtain ⟨left, hleft⟩ : ∃ left, left = (agentFrames.drain (s.bridge.filter ++ rest)).1 := ⟨_, rfl⟩
  rw [← hleft] at hfs
  unfold Relay.underWay
  rw [hbooks.cut, ← hfs]
  cases left with
  | nil =>
    have hnil := Format.eq_nil_of_drain _ (Prod.ext hleft.symm hnone)
    exact absurd (List.append_eq_nil_iff.1 hnil).1 hpart
  | cons f left => exact ⟨f, by simp⟩

/-- Nothing is parked exactly when there is room. -/
theorem unparked_iff_room (h : System.Inv peers s) (hq : Quiet s) :
    Unparked peers s ↔ Room peers s := by
  obtain ⟨fs, hbooks⟩ := h.books
  have hclient := hq.client h
  have hagent := hq.agent h
  constructor
  · intro hun
    have hnil := hun.requests
    rw [hnil, List.flatten_nil, List.length_nil] at hclient
    refine ⟨fun next hnext => ?_, fun hpart f hf => ?_⟩
    · rw [hnil] at hnext
      cases hnext
    · obtain ⟨g, hg, hfits⟩ := hun.received hpart
      obtain rfl := Option.mem_unique hf hg
      omega
  · intro hroom
    have hnil : s.bridge.requests = [] := by
      cases hwait : s.bridge.requests with
      | nil => rfl
      | cons next rest =>
        have hstop := hbooks.stopped next rest hwait
        have hfits := hroom.requests next (by rw [hwait]; rfl)
        omega
    rw [hnil, List.flatten_nil, List.length_nil] at hclient
    refine ⟨hnil, fun hpart => ?_⟩
    obtain ⟨f, hf⟩ := h.underWay hpart
    have hfits := hroom.received hpart f hf
    exact ⟨f, hf, by omega⟩

/-- There is room for frames of half a window. -/
theorem room_of_moderate (h : System.Inv peers s) (hsize : ∀ q ∈ peers.script, Moderate q) :
    Room peers s := by
  obtain ⟨fs, hbooks⟩ := h.books
  have hframe : ∀ f ∈ frames peers.script,
      f.encode.length + windowAdjustThresholdBytes ≤ channelWindowBytes + 1 := by
    intro f hf
    obtain ⟨q, hq, rfl⟩ := List.mem_map.1 hf
    exact hsize q hq
  constructor
  case requests =>
    intro next hnext
    have hless := h.agent.unacknowledged
    obtain ⟨done, hdone, -⟩ := hbooks.forwarded
    have hmem : next ∈ (fs.filter allowed).map Tagged.encode := by
      rw [hdone]
      exact List.mem_append_right _ (List.mem_of_mem_head? hnext)
    obtain ⟨f, hf, rfl⟩ := List.mem_map.1 hmem
    have hfits := hframe f (h.cut_mem hbooks (List.mem_of_mem_filter hf))
    omega
  case received =>
    intro hpart f hf
    have hless := hbooks.client.unacknowledged
    have hfits := hframe f (List.mem_of_getElem? hf)
    omega

end Quiet

/-- **What the relay parks.** Along every run, in a state in which nothing is in flight and
everything is acknowledged, no frame is parked exactly when the frames fit beside the credit
that is kept back; when the requests fit into half of the window, no such state parks one. -/
theorem unparked_iff (peers : Peers) (ids : Nat × Nat) (events : List System.Event) :
    Run.Along (System.step peers ids) (fun s => Quiet s → (Unparked peers s ↔ Room peers s))
        (System.piped ids) events ∧
      ((∀ q ∈ peers.script, Moderate q) →
        Run.Along (System.step peers ids) (fun s => Quiet s → Unparked peers s)
          (System.piped ids) events) := by
  have halways : Run.Meets (System.step peers ids) (fun _ _ => True) (System.piped ids) events :=
    Run.Meets.of_forall (fun _ _ => trivial) (System.piped ids) events
  constructor
  · exact Run.along_of_invariant (I := System.Inv peers)
      (fun _ _ _ h _ hs => System.step_inv h hs) (fun _ h hq => unparked_iff_room h hq)
      (System.Inv.piped peers ids) halways
  · intro hsize
    exact Run.along_of_invariant (I := System.Inv peers)
      (fun _ _ _ h _ hs => System.step_inv h hs)
      (fun _ h hq => (unparked_iff_room h hq).2 (room_of_moderate h hsize))
      (System.Inv.piped peers ids) halways

/-! ## A frame that is parked -/

/-- One byte less than what would be returned as credit. -/
def first : Request := ask 11 131066 (by decide)

/-- The first request goes through, and the second fills the window. -/
def stalling (q : Request) : List System.Event :=
  [.clientSend first.frame.encode, .fromClient, .toAgent,
    .agentAcknowledge first.frame.encode.length, .clientSend (q.frame.encode.take 131073),
    .fromClient]

section Parks

variable {a : Tagged} {A B : List UInt8}

/-- A frame goes through, and a part of the next one fills the window. -/
theorem play_parks (peers : Peers) (ids : Nat × Nat) (hallowed : allowed a = true)
    (hencode : a.encode = A)
    (hA : A.length + 1 = windowAdjustThresholdBytes)
    (hB : A.length + B.length = channelWindowBytes)
    (hscript : A ++ B <+: encode (frames peers.script))
    (hfirst : agentFrames.drain A = ([a], some []))
    (hsecond : agentFrames.drain B = ([], some B)) :
    ∃ s, Run.play (System.step peers ids) (System.piped ids)
        [.clientSend A, .fromClient, .toAgent, .agentAcknowledge A.length, .clientSend B,
          .fromClient] = some s ∧
      Quiet s ∧ s.bridge.filter = B ∧ s.bridge.client.handed = A ++ B ∧
      s.client.sendWindow = 0 := by
  have hscriptA := (List.prefix_append A B).trans hscript
  have hfitsA : ¬ channelWindowBytes < A.length := by omega
  have hfitsB : ¬ channelWindowBytes - A.length < B.length := by omega
  have hzero : channelWindowBytes - A.length - B.length = 0 := by omega
  have hkeep : ¬ windowAdjustThresholdBytes ≤ A.length := by omega
  simp only [Run.play, System.step, System.piped, System.open_, Station.act, Channel.send,
    Channel.onData, Channel.new, hfitsA, if_false, if_true, Option.map_some, List.nil_append,
    hscriptA, hscript, Bridge.fromClient, Station.closed, Station.handle, Bool.false_eq_true,
    Direction.onData, Bridge.request, Bridge.withRequest, Bool.or_self, signOnly, feed, hfirst,
    classified, hallowed, hencode, sendRejects, Direction.flushed, List.append_nil, flush,
    Station.acknowledge, Channel.acknowledgeConsumed, hkeep, Option.map_none, Option.toList_none,
    Option.getD_some, System.acknowledged, Nat.zero_add, Nat.le_refl, hfitsB, hsecond, hzero]
  exact ⟨_, rfl, ⟨rfl, rfl, rfl, rfl, rfl, rfl⟩, rfl, rfl, rfl⟩

/-- Every request that does not fit into half of the window can be parked for good. -/
theorem parks (mayAnswer : List UInt8 → List UInt8 → Bool) (ids : Nat × Nat) {q : Request}
    (hlong : ¬ Moderate q) :
    ¬ Run.Along (System.step ⟨[first, q], mayAnswer⟩ ids)
      (fun s => Quiet s → Unparked ⟨[first, q], mayAnswer⟩ s) (System.piped ids) (stalling q) := by
  have hlength : first.frame.encode.length = 131071 := ask_length 11 131066 (by decide)
  have hwindow : channelWindowBytes = 262144 := rfl
  have hthreshold : windowAdjustThresholdBytes = 131072 := rfl
  have hrest : 131073 < q.frame.encode.length := by
    unfold Moderate at hlong
    omega
  -- the part of the second request that fits
  obtain ⟨part, hpart⟩ : ∃ part, part = q.frame.encode.take 131073 := ⟨_, rfl⟩
  have hpartLength : part.length = 131073 := by
    rw [hpart, List.length_take]
    omega
  have hsplit : part ++ q.frame.encode.drop 131073 = q.frame.encode := by
    rw [hpart, List.take_append_drop]
  have hleft : q.frame.encode.drop 131073 ≠ [] := by
    intro hnil
    have hzero := congrArg List.length hnil
    rw [List.length_drop, List.length_nil] at hzero
    omega
  have hfirst : agentFrames.drain first.frame.encode = ([first.frame], some []) := by
    have hdrain := drain_frames [first]
    unfold encode frames at hdrain
    rw [List.map_singleton, List.flatMap_singleton] at hdrain
    exact hdrain
  have hmore : agentFrames.front part = .more :=
    front_part (k := 0) (by rw [q.untagged]; rfl) q.fits (by decide) hsplit hleft
  have hscript : first.frame.encode ++ part <+: encode (frames [first, q]) := by
    refine ⟨q.frame.encode.drop 131073, ?_⟩
    rw [List.append_assoc, hsplit]
    simp only [encode, frames, List.map_cons, List.map_nil, List.flatMap_cons, List.flatMap_nil,
      List.append_nil]
  obtain ⟨s, hplay, hquiet, hfilter, hhanded, hzero⟩ := play_parks
    ⟨[first, q], mayAnswer⟩ ids (a := first.frame) rfl rfl (by omega) (by omega) hscript hfirst
    (Format.drain_more _ hmore)
  rw [hpart] at hplay
  intro hall
  have hun := hall.last hplay hquiet
  have hunderWay : underWay ⟨[first, q], mayAnswer⟩ s = some q.frame := by
    unfold underWay
    rw [hhanded, Format.drain_append_some _ hfirst, List.nil_append, Format.drain_more _ hmore]
    rfl
  have hsome : s.bridge.filter ≠ [] := by
    rw [hfilter]
    exact List.ne_nil_of_length_pos (by omega)
  obtain ⟨f, hf, hfits⟩ := hun.received hsome
  rw [hunderWay] at hf
  cases hf
  rw [hfilter, hpartLength, hzero] at hfits
  omega

end Parks

/-- A sign request of the largest size that the filter takes. -/
theorem largest_request_parks :
    ¬ Run.Along (System.step ⟨[first, ask 13 262143 (by decide)], fun _ _ => true⟩ (1, 2))
      (fun s => Quiet s → Unparked ⟨[first, ask 13 262143 (by decide)], fun _ _ => true⟩ s)
      (System.piped (1, 2)) (stalling (ask 13 262143 (by decide))) := by
  refine parks _ _ fun hsmall => ?_
  unfold Moderate at hsmall
  rw [ask_length] at hsmall
  exact absurd hsmall (by decide)

end Relay
end Mullion
