import Mullion.Lib.Run
import Mullion.Mux.Moves

/-!
# Two ends and two links

Two connections of opposite parity, joined by two reliable FIFO links, under any interleaving of
calls, deliveries and timers. Do the two ends come to hold the same channels? Each id can be looked
at by itself, since no operation on one id touches another. So the invariant `Inv` says of every id
that its two ends and the two links are in one of the states of `ChannelView.Agreed`, and that each
end waits only for ids of its own parity.

A call, a frame or a timer is then one of the moves of a single id, and most moves keep the view in
agreement. `Safe` rules out those that do not: an open that is given up though the peer has the
channel or is still going to be asked for it, and an answer that belongs to an earlier use of the
id. `step_inv` keeps `Inv` under `Safe`, and where nothing is in flight or pending, agreement means
that both ends hold a channel or neither does (`channel_sets_agree`). In `late_ack_leaves_channel` a
timer fires while the `OpenAck` is on the wire, and the peer is left with a channel that this end
has forgotten.
-/

namespace Mullion
namespace Mux

/-- The other parity. -/
def Parity.opposite : Parity → Parity
  | .even => .odd
  | .odd => .even

/-- The two ends of the connection. -/
inductive End
  | a
  | b
  deriving DecidableEq, Repr

/-- The end at the other side of the links. -/
def End.peer : End → End
  | .a => .b
  | .b => .a

@[simp] theorem End.peer_peer (e : End) : e.peer.peer = e := by cases e <;> rfl

theorem End.peer_ne (e : End) : e.peer ≠ e := by cases e <;> decide

theorem End.eq_or_peer (e x : End) : x = e ∨ x = e.peer := by cases e <;> cases x <;> decide

/-- What can happen at one end. -/
inductive Event
  | openChannel (opts : OpenChannelOptions)
  /-- The oldest frame on the link from the peer arrives. -/
  | deliver
  | close (id : Nat)
  | openAckTimeout (id : Nat)
  | waitTimeout (key : Nat)
  | send (id : Nat) (chunk : List UInt8)
  | eof (id : Nat)
  | acknowledgeConsumed (id byteCount : Nat)
  | onData (id : Nat)
  | onEof (id : Nat)
  deriving DecidableEq, Repr

/-- The two ends, and for each end the frames it sent that did not arrive yet,
oldest first. -/
structure Pair where
  ends : End → Connection
  link : End → List Frame

namespace Pair

/-- Two fresh connections, nothing in flight. -/
def start (ca cb : Connection) : Pair :=
  { ends := fun e => match e with
      | .a => ca
      | .b => cb
    link := fun _ => [] }

/-- What the end `e` does at the event; `none` when the event cannot happen. -/
def respond (s : Pair) (e : End) : Event → Option (Connection × List Frame)
  | .openChannel opts =>
    let (c, out, _) := (s.ends e).openChannel opts
    some (c, out)
  | .deliver =>
    match s.link e.peer with
    | [] => none
    | f :: _ => some ((s.ends e).handleMessage f)
  | .close id => some ((s.ends e).close id)
  -- the timer is cleared when the open is answered
  | .openAckTimeout id =>
    if id ∈ (s.ends e).pendingOpens then some ((s.ends e).openAckTimeout id) else none
  | .waitTimeout key => some ((s.ends e).waitTimeout key, [])
  | .send id chunk => (s.ends e).send id chunk
  | .eof id => some ((s.ends e).eof id)
  | .acknowledgeConsumed id n => some ((s.ends e).acknowledgeConsumed id n)
  | .onData id => some ((s.ends e).onData id, [])
  | .onEof id => some ((s.ends e).onEof id, [])

/-- What is left on the link towards `e` after the event. -/
def inbound (s : Pair) (e : End) : Event → List Frame
  | .deliver => (s.link e.peer).tail
  | _ => s.link e.peer

/-- One step of the system: an event at one of the ends. -/
def step (s : Pair) : End × Event → Option Pair
  | (e, ev) =>
    match s.respond e ev with
    | none => none
    | some (c, out) => some
      { ends := fun x => if x = e then c else s.ends x
        link := fun x => if x = e then s.link e ++ out else s.inbound e ev }

/-- Nothing is in flight and neither end waits for an answer. -/
def Settled (s : Pair) : Prop :=
  (∀ e, s.link e = []) ∧ ∀ e, (s.ends e).pendingOpens = []

/-- Once settled, the two ends hold the same channel ids. -/
def ChannelSetsAgree (s : Pair) : Prop :=
  s.Settled → ∀ id, id ∈ (s.ends .a).channelIds ↔ id ∈ (s.ends .b).channelIds

/-- The condition on a step: a timer fires for a channel only if the peer neither
holds it nor is still going to be asked for it, and an answer that is taken for a
pending open is the only answer to that id in flight, and not to an open that is
itself in flight. -/
def Safe (s : Pair) : End × Event → Prop
  | (e, .openAckTimeout id) => id ∉ (s.ends e.peer).channelIds ∧ .openReq id ∉ s.link e
  | (e, .deliver) =>
    match s.link e.peer with
    | .openAck id :: rest | .openFail id :: rest => id ∈ (s.ends e).pendingOpens →
      .openReq id ∉ s.link e ∧ .openAck id ∉ rest ∧ .openFail id ∉ rest
    | _ => True
  | _ => True

instance decidableSafe (s : Pair) (l : End × Event) : Decidable (s.Safe l) := by
  unfold Safe
  split
  · exact inferInstance
  · split <;> exact inferInstance
  · exact inferInstance

/-! ## The invariant -/

/-- The agreement of the two ends, id by id: `e` is the end that may allocate the
id. -/
structure Inv (s : Pair) : Prop where
  parity : ∀ e, (s.ends e.peer).channelIdParity = (s.ends e).channelIdParity.opposite
  own : ∀ e, (s.ends e).ids.Own
  agreed : ∀ e id, (s.ends e).channelIdParity.Owns id →
    (ChannelView.of id (s.ends e).ids (s.ends e.peer).ids (s.link e) (s.link e.peer)).Agreed

/-- Every id belongs to exactly one of the two parities. -/
theorem owns_opposite (p : Parity) (id : Nat) : p.opposite.Owns id ↔ ¬ p.Owns id := by
  cases p <;> simp only [Parity.opposite, Parity.Owns, Parity.startChannelId] <;> omega

/-- Why the end's handler runs at the event. -/
def cause (s : Pair) (e : End) : Event → Cause
  | .deliver =>
    match s.link e.peer with
    | [] => .call
    | f :: _ => .frame f
  | .openAckTimeout id => .timer id
  | _ => .call

/-- One handler call, as a move on the ids of the end. -/
theorem respond_does {s : Pair} {e : End} {ev : Event} {c : Connection} {out : List Frame}
    (h : s.respond e ev = some (c, out)) :
    Ids.Does (s.ends e).ids (s.cause e ev) c.ids out ∧
      s.link e.peer = (s.cause e ev).frames ++ s.inbound e ev := by
  cases ev with
  | openChannel opts =>
    cases h
    exact ⟨(Connection.openChannel_asks _ opts).does, rfl⟩
  | deliver =>
    simp only [respond, cause, inbound] at h ⊢
    cases hl : s.link e.peer with
    | nil => rw [hl] at h; cases h
    | cons f rest =>
      rw [hl] at h
      simp only [Option.some.injEq] at h
      have hdoes := Connection.handleMessage_does (s.ends e) f
      rw [h] at hdoes
      exact ⟨hdoes, rfl⟩
  | close id =>
    simp only [respond, Option.some.injEq] at h
    have hdoes : Ids.Does (s.ends e).ids .call _ _ := Connection.close_does (s.ends e) id nofun
    rw [h] at hdoes
    exact ⟨hdoes, rfl⟩
  | openAckTimeout id =>
    simp only [respond] at h
    split at h
    · rename_i hid
      simp only [Option.some.injEq] at h
      have hdoes := Connection.openAckTimeout_does hid
      rw [h] at hdoes
      exact ⟨hdoes, rfl⟩
    · cases h
  | waitTimeout key =>
    cases h
    exact ⟨(Ids.Asks.done _).does, rfl⟩
  | send id chunk => exact ⟨Connection.send_does h, rfl⟩
  | eof id =>
    simp only [respond, Option.some.injEq] at h
    have hdoes := Connection.eof_does (s.ends e) id
    rw [h] at hdoes
    exact ⟨hdoes, rfl⟩
  | acknowledgeConsumed id n =>
    simp only [respond, Option.some.injEq] at h
    have hdoes := Connection.acknowledgeConsumed_does (s.ends e) id n
    rw [h] at hdoes
    exact ⟨hdoes, rfl⟩
  | onData id =>
    cases h
    rw [Connection.ids_onData]
    exact ⟨(Ids.Asks.done _).does, rfl⟩
  | onEof id =>
    cases h
    rw [Connection.ids_onEof]
    exact ⟨(Ids.Asks.done _).does, rfl⟩

theorem Safe.ids {s : Pair} {e : End} {ev : Event} (h : s.Safe (e, ev)) :
    Ids.Safe (s.ends e).ids (s.ends e.peer).ids (s.link e) (s.inbound e ev) (s.cause e ev) := by
  cases ev with
  | openAckTimeout id => exact h
  | deliver =>
    simp only [Safe, cause, inbound] at h ⊢
    cases hl : s.link e.peer with
    | nil => trivial
    | cons f rest =>
      rw [hl] at h
      cases f with
      | openAck id => exact h
      | openFail id => exact h
      | _ => trivial
  | _ => trivial

/-- **A step that meets `Safe` keeps the invariant.** -/
theorem step_inv (s : Pair) (l : End × Event) (s' : Pair) (hi : s.Inv) (hsafe : s.Safe l)
    (h : s.step l = some s') : s'.Inv := by
  obtain ⟨e, ev⟩ := l
  simp only [step] at h
  cases hr : s.respond e ev with
  | none => rw [hr] at h; cases h
  | some p =>
    obtain ⟨c, out⟩ := p
    rw [hr] at h
    cases h
    obtain ⟨hdoes, hlink⟩ := respond_does hr
    obtain ⟨hown, hpar⟩ := hdoes.own (hi.own e)
    have hne := End.peer_ne e
    refine ⟨fun x => ?_, fun x => ?_, fun x id hx => ?_⟩
    · rcases End.eq_or_peer e x with rfl | rfl
      · simp only [if_neg hne, if_true]
        rw [show c.channelIdParity = _ from hpar]
        exact hi.parity x
      · simp only [End.peer_peer, if_neg hne, if_true]
        rw [show c.channelIdParity = _ from hpar]
        have := hi.parity e.peer
        rwa [End.peer_peer] at this
    · rcases End.eq_or_peer e x with rfl | rfl
      · simpa only [if_true] using hown
      · simpa only [if_neg hne] using hi.own e.peer
    · rcases End.eq_or_peer e x with rfl | rfl
      · simp only [if_neg hne, if_true] at hx ⊢
        rw [show c.channelIdParity = _ from hpar] at hx
        have hv := hi.agreed x id hx
        rw [hlink] at hv
        exact hdoes.opener hsafe.ids hv
      · simp only [End.peer_peer, if_neg hne, if_true] at hx ⊢
        have hv := hi.agreed e.peer id hx
        rw [End.peer_peer, hlink] at hv
        refine hdoes.acceptor (hi.own e) ?_ hv
        rw [hi.parity e, owns_opposite] at hx
        exact hx

/-- The invariant gives the agreement of the channel sets. -/
theorem Inv.channelSetsAgree {s : Pair} (hi : s.Inv) : s.ChannelSetsAgree := by
  rintro ⟨hlink, hpending⟩ id
  have hsettled : ∀ e, (s.ends e).channelIdParity.Owns id →
      (id ∈ (s.ends e).channelIds ↔ id ∈ (s.ends e.peer).channelIds) := by
    intro e he
    refine (hi.agreed e id he).settled ?_ ?_ ?_
    · simp [ChannelView.of, Connection.ids, hpending e]
    · simp [ChannelView.of, hlink e]
    · simp [ChannelView.of, hlink e.peer]
  by_cases ha : (s.ends .a).channelIdParity.Owns id
  · exact hsettled .a ha
  · refine (hsettled .b ?_).symm
    rw [show (s.ends .b).channelIdParity = _ from hi.parity .a, owns_opposite]
    exact ha

theorem own_create (p : Parity) (m ms mp : Nat) : (createMuxConnection p m ms mp).ids.Own :=
  ⟨rfl, nofun⟩

/-- Two fresh connections of opposite parity meet the invariant. -/
theorem inv_start (p : Parity) (m ms mp m' ms' mp' : Nat) :
    (start (createMuxConnection p m ms mp) (createMuxConnection p.opposite m' ms' mp')).Inv := by
  refine ⟨fun e => ?_, fun e => ?_, fun e id _ => ?_⟩
  · cases e
    · rfl
    · cases p <;> rfl
  · cases e
    · exact own_create p m ms mp
    · exact own_create p.opposite m' ms' mp'
  · cases e <;> exact .idle nofun nofun nofun nofun nofun

/-! ## The two ends agree -/

/-- **Agreement of the channel sets.** Along every run of two ends of opposite
parity whose steps meet `Safe`, the two ends hold the same channel ids in every
state where nothing is in flight and nothing is pending. -/
theorem channel_sets_agree (p : Parity) (m ms mp m' ms' mp' : Nat) (run : List (End × Event))
    (h : Run.Meets step Safe
      (start (createMuxConnection p m ms mp) (createMuxConnection p.opposite m' ms' mp')) run) :
    Run.Along step ChannelSetsAgree
      (start (createMuxConnection p m ms mp) (createMuxConnection p.opposite m' ms' mp')) run :=
  Run.along_of_invariant step_inv (fun _ hi => hi.channelSetsAgree)
    (inv_start p m ms mp m' ms' mp') h

/-- A channel that is opened and closed again, and one that stays. -/
theorem channel_sets_agree_open_close :
    Run.Along step ChannelSetsAgree
      (start (createMuxConnection .odd 4 4 4) (createMuxConnection .even 4 4 4))
      [(.a, .openChannel {}), (.b, .deliver), (.b, .close 1), (.a, .deliver), (.a, .deliver),
        (.b, .openChannel {}), (.a, .deliver), (.b, .deliver)] :=
  channel_sets_agree .odd 4 4 4 4 4 4 _ (by decide)

/-- **The late acknowledgement.** The peer accepts, the timer of the open fires
while the `OpenAck` is on the wire, and the `OpenAck` is then dropped: nothing is
in flight or pending, and the peer holds a channel that the opener forgot. -/
theorem late_ack_leaves_channel :
    ¬ ∀ run : List (End × Event), Run.Along step ChannelSetsAgree
      (start (createMuxConnection .odd) (createMuxConnection .even)) run := by
  intro h
  have hplay : (Run.play step (start (createMuxConnection .odd) (createMuxConnection .even))
      [(.a, .openChannel {}), (.b, .deliver), (.a, .openAckTimeout 1), (.a, .deliver)]).map
      (fun s => ((s.link .a, s.link .b), ((s.ends .a).pendingOpens, (s.ends .b).pendingOpens),
        (s.ends .a).channelIds, (s.ends .b).channelIds)) =
      some (([], []), ([], []), [], [1]) := by decide
  obtain ⟨s, hs, hview⟩ := Option.map_eq_some_iff.1 hplay
  simp only [Prod.mk.injEq] at hview
  obtain ⟨⟨hla, hlb⟩, ⟨hpa, hpb⟩, hca, hcb⟩ := hview
  have hsettled : s.Settled := by
    refine ⟨fun e => ?_, fun e => ?_⟩
    · cases e <;> assumption
    · cases e <;> assumption
  have hiff := (h _).last hs hsettled 1
  rw [hca, hcb] at hiff
  exact absurd hiff (by decide)

end Pair

end Mux
end Mullion
