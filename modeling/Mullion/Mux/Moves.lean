import Mullion.Lib.Probe
import Mullion.Mux.Connection
import Mullion.Mux.ChannelView

/-!
# What one handler call does to the channel ids

`Ids` keeps of a connection what the agreement of the two ends depends on: the
open ids, the pending ids and the allocator.  Every entry point of the
connection makes at most one `Move` on one id, in answer to the frame it got, and
then `Asks` for some fresh ids (queued calls that got a freed slot).

* `Ids.Move`, `Ids.Asks`, and `Ids.Does`, the one followed by the other;
* `handleMessage_does`, `close_does`, … one lemma for each entry point;
* `Move.opener`, `Move.acceptor`, `Asks.opener`, `Asks.acceptor`: what they do to
  the agreement on one id, seen from either side.
-/

namespace Mullion
namespace Mux

/-- The ids a parity allocates. -/
def Parity.Owns (p : Parity) (id : Nat) : Prop := id % 2 = p.startChannelId % 2

/-- The control message a frame carries, with its channel id. -/
def Frame.control : Frame → Option (Nat × Ctl)
  | .openReq id => some (id, .openReq)
  | .openAck id => some (id, .openAck)
  | .openFail id => some (id, .openFail)
  | .close id => some (id, .close)
  | .data _ _ | .windowAdjust _ _ | .eof _ | .ping | .pong => none

/-- The control message a frame carries for the channel `id`. -/
def Frame.controlOf (id : Nat) (f : Frame) : Option Ctl :=
  match f.control with
  | some (i, k) => if i = id then some k else none
  | none => none

/-- The control messages for the channel `id`, in order. -/
def controls (id : Nat) (l : List Frame) : List Ctl := l.filterMap (Frame.controlOf id)

@[simp] theorem controls_nil (id : Nat) : controls id [] = [] := rfl

@[simp] theorem controls_append (id : Nat) (l r : List Frame) :
    controls id (l ++ r) = controls id l ++ controls id r := List.filterMap_append

theorem controls_cons_of {id : Nat} {f : Frame} {k : Ctl} (h : f.control = some (id, k))
    (l : List Frame) : controls id (f :: l) = k :: controls id l := by
  have hk : f.controlOf id = some k := by simp [Frame.controlOf, h]
  rw [controls, List.filterMap_cons_some hk, controls]

theorem controls_cons_ne {id i : Nat} {f : Frame} {k : Ctl} (h : f.control = some (i, k))
    (hi : i ≠ id) (l : List Frame) : controls id (f :: l) = controls id l := by
  rw [controls, List.filterMap_cons_none (by simp [Frame.controlOf, h, hi]), controls]

theorem controls_quiet {id : Nat} {l : List Frame} (h : ∀ f ∈ l, f.control = none) :
    controls id l = [] := by
  rw [controls, List.filterMap_eq_nil_iff]
  intro f hf
  simp [Frame.controlOf, h f hf]

theorem mem_controls {id : Nat} {l : List Frame} {k : Ctl} :
    k ∈ controls id l ↔ ∃ f ∈ l, f.control = some (id, k) := by
  simp only [controls, List.mem_filterMap]
  constructor
  · rintro ⟨f, hf, hk⟩
    refine ⟨f, hf, ?_⟩
    unfold Frame.controlOf at hk
    cases hc : f.control with
    | none => rw [hc] at hk; cases hk
    | some p =>
      obtain ⟨i, k'⟩ := p
      rw [hc] at hk
      by_cases hi : i = id
      · simp only [hi, if_true, Option.some.injEq] at hk
        rw [hi, hk]
      · simp only [hi, if_false] at hk
        cases hk
  · rintro ⟨f, hf, hc⟩
    exact ⟨f, hf, by simp [Frame.controlOf, hc]⟩

theorem Frame.control_injective {f g : Frame} {p : Nat × Ctl} (hf : f.control = some p)
    (hg : g.control = some p) : f = g := by
  cases f <;> cases hf <;> cases g <;> cases hg <;> rfl

theorem mem_controls_of {id : Nat} {f : Frame} {k : Ctl} (h : f.control = some (id, k))
    (l : List Frame) : k ∈ controls id l ↔ f ∈ l := by
  rw [mem_controls]
  refine ⟨?_, fun hf => ⟨f, hf, h⟩⟩
  rintro ⟨g, hg, hc⟩
  rwa [Frame.control_injective h hc]

/-- What the agreement of the two ends depends on. -/
structure Ids where
  channels : List Nat
  pending : List Nat
  parity : Parity
  next : Nat

/-- The ids of a connection. -/
def Connection.ids (c : Connection) : Ids :=
  { channels := c.channelIds, pending := c.pendingOpens, parity := c.channelIdParity,
    next := c.nextChannelId }

/-! ## The effect of the map operations -/

namespace Connection

@[simp] theorem ids_forgetStream (c : Connection) (id : Nat) : (c.forgetStream id).ids = c.ids :=
  rfl

@[simp] theorem ids_setWaiters (c : Connection) (ws : List SlotWaiter) :
    ids { c with slotWaiters := ws } = c.ids := rfl

@[simp] theorem ids_addChannel (c : Connection) (ch : Channel) :
    (c.addChannel ch).ids = { c.ids with channels := c.ids.channels ++ [ch.id] } := by
  simp [ids, addChannel, channelIds]

@[simp] theorem ids_deleteChannel (c : Connection) (id : Nat) :
    (c.deleteChannel id).ids = { c.ids with channels := c.ids.channels.filter (· ≠ id) } := by
  simp [ids, deleteChannel, channelIds, List.filter_map, Function.comp_def]

@[simp] theorem ids_deletePending (c : Connection) (id : Nat) :
    (c.deletePending id).ids = { c.ids with pending := c.ids.pending.filter (· ≠ id) } := rfl

@[simp] theorem ids_setChannel (c : Connection) (ch : Channel) : (c.setChannel ch).ids = c.ids := by
  have h : (c.setChannel ch).channelIds = c.channelIds := by
    simp only [setChannel, channelIds, List.map_map]
    refine List.map_congr_left fun x _ => ?_
    by_cases hx : x.id = ch.id <;> simp [hx]
  simp only [ids, h]
  rfl

theorem getChannel_none {c : Connection} {id : Nat} (h : c.getChannel id = none) :
    id ∉ c.channelIds := by
  intro hm
  obtain ⟨ch, hch, rfl⟩ := List.mem_map.1 hm
  have := List.find?_eq_none.1 h ch hch
  simp at this

theorem getChannel_some {c : Connection} {id : Nat} {ch : Channel}
    (h : c.getChannel id = some ch) : ch.id = id ∧ id ∈ c.channelIds := by
  have hid : ch.id = id := by simpa using List.find?_some h
  exact ⟨hid, List.mem_map.2 ⟨ch, List.mem_of_find?_eq_some h, hid⟩⟩

end Connection

/-- Why a handler runs: a call of the program, the timer of a pending open, or a
frame of the peer. -/
inductive Cause
  | call
  | timer (id : Nat)
  | frame (f : Frame)

/-- The frame taken from the link, if any. -/
def Cause.frames : Cause → List Frame
  | .frame f => [f]
  | .call | .timer _ => []

/-! ## Moves -/

namespace Ids

/-- Ask for fresh ids, one after the other. -/
inductive Asks : Ids → Ids → List Frame → Prop
  | done (s : Ids) : Asks s s []
  | ask {s s' : Ids} {out : List Frame} (id next : Nat) (hc : id ∉ s.channels)
      (hp : id ∉ s.pending)
      (hown : s.parity.Owns s.next → s.parity.Owns id ∧ s.parity.Owns next)
      (rest : Asks { s with pending := s.pending ++ [id], next } s' out) :
      Asks s s' (.openReq id :: out)

/-- One move on one id: its cause, the ids before and after, and what is sent. -/
inductive Move : Ids → Cause → Ids → List Frame → Prop
  | quiet {s : Ids} {cause : Cause} {out : List Frame}
      (hg : ∀ f ∈ cause.frames, f.control = none) (ho : ∀ f ∈ out, f.control = none) :
      Move s cause s out
  | closes {s : Ids} {cause : Cause} (id : Nat) (hg : ∀ f ∈ cause.frames, f.control = none)
      (hid : id ∈ s.channels) :
      Move s cause { s with channels := s.channels.filter (· ≠ id) } [.close id]
  | givesUp {s : Ids} (id : Nat) (hid : id ∈ s.pending) :
      Move s (.timer id) { s with pending := s.pending.filter (· ≠ id) } []
  | getsClose {s : Ids} (id : Nat) :
      Move s (.frame (.close id)) { s with channels := s.channels.filter (· ≠ id) } []
  | getsAck {s : Ids} (id : Nat) (hid : id ∈ s.pending) :
      Move s (.frame (.openAck id))
        { s with pending := s.pending.filter (· ≠ id), channels := s.channels ++ [id] } []
  | getsFail {s : Ids} (id : Nat) (hid : id ∈ s.pending) :
      Move s (.frame (.openFail id)) { s with pending := s.pending.filter (· ≠ id) } []
  | ignoresAck {s : Ids} (id : Nat) (hid : id ∉ s.pending) : Move s (.frame (.openAck id)) s []
  | ignoresFail {s : Ids} (id : Nat) (hid : id ∉ s.pending) : Move s (.frame (.openFail id)) s []
  | accepts {s : Ids} (id : Nat) :
      Move s (.frame (.openReq id)) { s with channels := s.channels ++ [id] } [.openAck id]
  | refuses {s : Ids} (id : Nat) : Move s (.frame (.openReq id)) s [.openFail id]

/-- A move, then requests for fresh ids. -/
def Does (s : Ids) (cause : Cause) (s' : Ids) (out : List Frame) : Prop :=
  ∃ s₁ out₁ out₂, Move s cause s₁ out₁ ∧ Asks s₁ s' out₂ ∧ out = out₁ ++ out₂

theorem Move.does {s s' : Ids} {cause : Cause} {out : List Frame} (h : Move s cause s' out) :
    Does s cause s' out := ⟨s', out, [], h, .done s', (List.append_nil out).symm⟩

theorem Asks.does {s s' : Ids} {out : List Frame} (h : Asks s s' out) : Does s .call s' out :=
  ⟨s, [], out, .quiet nofun nofun, h, rfl⟩

theorem Asks.trans {s₁ s₂ s₃ : Ids} {out out' : List Frame} (h : Asks s₁ s₂ out)
    (h' : Asks s₂ s₃ out') : Asks s₁ s₃ (out ++ out') := by
  induction h with
  | done s => exact h'
  | ask id next hc hp hown _ ih => exact .ask id next hc hp hown (ih h')

end Ids

/-! ## The entry points -/

namespace Connection

theorem stepId_mod {start id : Nat} (h : id % 2 = start % 2) : stepId start id % 2 = start % 2 := by
  unfold stepId
  split
  · rfl
  · omega

/-- `pickFreeChannelId` probes the ids from `id` on. -/
theorem pickFreeChannelId_eq_probe (occupied : List Nat) (start n id : Nat) :
    pickFreeChannelId occupied start n id =
      Probe.probe (· ∈ occupied) (stepId start) n id := by
  induction n generalizing id with
  | zero => rfl
  | succ n ih => rw [pickFreeChannelId, Probe.probe, ih]

/-- `pickFreeChannelId` returns a free id of the allocator's parity. -/
theorem pickFreeChannelId_spec {occupied : List Nat} {start n id r : Nat}
    (h : pickFreeChannelId occupied start n id = some r) :
    r ∉ occupied ∧ (id % 2 = start % 2 → r % 2 = start % 2) := by
  rw [pickFreeChannelId_eq_probe] at h
  exact ⟨Probe.probe_free h, fun hid =>
    Probe.probe_invariant (P := fun id => id % 2 = start % 2) (fun _ => stepId_mod) hid h⟩

theorem startOpen_asks (c : Connection) (stream preview : Bool) :
    Ids.Asks c.ids (c.startOpen stream preview).1.ids (c.startOpen stream preview).2.1 := by
  unfold startOpen
  cases h : c.allocateChannelId with
  | none => exact .done _
  | some p =>
    obtain ⟨id, c'⟩ := p
    unfold allocateChannelId at h
    cases hpick : pickFreeChannelId c.combinedOccupiedIds c.nextChannelId c.maxChannels
        c.nextChannelId with
    | none => simp only [hpick] at h; cases h
    | some r =>
      simp only [hpick, Option.some.injEq, Prod.mk.injEq] at h
      obtain ⟨rfl, rfl⟩ := h
      obtain ⟨hfree, hmod⟩ := pickFreeChannelId_spec hpick
      rw [combinedOccupiedIds, List.mem_append, not_or] at hfree
      refine .ask r _ hfree.1 hfree.2 (fun hown => ?_) (.done _)
      have hr : c.channelIdParity.Owns r := (hmod rfl).trans hown
      exact ⟨hr, stepId_mod hr⟩

theorem openChannel_asks (c : Connection) (opts : OpenChannelOptions) :
    Ids.Asks c.ids (c.openChannel opts).1.ids (c.openChannel opts).2.1 := by
  unfold openChannel
  simp only
  repeat' split
  all_goals first
    | exact .done _
    | exact startOpen_asks c _ _

theorem drainLoop_asks (c : Connection) (ws : List SlotWaiter) :
    Ids.Asks c.ids (drainLoop c ws).1.ids (drainLoop c ws).2 := by
  induction ws generalizing c with
  | nil => exact .done _
  | cons w ws ih =>
    rw [drainLoop]
    split
    · have hask := openChannel_asks { c with slotWaiters := ws } w.opts
      rw [ids_setWaiters] at hask
      rcases hr : openChannel { c with slotWaiters := ws } w.opts with ⟨c', out, o⟩
      rw [hr] at hask
      cases o with
      | allocatorExhausted => exact hask
      | _ => exact hask.trans (ih c')
    · exact .done _

theorem drainSlotWaiters_asks (c : Connection) :
    Ids.Asks c.ids c.drainSlotWaiters.1.ids c.drainSlotWaiters.2 := by
  unfold drainSlotWaiters
  split
  · exact .done _
  · exact drainLoop_asks c c.slotWaiters

/-- A move followed by the drain of the queue. -/
theorem thenDrain_does {c c₁ : Connection} {cause : Cause} {out : List Frame}
    (h : Ids.Move c.ids cause c₁.ids out) :
    Ids.Does c.ids cause (c₁.thenDrain out).1.ids (c₁.thenDrain out).2 :=
  ⟨c₁.ids, out, c₁.drainSlotWaiters.2, h, drainSlotWaiters_asks c₁, rfl⟩

theorem close_does (c : Connection) (id : Nat) {cause : Cause}
    (hg : ∀ f ∈ cause.frames, f.control = none) :
    Ids.Does c.ids cause (c.close id).1.ids (c.close id).2 := by
  unfold close
  cases h : c.getChannel id with
  | none => exact Ids.Move.does (.quiet hg nofun)
  | some ch =>
    refine thenDrain_does ?_
    rw [ids_forgetStream, ids_deleteChannel]
    exact .closes id hg (getChannel_some h).2

theorem send_does {c c' : Connection} {id : Nat} {chunk : List UInt8} {out : List Frame}
    (h : c.send id chunk = some (c', out)) : Ids.Does c.ids .call c'.ids out := by
  unfold send at h
  split at h
  · cases h
  · split at h
    · cases h
    · cases h
      rw [ids_setChannel]
      exact Ids.Move.does (.quiet nofun (by simp [Frame.control]))

theorem eof_does (c : Connection) (id : Nat) :
    Ids.Does c.ids .call (c.eof id).1.ids (c.eof id).2 := by
  unfold eof
  split
  · exact Ids.Move.does (.quiet nofun nofun)
  · exact Ids.Move.does (.quiet nofun (by simp [Frame.control]))

theorem acknowledgeConsumed_does (c : Connection) (id n : Nat) :
    Ids.Does c.ids .call (c.acknowledgeConsumed id n).1.ids (c.acknowledgeConsumed id n).2 := by
  unfold acknowledgeConsumed
  split
  · exact Ids.Move.does (.quiet nofun nofun)
  · simp only
    split
    · simp only [ids_setChannel]
      exact Ids.Move.does (.quiet nofun (by simp [Frame.control]))
    · simp only [ids_setChannel]
      exact Ids.Move.does (.quiet nofun nofun)

theorem ids_onData (c : Connection) (id : Nat) : (c.onData id).ids = c.ids := by
  unfold onData
  split
  · rfl
  · exact ids_setChannel _ _

theorem ids_onEof (c : Connection) (id : Nat) : (c.onEof id).ids = c.ids := by
  unfold onEof
  split
  · rfl
  · exact ids_setChannel _ _

theorem ids_handleEof (c : Connection) (ch : Channel) : (c.handleEof ch).ids = c.ids := by
  unfold handleEof
  split
  · rfl
  · exact ids_setChannel _ _

theorem handleData_does (c : Connection) (ch : Channel) (chunk : List UInt8) {cause : Cause}
    (hg : ∀ f ∈ cause.frames, f.control = none) :
    Ids.Does c.ids cause (c.handleData ch chunk).1.ids (c.handleData ch chunk).2 := by
  unfold handleData
  split
  · exact Ids.Move.does (.quiet hg nofun)
  · split
    · exact close_does c ch.id hg
    · simp only [ids_setChannel]
      exact Ids.Move.does (.quiet hg nofun)

theorem openAckTimeout_does {c : Connection} {id : Nat} (h : id ∈ c.pendingOpens) :
    Ids.Does c.ids (.timer id) (c.openAckTimeout id).1.ids (c.openAckTimeout id).2 := by
  unfold openAckTimeout
  refine thenDrain_does ?_
  rw [ids_forgetStream, ids_deletePending]
  exact .givesUp id h

/-- The frame handler makes one move on the frame's own id. -/
theorem handleMessage_does (c : Connection) (f : Frame) :
    Ids.Does c.ids (.frame f) (c.handleMessage f).1.ids (c.handleMessage f).2 := by
  cases f with
  | ping =>
    refine Ids.Move.does (.quiet (by simp [Cause.frames, Frame.control]) ?_)
    simp [Frame.control, handleMessage]
  | pong => exact Ids.Move.does (.quiet (by simp [Cause.frames, Frame.control]) nofun)
  | openReq id =>
    simp only [handleMessage]
    split
    · exact Ids.Move.does (.refuses id)
    · split
      · exact Ids.Move.does (.refuses id)
      · rw [ids_addChannel]
        exact Ids.Move.does (.accepts id)
  | openAck id =>
    simp only [handleMessage]
    split
    · rename_i hid
      rw [ids_addChannel, ids_deletePending]
      exact Ids.Move.does (.getsAck id hid)
    · rename_i hid
      exact Ids.Move.does (.ignoresAck id hid)
  | openFail id =>
    simp only [handleMessage]
    split
    · rename_i hid
      refine thenDrain_does ?_
      rw [ids_forgetStream, ids_deletePending]
      exact .getsFail id hid
    · rename_i hid
      exact Ids.Move.does (.ignoresFail id hid)
  | data id payload =>
    simp only [handleMessage, handleChannelFrame]
    split
    · exact Ids.Move.does (.quiet (by simp [Cause.frames, Frame.control]) nofun)
    · exact handleData_does c _ payload (by simp [Cause.frames, Frame.control])
  | windowAdjust id n =>
    simp only [handleMessage, handleChannelFrame]
    split
    · exact Ids.Move.does (.quiet (by simp [Cause.frames, Frame.control]) nofun)
    · simp only [handleWindowAdjust, ids_setChannel]
      exact Ids.Move.does (.quiet (by simp [Cause.frames, Frame.control]) nofun)
  | eof id =>
    simp only [handleMessage, handleChannelFrame]
    split
    · exact Ids.Move.does (.quiet (by simp [Cause.frames, Frame.control]) nofun)
    · simp only [ids_handleEof]
      exact Ids.Move.does (.quiet (by simp [Cause.frames, Frame.control]) nofun)
  | close id =>
    simp only [handleMessage, handleChannelFrame]
    split
    · rename_i hnone
      -- no channel to drop: the filter keeps every id
      have hkeep : c.ids.channels.filter (· ≠ id) = c.ids.channels := by
        rw [List.filter_eq_self]
        intro i hi
        have hne : i ≠ id := fun h => getChannel_none hnone (h ▸ hi)
        simpa using hne
      have hmove := Ids.Move.getsClose (s := c.ids) id
      rw [hkeep] at hmove
      exact hmove.does
    · refine thenDrain_does ?_
      rw [ids_forgetStream, ids_deleteChannel]
      exact .getsClose id

end Connection

/-! ## The agreement on one id -/

/-- The view of one channel id: `o` may allocate it, `a` is the other end. -/
def ChannelView.of (id : Nat) (o a : Ids) (fwd back : List Frame) : ChannelView :=
  { asked := id ∈ o.pending, opener := id ∈ o.channels, acceptor := id ∈ a.channels,
    fwd := controls id fwd, back := controls id back }

namespace Ids

/-- Every id an end waits for, and every id it is going to allocate, is its own. -/
structure Own (s : Ids) : Prop where
  next : s.parity.Owns s.next
  pending : ∀ id ∈ s.pending, s.parity.Owns id

theorem Asks.own {s s' : Ids} {out : List Frame} (h : Asks s s' out) (hs : s.Own) :
    s'.Own ∧ s'.parity = s.parity := by
  induction h with
  | done s => exact ⟨hs, rfl⟩
  | ask id next _ _ hown _ ih =>
    obtain ⟨hid, hnext⟩ := hown hs.next
    refine ih ⟨hnext, fun i hi => ?_⟩
    rcases List.mem_append.1 hi with hi | hi
    · exact hs.pending i hi
    · rw [List.mem_singleton.1 hi]
      exact hid

theorem Move.own {s s' : Ids} {cause : Cause} {out : List Frame} (h : Move s cause s' out)
    (hs : s.Own) : s'.Own ∧ s'.parity = s.parity := by
  have hfilter : ∀ id, ∀ i ∈ s.pending.filter (· ≠ id), s.parity.Owns i :=
    fun id i hi => hs.pending i (List.mem_of_mem_filter hi)
  cases h with
  | quiet => exact ⟨hs, rfl⟩
  | closes id => exact ⟨⟨hs.next, hs.pending⟩, rfl⟩
  | givesUp id => exact ⟨⟨hs.next, hfilter id⟩, rfl⟩
  | getsClose id => exact ⟨⟨hs.next, hs.pending⟩, rfl⟩
  | getsAck id => exact ⟨⟨hs.next, hfilter id⟩, rfl⟩
  | getsFail id => exact ⟨⟨hs.next, hfilter id⟩, rfl⟩
  | ignoresAck => exact ⟨hs, rfl⟩
  | ignoresFail => exact ⟨hs, rfl⟩
  | accepts id => exact ⟨⟨hs.next, hs.pending⟩, rfl⟩
  | refuses => exact ⟨hs, rfl⟩

/-- What keeps the two ends in agreement on the ids of the end that moves: its
timer fires for a channel that the peer neither holds nor is going to be asked
for, and an answer it takes is the only one in flight, to a request that is not. -/
def Safe (s a : Ids) (fwd back : List Frame) : Cause → Prop
  | .timer id => id ∉ a.channels ∧ .openReq id ∉ fwd
  | .frame (.openAck id) | .frame (.openFail id) => id ∈ s.pending →
    .openReq id ∉ fwd ∧ .openAck id ∉ back ∧ .openFail id ∉ back
  | _ => True

variable {s s' o a : Ids} {id : Nat} {fwd back out : List Frame} {cause : Cause}

theorem Asks.opener (h : Asks s s' out) (hv : (ChannelView.of id s a fwd back).Agreed) :
    (ChannelView.of id s' a (fwd ++ out) back).Agreed := by
  induction h generalizing fwd with
  | done s => rwa [List.append_nil]
  | ask i next hc hp _ _ ih =>
    rw [List.append_cons]
    refine ih ?_
    by_cases hi : i = id
    · subst hi
      refine (hv.ask hp hc).congr ?_ Iff.rfl Iff.rfl ?_ rfl
      · simp [ChannelView.of]
      · simp [ChannelView.of, controls_cons_of (f := .openReq i) rfl]
    · refine hv.congr ?_ Iff.rfl Iff.rfl ?_ rfl
      · simp [ChannelView.of, Ne.symm hi]
      · simp [ChannelView.of, controls_cons_ne (f := .openReq i) rfl hi]

theorem Asks.acceptor (h : Asks s s' out) (hs : s.Own) (hid : ¬ s.parity.Owns id)
    (hv : (ChannelView.of id o s fwd back).Agreed) :
    (ChannelView.of id o s' fwd (back ++ out)).Agreed := by
  induction h generalizing back with
  | done s => rwa [List.append_nil]
  | ask i next hc hp hown rest ih =>
    obtain ⟨hi, hnext⟩ := hown hs.next
    have hne : i ≠ id := fun h => hid (h ▸ hi)
    rw [List.append_cons]
    refine ih ⟨hnext, fun j hj => ?_⟩ hid ?_
    · rcases List.mem_append.1 hj with hj | hj
      · exact hs.pending j hj
      · rw [List.mem_singleton.1 hj]
        exact hi
    · refine hv.congr Iff.rfl Iff.rfl Iff.rfl rfl ?_
      simp [ChannelView.of, controls_cons_ne (f := .openReq i) rfl hne]

/-- A move seen from the end that allocates the id. -/
theorem Move.opener (h : Move s cause s' out) (hsafe : Safe s a fwd back cause)
    (hv : (ChannelView.of id s a fwd (cause.frames ++ back)).Agreed) :
    (ChannelView.of id s' a (fwd ++ out) back).Agreed := by
  cases h with
  | quiet hg ho =>
    refine hv.congr Iff.rfl Iff.rfl Iff.rfl ?_ ?_
    · simp [ChannelView.of, controls_quiet ho]
    · simp [ChannelView.of, controls_quiet hg]
  | closes i hg hi =>
    by_cases hid : i = id
    · subst hid
      refine (hv.openerCloses hi).congr Iff.rfl ?_ Iff.rfl ?_ ?_
      · simp [ChannelView.of]
      · simp [ChannelView.of, controls_cons_of (f := .close i) rfl]
      · simp [ChannelView.of, controls_quiet hg]
    · refine hv.congr Iff.rfl ?_ Iff.rfl ?_ ?_
      · simp [ChannelView.of, Ne.symm hid]
      · simp [ChannelView.of, controls_cons_ne (f := .close i) rfl hid]
      · simp [ChannelView.of, controls_quiet hg]
  | givesUp i hi =>
    by_cases hid : i = id
    · subst hid
      refine (hv.giveUp hi hsafe.1 ?_).congr ?_ Iff.rfl Iff.rfl ?_ rfl
      · exact fun hm => hsafe.2 ((mem_controls_of (f := .openReq i) rfl fwd).1 hm)
      · simp [ChannelView.of]
      · simp [ChannelView.of]
    · refine hv.congr ?_ Iff.rfl Iff.rfl ?_ rfl
      · simp [ChannelView.of, Ne.symm hid]
      · simp [ChannelView.of]
  | getsClose i =>
    by_cases hid : i = id
    · subst hid
      refine (hv.openerGetsClose (controls_cons_of (f := .close i) rfl back)).congr
        Iff.rfl ?_ Iff.rfl ?_ rfl
      · simp [ChannelView.of]
      · simp [ChannelView.of]
    · refine hv.congr Iff.rfl ?_ Iff.rfl ?_ ?_
      · simp [ChannelView.of, Ne.symm hid]
      · simp [ChannelView.of]
      · exact (controls_cons_ne (f := .close i) rfl hid back).symm
  | getsAck i hi =>
    by_cases hid : i = id
    · subst hid
      obtain ⟨hreq, hack, hfail⟩ := hsafe hi
      refine (hv.openerGetsAck hi (controls_cons_of (f := .openAck i) rfl back) ?_ ?_ ?_).congr
        ?_ ?_ Iff.rfl ?_ rfl
      · exact fun hm => hreq ((mem_controls_of (f := .openReq i) rfl fwd).1 hm)
      · exact fun hm => hack ((mem_controls_of (f := .openAck i) rfl back).1 hm)
      · exact fun hm => hfail ((mem_controls_of (f := .openFail i) rfl back).1 hm)
      · simp [ChannelView.of]
      · simp [ChannelView.of]
      · simp [ChannelView.of]
    · refine hv.congr ?_ ?_ Iff.rfl ?_ ?_
      · simp [ChannelView.of, Ne.symm hid]
      · simp [ChannelView.of, Ne.symm hid]
      · simp [ChannelView.of]
      · exact (controls_cons_ne (f := .openAck i) rfl hid back).symm
  | getsFail i hi =>
    by_cases hid : i = id
    · subst hid
      obtain ⟨hreq, hack, hfail⟩ := hsafe hi
      refine (hv.openerGetsFail hi (controls_cons_of (f := .openFail i) rfl back) ?_ ?_ ?_).congr
        ?_ Iff.rfl Iff.rfl ?_ rfl
      · exact fun hm => hreq ((mem_controls_of (f := .openReq i) rfl fwd).1 hm)
      · exact fun hm => hack ((mem_controls_of (f := .openAck i) rfl back).1 hm)
      · exact fun hm => hfail ((mem_controls_of (f := .openFail i) rfl back).1 hm)
      · simp [ChannelView.of]
      · simp [ChannelView.of]
    · refine hv.congr ?_ Iff.rfl Iff.rfl ?_ ?_
      · simp [ChannelView.of, Ne.symm hid]
      · simp [ChannelView.of]
      · exact (controls_cons_ne (f := .openFail i) rfl hid back).symm
  | ignoresAck i hi =>
    rw [List.append_nil]
    by_cases hid : i = id
    · subst hid
      exact hv.openerIgnores hi (by decide) (controls_cons_of (f := .openAck i) rfl back)
    · exact hv.congr Iff.rfl Iff.rfl Iff.rfl rfl
        (controls_cons_ne (f := .openAck i) rfl hid back).symm
  | ignoresFail i hi =>
    rw [List.append_nil]
    by_cases hid : i = id
    · subst hid
      exact hv.openerIgnores hi (by decide) (controls_cons_of (f := .openFail i) rfl back)
    · exact hv.congr Iff.rfl Iff.rfl Iff.rfl rfl
        (controls_cons_ne (f := .openFail i) rfl hid back).symm
  | accepts i =>
    -- the peer never asks for an id this end allocates
    have hid : i ≠ id := by
      rintro rfl
      refine hv.back_mem ((mem_controls_of (f := .openReq i) rfl _).2 ?_)
      exact List.mem_cons_self
    refine hv.congr Iff.rfl ?_ Iff.rfl ?_ ?_
    · simp [ChannelView.of, Ne.symm hid]
    · simp [ChannelView.of, controls_cons_ne (f := .openAck i) rfl hid]
    · exact (controls_cons_ne (f := .openReq i) rfl hid back).symm
  | refuses i =>
    have hid : i ≠ id := by
      rintro rfl
      refine hv.back_mem ((mem_controls_of (f := .openReq i) rfl _).2 ?_)
      exact List.mem_cons_self
    refine hv.congr Iff.rfl Iff.rfl Iff.rfl ?_ ?_
    · simp [ChannelView.of, controls_cons_ne (f := .openFail i) rfl hid]
    · exact (controls_cons_ne (f := .openReq i) rfl hid back).symm

/-- A move seen from the other end of the id. -/
theorem Move.acceptor (h : Move s cause s' out) (hid : id ∉ s.pending)
    (hv : (ChannelView.of id o s (cause.frames ++ fwd) back).Agreed) :
    (ChannelView.of id o s' fwd (back ++ out)).Agreed := by
  cases h with
  | quiet hg ho =>
    refine hv.congr Iff.rfl Iff.rfl Iff.rfl ?_ ?_
    · simp [ChannelView.of, controls_quiet hg]
    · simp [ChannelView.of, controls_quiet ho]
  | closes i hg hi =>
    by_cases hne : i = id
    · subst hne
      refine (hv.acceptorCloses hi).congr Iff.rfl Iff.rfl ?_ ?_ ?_
      · simp [ChannelView.of]
      · simp [ChannelView.of, controls_quiet hg]
      · simp [ChannelView.of, controls_cons_of (f := .close i) rfl]
    · refine hv.congr Iff.rfl Iff.rfl ?_ ?_ ?_
      · simp [ChannelView.of, Ne.symm hne]
      · simp [ChannelView.of, controls_quiet hg]
      · simp [ChannelView.of, controls_cons_ne (f := .close i) rfl hne]
  | givesUp i hi =>
    refine hv.congr Iff.rfl Iff.rfl Iff.rfl rfl ?_
    simp [ChannelView.of]
  | getsClose i =>
    by_cases hne : i = id
    · subst hne
      refine (hv.acceptorGetsClose (controls_cons_of (f := .close i) rfl fwd)).congr
        Iff.rfl Iff.rfl ?_ rfl ?_
      · simp [ChannelView.of]
      · simp [ChannelView.of]
    · refine hv.congr Iff.rfl Iff.rfl ?_ ?_ ?_
      · simp [ChannelView.of, Ne.symm hne]
      · exact (controls_cons_ne (f := .close i) rfl hne fwd).symm
      · simp [ChannelView.of]
  | getsAck i hi =>
    have hne : i ≠ id := fun h => hid (h ▸ hi)
    refine hv.congr Iff.rfl Iff.rfl ?_ ?_ ?_
    · simp [ChannelView.of, Ne.symm hne]
    · exact (controls_cons_ne (f := .openAck i) rfl hne fwd).symm
    · simp [ChannelView.of]
  | getsFail i hi =>
    have hne : i ≠ id := fun h => hid (h ▸ hi)
    refine hv.congr Iff.rfl Iff.rfl Iff.rfl ?_ ?_
    · exact (controls_cons_ne (f := .openFail i) rfl hne fwd).symm
    · simp [ChannelView.of]
  | ignoresAck i hi =>
    -- no answer for this id comes from the end that allocates it
    have hne : i ≠ id := by
      rintro rfl
      have := hv.fwd_mem ((mem_controls_of (f := .openAck i) rfl _).2 List.mem_cons_self)
      simp at this
    rw [List.append_nil]
    exact hv.congr Iff.rfl Iff.rfl Iff.rfl (controls_cons_ne (f := .openAck i) rfl hne fwd).symm rfl
  | ignoresFail i hi =>
    have hne : i ≠ id := by
      rintro rfl
      have := hv.fwd_mem ((mem_controls_of (f := .openFail i) rfl _).2 List.mem_cons_self)
      simp at this
    rw [List.append_nil]
    exact hv.congr Iff.rfl Iff.rfl Iff.rfl (controls_cons_ne (f := .openFail i) rfl hne fwd).symm
      rfl
  | accepts i =>
    by_cases hne : i = id
    · subst hne
      refine (hv.accept (controls_cons_of (f := .openReq i) rfl fwd)).congr
        Iff.rfl Iff.rfl ?_ rfl ?_
      · simp [ChannelView.of]
      · simp [ChannelView.of, controls_cons_of (f := .openAck i) rfl]
    · refine hv.congr Iff.rfl Iff.rfl ?_ ?_ ?_
      · simp [ChannelView.of, Ne.symm hne]
      · exact (controls_cons_ne (f := .openReq i) rfl hne fwd).symm
      · simp [ChannelView.of, controls_cons_ne (f := .openAck i) rfl hne]
  | refuses i =>
    by_cases hne : i = id
    · subst hne
      refine (hv.refuse (controls_cons_of (f := .openReq i) rfl fwd)).congr
        Iff.rfl Iff.rfl Iff.rfl rfl ?_
      simp [ChannelView.of, controls_cons_of (f := .openFail i) rfl]
    · refine hv.congr Iff.rfl Iff.rfl Iff.rfl ?_ ?_
      · exact (controls_cons_ne (f := .openReq i) rfl hne fwd).symm
      · simp [ChannelView.of, controls_cons_ne (f := .openFail i) rfl hne]

/-- One handler call keeps the agreement on the ids of the end that moves. -/
theorem Does.opener (h : Does s cause s' out) (hsafe : Safe s a fwd back cause)
    (hv : (ChannelView.of id s a fwd (cause.frames ++ back)).Agreed) :
    (ChannelView.of id s' a (fwd ++ out) back).Agreed := by
  obtain ⟨s₁, out₁, out₂, hmove, hasks, rfl⟩ := h
  rw [← List.append_assoc]
  exact hasks.opener (hmove.opener hsafe hv)

/-- One handler call keeps the agreement on the ids of the other end. -/
theorem Does.acceptor (h : Does s cause s' out) (hs : s.Own) (hid : ¬ s.parity.Owns id)
    (hv : (ChannelView.of id o s (cause.frames ++ fwd) back).Agreed) :
    (ChannelView.of id o s' fwd (back ++ out)).Agreed := by
  obtain ⟨s₁, out₁, out₂, hmove, hasks, rfl⟩ := h
  obtain ⟨hs₁, hpar⟩ := hmove.own hs
  rw [← List.append_assoc]
  refine hasks.acceptor hs₁ (by rwa [hpar]) (hmove.acceptor (fun hm => hid ?_) hv)
  exact hs.pending id hm

theorem Does.own (h : Does s cause s' out) (hs : s.Own) : s'.Own ∧ s'.parity = s.parity := by
  obtain ⟨s₁, out₁, out₂, hmove, hasks, -⟩ := h
  obtain ⟨hs₁, hpar⟩ := hmove.own hs
  obtain ⟨hs', hpar'⟩ := hasks.own hs₁
  exact ⟨hs', hpar'.trans hpar⟩

end Ids

end Mux
end Mullion
