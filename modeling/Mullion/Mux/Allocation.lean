import Mullion.Mux.Moves

/-!
# The allocator near the end of the id space

`allocateChannelId` (`ssh-agent-mux.ts`) hands out the ids of one parity in turn and wraps to the
first one at the end of the 32-bit space. The search it makes for a free id, `pickFreeChannelId`,
wraps too, but to the id it started at. So near the end of the space it looks at the ids that are
left there again and again, and never at those below.

`iterate_stepId` has what the search looks at before it wraps. It looks often enough to pass every
id in use once, so while a connection is below its cap it finds an id that is free ahead of it, if
there is one, and nothing else (`pick_of_freeAhead`, `freeAhead_of_pick`). `allocateChannelId_iff`
is that for the allocator. The place is reached: in a run of opens that the peer refuses the ids go
up to the last one (`exists_openRefused`), where one occupied id is enough to exhaust the allocator
(`exhausted_at_the_end`).
-/

namespace Mullion
namespace Mux

/-- The greatest channel id a frame can carry. -/
def maxChannelId : Nat := 2 ^ 32 - 1

/-- The ids that a side of the parity may hand out. -/
structure Parity.Valid (p : Parity) (id : Nat) : Prop where
  owns : p.Owns id
  pos : 1 ≤ id
  le : id ≤ maxChannelId

namespace Parity

variable {p : Parity} {start id : Nat}

theorem valid_start (p : Parity) : p.Valid p.startChannelId := by
  cases p <;> exact ⟨rfl, by decide, by decide⟩

/-- A step from a valid id is a valid id, wherever it wraps to. -/
theorem Valid.stepId (hid : p.Valid id) (hstart : p.Valid start) :
    p.Valid (Connection.stepId start id) := by
  rw [Connection.stepId]
  split
  · exact hstart
  · rename_i hlast
    rw [lastChannelId] at hlast
    refine ⟨?_, by omega, ?_⟩
    · have hown : id % 2 = p.startChannelId % 2 := hid.owns
      show (id + 2) % 2 = p.startChannelId % 2
      omega
    · show id + 2 ≤ 2 ^ 32 - 1
      omega

/-- Two ids of one parity are an even number apart. -/
theorem Valid.exists_add (hstart : p.Valid start) (hid : p.Valid id) (hle : start ≤ id) :
    ∃ k, id = start + 2 * k := by
  have hs : start % 2 = p.startChannelId % 2 := hstart.owns
  have hi : id % 2 = p.startChannelId % 2 := hid.owns
  exact ⟨(id - start) / 2, by omega⟩

end Parity

namespace Connection

variable {c : Connection} {start id k : Nat}

theorem le_stepId (h : start ≤ id) : start ≤ stepId start id := by
  unfold stepId
  split
  · exact le_rfl
  · omega

/-- Up to the end of the id space the search looks at every second id. -/
theorem iterate_stepId (h : start + 2 * k ≤ maxChannelId) :
    (stepId start)^[k] start = start + 2 * k := by
  induction k with
  | zero => rfl
  | succ k ih =>
    have hk : start + 2 * (k + 1) ≤ 2 ^ 32 - 1 := h
    have hlast : ¬ lastChannelId ≤ start + 2 * k := by
      rw [lastChannelId]
      omega
    rw [Function.iterate_succ_apply', ih (by rw [maxChannelId]; omega), stepId, if_neg hlast]
    rfl

/-- What `allocateChannelId` is to do: give out a free id of its own parity, and stay
ready for the next call. -/
structure Allocates (c : Connection) (id : Nat) (c' : Connection) : Prop where
  eq : c.allocateChannelId = some (id, c')
  valid : c.channelIdParity.Valid id
  free : id ∉ c.combinedOccupiedIds
  next : c.channelIdParity.Valid c'.nextChannelId

/-- An id from `nextChannelId` on that the side may hand out and does not use. -/
def FreeAhead (c : Connection) : Prop :=
  ∃ id, c.channelIdParity.Valid id ∧ c.nextChannelId ≤ id ∧ id ∉ c.combinedOccupiedIds

/-- What the search finds lies ahead of `nextChannelId`. -/
theorem freeAhead_of_pick (hnext : c.channelIdParity.Valid c.nextChannelId) {n : Nat}
    (h : pickFreeChannelId c.combinedOccupiedIds c.nextChannelId n c.nextChannelId = some id) :
    c.channelIdParity.Valid id ∧ c.nextChannelId ≤ id ∧ id ∉ c.combinedOccupiedIds := by
  rw [pickFreeChannelId_eq_probe] at h
  have hahead : c.channelIdParity.Valid id ∧ c.nextChannelId ≤ id :=
    Probe.probe_invariant (P := fun id => c.channelIdParity.Valid id ∧ c.nextChannelId ≤ id)
      (fun _ ha => ⟨ha.1.stepId hnext, le_stepId ha.2⟩) ⟨hnext, le_rfl⟩ h
  exact ⟨hahead.1, hahead.2, Probe.probe_free h⟩

/-- The cap on the channels leaves the search enough checks to get to a free id. -/
theorem pick_of_freeAhead (hnext : c.channelIdParity.Valid c.nextChannelId)
    (hroom : c.combinedOccupiedIds.toFinset.card < c.maxChannels) (hfree : c.FreeAhead) :
    ∃ id, pickFreeChannelId c.combinedOccupiedIds c.nextChannelId c.maxChannels
      c.nextChannelId = some id := by
  obtain ⟨id, hid, hle, hfree⟩ := hfree
  obtain ⟨k, rfl⟩ := hnext.exists_add hid hle
  rw [pickFreeChannelId_eq_probe]
  have hiter : ∀ i ≤ k, (stepId c.nextChannelId)^[i] c.nextChannelId = c.nextChannelId + 2 * i :=
    fun i hi => iterate_stepId (le_trans (by omega) hid.le)
  refine Probe.probe_isSome_of_card (fun _ => List.mem_toFinset.2) hroom.le ?_ (k := k) ?_
  · rwa [hiter k le_rfl]
  · intro i hi j hj hij
    have hij : c.nextChannelId + 2 * i = c.nextChannelId + 2 * j :=
      (hiter i (Set.mem_Iio.1 hi).le).symm.trans (hij.trans (hiter j (Set.mem_Iio.1 hj).le))
    omega

/-- Whatever the allocator gives out was free ahead of it. -/
theorem freeAhead_of_allocates (hnext : c.channelIdParity.Valid c.nextChannelId)
    {c' : Connection} (h : c.Allocates id c') : c.FreeAhead := by
  have heq := h.eq
  unfold allocateChannelId at heq
  cases hpick : pickFreeChannelId c.combinedOccupiedIds c.nextChannelId c.maxChannels
      c.nextChannelId with
  | none => rw [hpick] at heq; cases heq
  | some r => exact ⟨r, freeAhead_of_pick hnext hpick⟩

/-- A connection with nothing open whose next id is `id`. -/
def idleAt (p : Parity) (id : Nat) : Connection :=
  { createMuxConnection p with nextChannelId := id }

/-- **Allocation near the wrap.** With fewer ids in use than the cap allows,
`allocateChannelId` gives out a free id of its parity exactly when one is free from
`nextChannelId` up to the end of the id space: it never looks at the ids below. -/
theorem allocateChannelId_iff (hnext : c.channelIdParity.Valid c.nextChannelId)
    (hroom : c.combinedOccupiedIds.toFinset.card < c.maxChannels) :
    (∃ id c', c.Allocates id c') ↔ c.FreeAhead := by
  constructor
  · rintro ⟨id, c', hall⟩
    exact freeAhead_of_allocates hnext hall
  · intro hfree
    obtain ⟨id, hpick⟩ := pick_of_freeAhead hnext hroom hfree
    obtain ⟨hid, -, hnot⟩ := freeAhead_of_pick hnext hpick
    refine ⟨id, { c with nextChannelId := stepId c.channelIdParity.startChannelId id },
      ?_, hid, hnot, hid.stepId c.channelIdParity.valid_start⟩
    rw [allocateChannelId, hpick]

/-- The last id but one is in use and the last one is free. -/
theorem allocateChannelId_iff_last_id :
    ∃ id c', Allocates { idleAt .odd 0xfffffffd with pendingOpens := [0xfffffffd] } id c' :=
  (allocateChannelId_iff (c := { idleAt .odd 0xfffffffd with pendingOpens := [0xfffffffd] })
    ⟨rfl, by decide, by decide⟩ (by decide)).2
    ⟨0xffffffff, ⟨rfl, by decide, by decide⟩, by decide, by decide⟩

/-! ## The end of the id space is reached -/

/-- A call of `openChannel` that the peer refuses. -/
def openRefused (c : Connection) : Connection :=
  ((c.openChannel {}).1.handleMessage (.openFail c.nextChannelId)).1

theorem pick_of_idle (n id : Nat) : pickFreeChannelId [] id n id = some id := by
  cases n <;> rfl

theorem openRefused_idleAt (p : Parity) (id : Nat) :
    (idleAt p id).openRefused = idleAt p (stepId p.startChannelId id) := by
  have halloc : (idleAt p id).allocateChannelId =
      some (id, idleAt p (stepId p.startChannelId id)) := by
    have hpick : pickFreeChannelId (idleAt p id).combinedOccupiedIds (idleAt p id).nextChannelId
        (idleAt p id).maxChannels (idleAt p id).nextChannelId = some id := pick_of_idle _ id
    rw [allocateChannelId, hpick]
    rfl
  have hopen : ((idleAt p id).openChannel {}).1 =
      { idleAt p (stepId p.startChannelId id) with pendingOpens := [id] } := by
    show ((idleAt p id).startOpen false false).1 = _
    rw [startOpen, halloc]
    rfl
  rw [openRefused, hopen]
  simp [handleMessage, idleAt, createMuxConnection, deletePending, forgetStream, thenDrain,
    drainSlotWaiters, drainLoop]

/-- Refused calls alone take the allocator to any valid id. -/
theorem exists_openRefused {p : Parity} (hid : p.Valid id) :
    ∃ n, openRefused^[n] (createMuxConnection p) = idleAt p id := by
  have hstart : p.startChannelId ≤ id := by
    have hown : id % 2 = p.startChannelId % 2 := hid.owns
    have hpos := hid.pos
    cases p <;> simp only [Parity.startChannelId] at hown ⊢ <;> omega
  obtain ⟨k, rfl⟩ := p.valid_start.exists_add hid hstart
  refine ⟨k, ?_⟩
  have hrun : ∀ k, openRefused^[k] (createMuxConnection p) =
      idleAt p ((stepId p.startChannelId)^[k] p.startChannelId) := by
    intro k
    induction k with
    | zero => rfl
    | succ k ih =>
      rw [Function.iterate_succ_apply', ih, openRefused_idleAt, Function.iterate_succ_apply']
  rw [hrun, iterate_stepId hid.le]

/-- **One occupied id exhausts the allocator.** After enough refused calls the next id is
the last odd one, the peer opens a channel with that id, and the next call throws with
one channel of 256 open. -/
theorem exhausted_at_the_end :
    (∃ n, openRefused^[n] (createMuxConnection .odd) = idleAt .odd maxChannelId) ∧
      let c := ((idleAt .odd maxChannelId).handleMessage (.openReq maxChannelId)).1
      c.channelIdParity.Valid c.nextChannelId ∧
        c.combinedOccupiedIds.toFinset.card < c.maxChannels ∧
        c.maxChannels < 2 ^ 31 ∧ ¬ ∃ id c', c.Allocates id c' := by
  have hvalid : Parity.odd.Valid maxChannelId := ⟨rfl, by decide, by decide⟩
  refine ⟨exists_openRefused hvalid, hvalid, by decide, by decide, ?_⟩
  rintro ⟨id, c', hall⟩
  obtain ⟨r, hr, hle, hfree⟩ := freeAhead_of_allocates hvalid hall
  have heq : r = maxChannelId := le_antisymm hr.le hle
  exact hfree (heq ▸ List.mem_append_left _ (List.mem_singleton_self _))

end Connection

end Mux
end Mullion
