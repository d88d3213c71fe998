import Mullion.Lib.Run
import Mullion.Mux.Moves

/-!
# The budget of one end

One end of a connection under any sequence of calls, timers and frames, from a peer that may send
anything. It has caps on its channels, on the opens it has asked for and on the calls that wait, and
a call may wait only for want of a slot. What makes that hard is that a handler calls back into its
consumer, who may call the connection again from inside the callback.

So a handler runs up to its first callback (`End.startDrain`, `End.openChannel`, `End.closeChannel`
and so on) and leaves the rest of its work as tasks on an agenda; what the consumer calls runs
first, and `End.step` is one event or the return of a callback. The caps are counts, and each
operation moves them by one (`Caps`). That a slot is not left free while a call waits is kept by a
promise: either no slot is free, or a task on the agenda will drain the queue (`Inv`). `Calm` rules
out the callbacks that take a slot others wait for, and `budget_kept` is the result for every run of
calm steps. What a consumer can do otherwise is shown by `waits_for_free_slot`.
-/

namespace Mullion
namespace Mux

/-! ## The caps of a connection -/

/-- The two connections have the same slots, streams and queue. -/
structure SameSlots (c c' : Connection) : Prop where
  ids : c'.channelIds = c.channelIds
  pending : c'.pendingOpens = c.pendingOpens
  streamIds : c'.streamIds = c.streamIds
  previewIds : c'.previewIds = c.previewIds
  waiters : c'.slotWaiters = c.slotWaiters
  closed : c'.closed = c.closed
  maxChannels : c'.maxChannels = c.maxChannels
  maxStreams : c'.maxStreamChannels = c.maxStreamChannels
  maxPreviews : c'.maxPreviewChannels = c.maxPreviewChannels

def OpenOutcome.isOpening : OpenOutcome → Bool
  | .opening _ => true
  | _ => false

namespace Connection

variable (c : Connection)

theorem slotsInUse_eq : c.slotsInUse = c.channelIds.length + c.pendingOpens.length := by
  rw [slotsInUse, channelIds, List.length_map]

theorem sameSlots_refl : SameSlots c c := ⟨rfl, rfl, rfl, rfl, rfl, rfl, rfl, rfl, rfl⟩

theorem sameSlots_setChannel (ch : Channel) : SameSlots c (c.setChannel ch) :=
  ⟨congrArg Ids.channels (c.ids_setChannel ch), rfl, rfl, rfl, rfl, rfl, rfl, rfl, rfl⟩

theorem sameSlots_onData (id : Nat) : SameSlots c (c.onData id) := by
  rw [onData]
  split
  · exact c.sameSlots_refl
  · exact c.sameSlots_setChannel _

theorem sameSlots_acknowledgeConsumed (id n : Nat) :
    SameSlots c (c.acknowledgeConsumed id n).1 := by
  rw [acknowledgeConsumed]
  split
  · exact c.sameSlots_refl
  · simp only []
    split
    · exact c.sameSlots_setChannel _
    · exact c.sameSlots_setChannel _

theorem sameSlots_send {c' : Connection} {id : Nat} {chunk : List UInt8} {out : List Frame}
    (h : c.send id chunk = some (c', out)) : SameSlots c c' := by
  rw [send] at h
  split at h
  · cases h
  · split at h
    · cases h
    · cases h
      exact c.sameSlots_setChannel _

/-- A call of `openChannel` is refused, waits, or takes a free slot under a new id. -/
theorem openChannel_cases (opts : OpenChannelOptions) :
    (c.openChannel opts = (c, [], (c.openChannel opts).2.2) ∧
      (c.openChannel opts).2.2 ≠ .waiting ∧ (c.openChannel opts).2.2.isOpening = false) ∨
    ((c.openChannel opts).2.2 = .waiting ∧ opts.waitTimeoutMs ≠ 0 ∧
      c.closed = false ∧ c.maxChannels ≤ c.slotsInUse ∧
      ((opts.stream || opts.preview) = true → c.streamsInUse < c.maxStreamChannels) ∧
      (opts.preview = true → c.previewsInUse < c.maxPreviewChannels)) ∨
    (∃ id next, c.openChannel opts =
      ({ c with
        nextChannelId := next
        pendingOpens := c.pendingOpens ++ [id]
        streamIds := if (opts.stream || opts.preview) = true then c.streamIds ++ [id]
          else c.streamIds
        previewIds := if opts.preview = true then c.previewIds ++ [id] else c.previewIds },
        [.openReq id], .opening id) ∧
      c.closed = false ∧ c.slotsInUse < c.maxChannels ∧ id ∉ c.pendingOpens ∧
      ((opts.stream || opts.preview) = true → c.streamsInUse < c.maxStreamChannels) ∧
      (opts.preview = true → c.previewsInUse < c.maxPreviewChannels)) := by
  unfold openChannel
  simp only []
  split
  · exact .inl ⟨rfl, nofun, rfl⟩
  case isFalse hclosed =>
    have hclosed := Bool.eq_false_iff.2 hclosed
    split
    · exact .inl ⟨rfl, nofun, rfl⟩
    case isFalse hpreview =>
      have hpreview : opts.preview = true → c.previewsInUse < c.maxPreviewChannels :=
        fun h => Nat.not_le.1 fun hle => hpreview ⟨h, hle⟩
      split
      · exact .inl ⟨rfl, nofun, rfl⟩
      case isFalse hstream =>
        have hstream : (opts.stream || opts.preview) = true →
            c.streamsInUse < c.maxStreamChannels :=
          fun h => Nat.not_le.1 fun hle => hstream ⟨h, hle⟩
        split
        case isTrue hfull =>
          split
          · exact .inl ⟨rfl, nofun, rfl⟩
          case isFalse hwait =>
            split
            · exact .inl ⟨rfl, nofun, rfl⟩
            · exact .inr (.inl ⟨rfl, hwait, hclosed, hfull, hstream, hpreview⟩)
        case isFalse hfree =>
          unfold startOpen allocateChannelId
          cases hpick : pickFreeChannelId c.combinedOccupiedIds c.nextChannelId c.maxChannels
              c.nextChannelId with
          | none => exact .inl ⟨rfl, nofun, rfl⟩
          | some id =>
            have hnew : id ∉ c.pendingOpens := fun h =>
              (pickFreeChannelId_spec hpick).1 (List.mem_append_right _ h)
            exact .inr (.inr ⟨id, _, rfl, hclosed, Nat.not_le.1 hfree, hnew, hstream, hpreview⟩)

end Connection

/-- The caps of one connection. -/
structure Caps (c : Connection) : Prop where
  nodup : c.pendingOpens.Nodup
  slots : c.slotsInUse ≤ c.maxChannels
  known : ∀ id ∈ c.streamIds, id ∈ c.channelIds ∨ id ∈ c.pendingOpens
  streams : c.streamsInUse ≤ c.maxStreamChannels
  previews : c.previewsInUse ≤ c.maxPreviewChannels

/-- There is room for a queued call, and no slot for it. -/
structure Room (c : Connection) (w : SlotWaiter) : Prop where
  full : c.maxChannels ≤ c.slotsInUse
  stream : w.stream = true → c.streamsInUse < c.maxStreamChannels
  preview : w.preview = true → c.previewsInUse < c.maxPreviewChannels

section Caps

variable {c c' : Connection}

theorem SameSlots.caps (h : SameSlots c c') (hc : Caps c) : Caps c' := by
  constructor
  · rw [h.pending]
    exact hc.nodup
  · rw [c'.slotsInUse_eq, h.ids, h.pending, ← c.slotsInUse_eq, h.maxChannels]
    exact hc.slots
  · rw [h.streamIds, h.ids, h.pending]
    exact hc.known
  · rw [Connection.streamsInUse, h.streamIds, h.waiters, h.maxStreams]
    exact hc.streams
  · rw [Connection.previewsInUse, h.previewIds, h.waiters, h.maxPreviews]
    exact hc.previews

theorem SameSlots.slotsInUse (h : SameSlots c c') : c'.slotsInUse = c.slotsInUse := by
  rw [c'.slotsInUse_eq, h.ids, h.pending, ← c.slotsInUse_eq]

theorem SameSlots.room (h : SameSlots c c') {w : SlotWaiter} (hw : Room c w) : Room c' w := by
  constructor
  · rw [h.slotsInUse, h.maxChannels]
    exact hw.full
  · rw [Connection.streamsInUse, h.streamIds, h.waiters, h.maxStreams]
    exact hw.stream
  · rw [Connection.previewsInUse, h.previewIds, h.waiters, h.maxPreviews]
    exact hw.preview

/-- Calls leave the queue. -/
theorem Caps.shorten (hc : Caps c) {ws : List SlotWaiter} (hws : ws.Sublist c.slotWaiters) :
    Caps { c with slotWaiters := ws } := by
  refine ⟨hc.nodup, hc.slots, hc.known, ?_, ?_⟩
  · have hlen := (hws.filter SlotWaiter.stream).length_le
    have hcap := hc.streams
    unfold Connection.streamsInUse at hcap ⊢
    simp only []
    omega
  · have hlen := (hws.filter SlotWaiter.preview).length_le
    have hcap := hc.previews
    unfold Connection.previewsInUse at hcap ⊢
    simp only []
    omega

/-- A call joins the queue. -/
theorem Caps.enqueue (hc : Caps c) {w : SlotWaiter} (hw : Room c w) :
    Caps { c with slotWaiters := c.slotWaiters ++ [w] } := by
  have hsingle : ∀ p : SlotWaiter → Bool, ([w].filter p).length = if p w then 1 else 0 := by
    intro p
    rw [List.filter_singleton]
    cases p w <;> rfl
  refine ⟨hc.nodup, hc.slots, hc.known, ?_, ?_⟩
  · have hcap := hc.streams
    have hroom := hw.stream
    unfold Connection.streamsInUse at hcap hroom ⊢
    simp only [List.filter_append, List.length_append, hsingle]
    split
    case isTrue h =>
      have hlt := hroom h
      omega
    case isFalse => omega
  · have hcap := hc.previews
    have hroom := hw.preview
    unfold Connection.previewsInUse at hcap hroom ⊢
    simp only [List.filter_append, List.length_append, hsingle]
    split
    case isTrue h =>
      have hlt := hroom h
      omega
    case isFalse => omega

theorem filter_ne_length_le (l : List Nat) (id : Nat) : (l.filter (· ≠ id)).length ≤ l.length :=
  List.length_filter_le _ _

/-- An id leaves the streams and the maps. -/
theorem Caps.forget (hc : Caps c) {id : Nat} {channels : List Channel} {pendingOpens : List Nat}
    (hnodup : pendingOpens.Nodup) (hslots : channels.length + pendingOpens.length ≤ c.slotsInUse)
    (hkeep : ∀ i, i ≠ id → i ∈ c.channelIds ∨ i ∈ c.pendingOpens →
      i ∈ channels.map Channel.id ∨ i ∈ pendingOpens) :
    Caps (Connection.forgetStream { c with channels, pendingOpens } id) := by
  refine ⟨hnodup, Nat.le_trans hslots hc.slots, fun i hi => ?_, ?_, ?_⟩
  · obtain ⟨hi, hne⟩ := List.mem_filter.1 hi
    exact hkeep i (of_decide_eq_true hne) (hc.known i hi)
  · refine Nat.le_trans (Nat.add_le_add_right ?_ _) hc.streams
    exact filter_ne_length_le _ _
  · refine Nat.le_trans (Nat.add_le_add_right ?_ _) hc.previews
    exact filter_ne_length_le _ _

theorem Caps.dropChannel (hc : Caps c) (id : Nat) : Caps ((c.deleteChannel id).forgetStream id) := by
  refine hc.forget hc.nodup (Nat.add_le_add_right (List.length_filter_le _ _) _) fun i hne hi => ?_
  refine hi.imp_left fun hi => ?_
  obtain ⟨ch, hch, rfl⟩ := List.mem_map.1 hi
  exact List.mem_map_of_mem (List.mem_filter.2 ⟨hch, decide_eq_true hne⟩)

theorem Caps.dropPending (hc : Caps c) (id : Nat) : Caps ((c.deletePending id).forgetStream id) := by
  refine hc.forget (hc.nodup.filter _) (Nat.add_le_add_left (filter_ne_length_le _ _) _)
    fun i hne hi => ?_
  exact hi.imp_right fun hi => List.mem_filter.2 ⟨hi, decide_eq_true hne⟩

/-- A call that gets a slot keeps the caps. -/
theorem Caps.openChannel (hc : Caps c) (opts : OpenChannelOptions)
    (hw : (c.openChannel opts).2.2 ≠ .waiting) : Caps (c.openChannel opts).1 := by
  rcases c.openChannel_cases opts with ⟨heq, -, -⟩ | ⟨hwait, -⟩ |
    ⟨id, next, heq, -, hfree, hnew, hstream, hpreview⟩
  · rw [heq]
    exact hc
  · exact absurd hwait hw
  · rw [heq]
    refine ⟨?_, ?_, fun i hi => ?_, ?_, ?_⟩
    · refine List.nodup_append.2 ⟨hc.nodup, List.nodup_singleton id, ?_⟩
      rintro a ha b hb rfl
      obtain rfl := List.mem_singleton.1 hb
      exact hnew ha
    · show c.channels.length + (c.pendingOpens ++ [id]).length ≤ c.maxChannels
      rw [List.length_append]
      exact hfree
    · have hold : i ∈ c.streamIds ∨ i = id := by
        simp only [] at hi
        split at hi
        · rcases List.mem_append.1 hi with hi | hi
          · exact .inl hi
          · exact .inr (List.mem_singleton.1 hi)
        · exact .inl hi
      rcases hold with hi | rfl
      · exact (hc.known i hi).imp_right fun hi => List.mem_append_left _ hi
      · exact .inr (List.mem_append_right _ List.mem_cons_self)
    · have hcap := hc.streams
      unfold Connection.streamsInUse at hcap hstream ⊢
      simp only []
      split
      case isTrue h =>
        have hlt := hstream h
        rw [List.length_append, List.length_singleton]
        omega
      case isFalse => exact hcap
    · have hcap := hc.previews
      unfold Connection.previewsInUse at hcap hpreview ⊢
      simp only []
      split
      case isTrue h =>
        have hlt := hpreview h
        rw [List.length_append, List.length_singleton]
        omega
      case isFalse => exact hcap

end Caps

namespace OneEnd

/-! ## Handlers and their callbacks -/

/-- What a handler still has to do when the callback it has called returns. -/
inductive Task
  /-- After `onWaiting`: the call joins the queue. -/
  | enqueue (w : SlotWaiter)
  /-- After `onSlotAcquired`: the call is replayed, and the loop of `drainSlotWaiters` goes
  on. -/
  | replay (w : SlotWaiter)
  /-- After the close listeners of a channel that the peer closed: `drainSlotWaiters`. -/
  | drain
  /-- After the close listeners of a channel that `close()` closed: the next channel. -/
  | closeNext
  deriving DecidableEq, Repr

/-- One end. -/
structure End where
  conn : Connection
  /-- What the handlers under way still have to do, the innermost first. -/
  agenda : List Task := []
  /-- Names the next queued call. -/
  nextKey : Nat := 0
  sent : List Frame := []
  /-- A call got a slot before one that had waited for it. -/
  overtaken : Bool := false
  deriving DecidableEq, Repr

/-- What can happen at one end. -/
inductive Event
  | openChannel (opts : OpenChannelOptions)
  | closeChannel (id : Nat)
  | onData (id : Nat)
  | send (id : Nat) (chunk : List UInt8)
  | acknowledgeConsumed (id byteCount : Nat)
  /-- `close()` of the connection. -/
  | closeConnection
  | teardown
  /-- The signal of a queued call. -/
  | abort (key : Nat)
  | frame (f : Frame)
  | openAckTimeout (id : Nat)
  | waitTimeout (key : Nat)
  /-- The callback of the innermost handler returns. -/
  | resume
  deriving DecidableEq, Repr

def Task.isReplay : Task → Bool
  | .replay _ => true
  | _ => false

/-- The task ends in `drainSlotWaiters`. -/
def Task.drains : Task → Bool
  | .replay _ | .drain => true
  | _ => false

namespace End

/-- A call waits for a slot, or is being handed one. -/
def someoneWaits (s : End) : Bool := !s.conn.slotWaiters.isEmpty || s.agenda.any Task.isReplay

/-- `drainSlotWaiters` up to the callback of the first call that gets a slot. -/
def startDrain (s : End) : End :=
  if s.conn.closed then s
  else
    match s.conn.slotWaiters with
    | [] => s
    | w :: ws =>
      if s.conn.slotsInUse < s.conn.maxChannels then
        { s with conn := { s.conn with slotWaiters := ws }, agenda := .replay w :: s.agenda }
      else s

/-- `teardown`. -/
def teardown (s : End) : End :=
  if s.conn.closed then s
  else { s with conn := { s.conn with
    closed := true
    channels := []
    pendingOpens := []
    streamIds := []
    previewIds := []
    slotWaiters := [] } }

/-- `openChannel`, up to `onWaiting` when the call has to wait. -/
def openChannel (s : End) (opts : OpenChannelOptions) : End :=
  match s.conn.openChannel opts with
  | (_, _, .waiting) =>
    let w : SlotWaiter :=
      { key := s.nextKey, stream := opts.stream || opts.preview, preview := opts.preview }
    { s with nextKey := s.nextKey + 1, agenda := .enqueue w :: s.agenda }
  | (c, out, .opening _) =>
    { s with conn := c, sent := s.sent ++ out, overtaken := s.overtaken || s.someoneWaits }
  | (c, out, _) => { s with conn := c, sent := s.sent ++ out }

/-- The channel leaves the maps. -/
def dropChannel (s : End) (id : Nat) : End :=
  { s with conn := (s.conn.deleteChannel id).forgetStream id }

/-- The pending open leaves the maps. -/
def dropPending (s : End) (id : Nat) : End :=
  { s with conn := (s.conn.deletePending id).forgetStream id }

/-- `ChannelImpl.close`. -/
def closeChannel (s : End) (id : Nat) : End :=
  match s.conn.getChannel id with
  | none => s
  | some _ => startDrain { s.dropChannel id with sent := s.sent ++ [.close id] }

/-- The loop of `close()` over the channels, up to the listeners of the next one. -/
def closeNext (s : End) : End :=
  match s.conn.channels with
  | [] => s.teardown
  | ch :: _ => closeChannel { s with agenda := .closeNext :: s.agenda } ch.id

/-- `close()` of the connection. -/
def closeConnection (s : End) : End :=
  if s.conn.closed then s else closeNext { s with conn := { s.conn with slotWaiters := [] } }

/-- `handleMessage`. -/
def handleMessage (s : End) (f : Frame) : End :=
  match f with
  | .openFail id => if id ∈ s.conn.pendingOpens then (s.dropPending id).startDrain else s
  | .close id =>
    match s.conn.getChannel id with
    | none => s
    | some _ => { s.dropChannel id with agenda := .drain :: s.agenda }
  | .data id payload =>
    match s.conn.getChannel id with
    | none => s
    | some ch =>
      -- `handleData` closes the channel of a peer that overran its window
      if !ch.dataAttached && channelWindowBytes < ch.pendingDataBytes + payload.length then
        s.closeChannel id
      else { s with conn := (s.conn.handleMessage f).1 }
  | _ => { s with conn := (s.conn.handleMessage f).1, sent := s.sent ++ (s.conn.handleMessage f).2 }

/-- The callback of the innermost handler returns. -/
def resume (s : End) : Option End :=
  match s.agenda with
  | [] => none
  | .enqueue w :: rest =>
    some { s with
      agenda := rest
      conn := { s.conn with slotWaiters := s.conn.slotWaiters ++ [w] } }
  | .replay w :: rest =>
    match s.conn.openChannel w.opts with
    | (c, out, .allocatorExhausted) =>
      some { s with agenda := rest, conn := c, sent := s.sent ++ out }
    | (c, out, _) => some (startDrain { s with agenda := rest, conn := c, sent := s.sent ++ out })
  | .drain :: rest => some (startDrain { s with agenda := rest })
  | .closeNext :: rest => some (closeNext { s with agenda := rest })

/-- One step. Frames and timers find no handler under way. -/
def step (s : End) : Event → Option End
  | .openChannel opts => some (s.openChannel opts)
  | .closeChannel id => some (s.closeChannel id)
  | .onData id => some { s with conn := s.conn.onData id }
  | .send id chunk =>
    (s.conn.send id chunk).map fun (c, out) => { s with conn := c, sent := s.sent ++ out }
  | .acknowledgeConsumed id n =>
    some { s with
      conn := (s.conn.acknowledgeConsumed id n).1
      sent := s.sent ++ (s.conn.acknowledgeConsumed id n).2 }
  | .closeConnection => some s.closeConnection
  | .teardown => some s.teardown
  | .abort key => some { s with conn := s.conn.waitTimeout key }
  | .frame f => if s.agenda = [] then some (s.handleMessage f) else none
  | .openAckTimeout id =>
    if s.agenda = [] ∧ id ∈ s.conn.pendingOpens then some (s.dropPending id).startDrain else none
  | .waitTimeout key =>
    if s.agenda = [] ∧ key ∈ s.conn.slotWaiters.map SlotWaiter.key then
      some { s with conn := s.conn.waitTimeout key }
    else none
  | .resume => s.resume

end End

/-! ## The budget -/

/-- The caps hold; while no handler is under way calls wait only for want of a slot, and
no call was overtaken. -/
structure Budget (s : End) : Prop where
  slots : s.conn.slotsInUse ≤ s.conn.maxChannels
  known : ∀ id ∈ s.conn.streamIds, id ∈ s.conn.channelIds ∨ id ∈ s.conn.pendingOpens
  streams : s.conn.streamsInUse ≤ s.conn.maxStreamChannels
  previews : s.conn.previewsInUse ≤ s.conn.maxPreviewChannels
  queue : s.agenda = [] → s.conn.closed = false → s.conn.slotWaiters ≠ [] →
    s.conn.slotsInUse = s.conn.maxChannels
  inTurn : s.overtaken = false

/-- The event touches no slot. -/
def Event.isQuiet : Event → Bool
  | .onData _ | .send _ _ | .acknowledgeConsumed _ _ | .abort _ | .resume => true
  | _ => false

/-- The callbacks do not take what others wait for: `onWaiting` leaves the slots alone, a
call that is handed a slot finds an id, and a call from inside a callback does not get a
slot while others wait. -/
def Calm (s : End) (e : Event) : Prop :=
  match s.agenda with
  | [] => True
  | .enqueue _ :: _ => e.isQuiet = true
  | t :: _ =>
    match e with
    | .resume =>
      match t with
      | .replay w => (s.conn.openChannel w.opts).2.2 ≠ .allocatorExhausted
      | _ => True
    | .openChannel opts =>
      s.someoneWaits = false ∨ (s.conn.openChannel opts).2.2.isOpening = false
    | _ => True

instance (s : End) (e : Event) : Decidable (Calm s e) := by
  unfold Calm
  split
  · exact inferInstance
  · exact inferInstance
  · split
    · split <;> exact inferInstance
    · exact inferInstance
    · exact inferInstance

/-! ## The invariant -/

/-- What holds of an end between two steps. -/
structure Inv (s : End) : Prop where
  caps : Caps s.conn
  /-- What still leads to a drain. -/
  queue : s.conn.closed = true ∨ s.conn.slotWaiters = [] ∨
    s.conn.maxChannels ≤ s.conn.slotsInUse ∨ s.agenda.any Task.drains = true
  room : ∀ w rest, s.agenda = .enqueue w :: rest → Room s.conn w
  innermost : ∀ w, .enqueue w ∉ s.agenda.tail
  inTurn : s.overtaken = false

/-- No handler waits for `onWaiting`. -/
def End.Settled (s : End) : Prop := ∀ w, .enqueue w ∉ s.agenda

section Inv

variable {s : End}

theorem Inv.settled (h : Inv s) (ht : ∀ w rest, s.agenda ≠ .enqueue w :: rest) : s.Settled := by
  intro w hw
  have hin := h.innermost w
  cases ha : s.agenda with
  | nil =>
    rw [ha] at hw
    cases hw
  | cons t rest =>
    rw [ha] at hw hin
    rcases List.mem_cons.1 hw with rfl | hw
    · exact ht w rest ha
    · exact hin hw

/-- While no handler waits for `onWaiting` only the caps and the queue matter. -/
theorem Inv.of_settled (hc : Caps s.conn) (hs : s.Settled) (ho : s.overtaken = false)
    (hq : s.conn.closed = true ∨ s.conn.slotWaiters = [] ∨
      s.conn.maxChannels ≤ s.conn.slotsInUse ∨ s.agenda.any Task.drains = true) : Inv s := by
  refine ⟨hc, hq, fun w rest ha => ?_, fun w hw => hs w (List.mem_of_mem_tail hw), ho⟩
  exact absurd (ha ▸ List.mem_cons_self) (hs w)

/-- A drain leaves nobody behind. -/
theorem Inv.startDrain (hc : Caps s.conn) (hs : s.Settled) (ho : s.overtaken = false) :
    Inv s.startDrain := by
  unfold End.startDrain
  split
  case isTrue hclosed => exact Inv.of_settled hc hs ho (.inl hclosed)
  case isFalse =>
    split
    case h_1 hnil => exact Inv.of_settled hc hs ho (.inr (.inl hnil))
    case h_2 w ws hws =>
      split
      case isTrue =>
        refine Inv.of_settled (hc.shorten (hws ▸ List.sublist_cons_self w ws)) (fun w' hw' => ?_)
          ho (.inr (.inr (.inr rfl)))
        rcases List.mem_cons.1 hw' with heq | hw'
        · cases heq
        · exact hs w' hw'
      case isFalse hfull =>
        exact Inv.of_settled hc hs ho (.inr (.inr (.inl (Nat.not_lt.1 hfull))))

theorem Inv.teardown (h : Inv s) (hs : s.Settled) : Inv s.teardown := by
  unfold End.teardown
  split
  · exact h
  · refine Inv.of_settled ?_ hs h.inTurn (.inl rfl)
    exact ⟨List.nodup_nil, Nat.zero_le _, fun id hid => absurd hid List.not_mem_nil,
      Nat.zero_le _, Nat.zero_le _⟩

theorem Inv.closeChannel (h : Inv s) (hs : s.Settled) (id : Nat) : Inv (s.closeChannel id) := by
  unfold End.closeChannel
  split
  · exact h
  · exact Inv.startDrain (h.caps.dropChannel id) hs h.inTurn

theorem Inv.closeNext (h : Inv s) (hs : s.Settled) : Inv s.closeNext := by
  unfold End.closeNext
  split
  · exact h.teardown hs
  · have hs' : End.Settled { s with agenda := .closeNext :: s.agenda } := by
      intro w hw
      rcases List.mem_cons.1 hw with heq | hw
      · cases heq
      · exact hs w hw
    have hq : s.conn.closed = true ∨ s.conn.slotWaiters = [] ∨
        s.conn.maxChannels ≤ s.conn.slotsInUse ∨
        (Task.closeNext :: s.agenda).any Task.drains = true := h.queue
    exact (Inv.of_settled (s := { s with agenda := .closeNext :: s.agenda }) h.caps hs' h.inTurn
      hq).closeChannel hs' _

/-- Nothing that happens to one channel changes the slots. -/
theorem Inv.sameSlots {s' : End} (h : Inv s) (hc : SameSlots s.conn s'.conn)
    (ha : s'.agenda = s.agenda) (ho : s'.overtaken = s.overtaken) : Inv s' := by
  refine ⟨hc.caps h.caps, ?_, fun w rest heq => hc.room (h.room w rest (ha ▸ heq)), ?_,
    ho.trans h.inTurn⟩
  · rw [hc.closed, hc.waiters, hc.maxChannels, hc.slotsInUse, ha]
    exact h.queue
  · rw [ha]
    exact h.innermost

/-- A queued call gives up. -/
theorem Inv.waitTimeout (h : Inv s) (key : Nat) :
    Inv { s with conn := s.conn.waitTimeout key } := by
  have hsub : (s.conn.slotWaiters.filter (fun w => w.key ≠ key)).Sublist s.conn.slotWaiters :=
    List.filter_sublist
  refine ⟨h.caps.shorten hsub, ?_, fun w rest ha => ?_, h.innermost, h.inTurn⟩
  · refine h.queue.imp_right (Or.imp_left fun hnil => ?_)
    show s.conn.slotWaiters.filter _ = []
    rw [hnil]
    rfl
  · obtain ⟨hfull, hstream, hpreview⟩ := h.room w rest ha
    refine ⟨hfull, fun hw => Nat.lt_of_le_of_lt ?_ (hstream hw),
      fun hw => Nat.lt_of_le_of_lt ?_ (hpreview hw)⟩
    · exact Nat.add_le_add_left (hsub.filter _).length_le _
    · exact Nat.add_le_add_left (hsub.filter _).length_le _

theorem Inv.openChannel (h : Inv s) (hs : s.Settled) (opts : OpenChannelOptions)
    (hturn : s.agenda = [] ∨ s.someoneWaits = false ∨
      (s.conn.openChannel opts).2.2.isOpening = false) : Inv (s.openChannel opts) := by
  have hcases := s.conn.openChannel_cases opts
  have hcaps := h.caps.openChannel opts
  unfold End.openChannel
  cases heq : s.conn.openChannel opts with
  | mk c r =>
    obtain ⟨out, outcome⟩ := r
    rw [heq] at hcases hcaps hturn
    cases outcome with
    | waiting =>
      obtain ⟨-, hne, -⟩ | ⟨-, -, hclosed, hfull, hstream, hpreview⟩ | ⟨id, next, heq, -⟩ := hcases
      · exact absurd rfl hne
      · refine ⟨h.caps, h.queue.imp_right (Or.imp_right (Or.imp_right fun hd => ?_)),
          fun w rest ha => ?_, fun w hw => hs w hw, h.inTurn⟩
        · rw [List.any_cons, hd, Bool.or_true]
        · cases ha
          exact ⟨hfull, hstream, hpreview⟩
      · cases heq
    | opening id =>
      obtain ⟨-, -, hno⟩ | ⟨hwait, -⟩ | ⟨id', next, heq', hopen, hfree, -⟩ := hcases
      · cases hno
      · cases hwait
      · cases heq'
        have hcaps := hcaps nofun
        -- whoever waits does so because no slot is free, or a drain is under way
        have hnobody : s.someoneWaits = false ∨ s.agenda ≠ [] := by
          by_cases ha : s.agenda = []
          · refine .inl ?_
            rcases h.queue with hc | hnil | hfull | hdrain
            · exact absurd (hc.symm.trans hopen) Bool.true_eq_false.mp
            · rw [End.someoneWaits, hnil, ha]
              rfl
            · omega
            · rw [ha] at hdrain
              cases hdrain
          · exact .inr ha
        have hturn : s.someoneWaits = false := by
          rcases hturn with ha | hno | hno
          · exact hnobody.resolve_right fun hne => hne ha
          · exact hno
          · cases hno
        have hnil : s.conn.slotWaiters = [] := by
          rw [End.someoneWaits, Bool.or_eq_false_iff] at hturn
          simpa using hturn.1
        refine Inv.of_settled hcaps hs ?_ (.inr (.inl hnil))
        show (s.overtaken || s.someoneWaits) = false
        rw [h.inTurn, hturn]
        rfl
    | _ =>
      obtain ⟨heq', -⟩ | ⟨hwait, -⟩ | ⟨id', next, heq', -⟩ := hcases
      · cases heq'
        exact h.sameSlots s.conn.sameSlots_refl rfl rfl
      · cases hwait
      · cases heq'

theorem Inv.handleMessage (h : Inv s) (ha : s.agenda = []) (f : Frame) :
    Inv (s.handleMessage f) := by
  have hs : s.Settled := by
    intro w hw
    rw [ha] at hw
    cases hw
  cases f with
  | openFail id =>
    unfold End.handleMessage
    simp only []
    split
    · exact Inv.startDrain (h.caps.dropPending id) hs h.inTurn
    · exact h
  | close id =>
    unfold End.handleMessage
    simp only []
    split
    · exact h
    · refine Inv.of_settled (h.caps.dropChannel id) (fun w hw => ?_) h.inTurn
        (.inr (.inr (.inr rfl)))
      rcases List.mem_cons.1 hw with heq | hw
      · cases heq
      · exact hs w hw
  | data id payload =>
    unfold End.handleMessage
    simp only []
    split
    · exact h
    case h_2 ch hch =>
      split
      · exact h.closeChannel hs id
      case isFalse hroom =>
        refine h.sameSlots ?_ rfl rfl
        show SameSlots s.conn (s.conn.handleMessage (.data id payload)).1
        rw [Connection.handleMessage, Connection.handleChannelFrame, hch]
        simp only []
        rw [Connection.handleData]
        split
        · exact s.conn.sameSlots_refl
        · split
          case isTrue hdata hover =>
            exact absurd (by rw [Bool.eq_false_iff.2 hdata, decide_eq_true hover]; rfl) hroom
          case isFalse => exact s.conn.sameSlots_setChannel _
  | openReq id =>
    show Inv { s with
      conn := (s.conn.handleMessage (.openReq id)).1
      sent := s.sent ++ (s.conn.handleMessage (.openReq id)).2 }
    rw [Connection.handleMessage]
    split
    · exact h.sameSlots s.conn.sameSlots_refl rfl rfl
    case isFalse hfree =>
      split
      · exact h.sameSlots s.conn.sameSlots_refl rfl rfl
      · have hfree := Nat.not_le.1 hfree
        refine Inv.of_settled ⟨h.caps.nodup, ?_, fun i hi => ?_, h.caps.streams, h.caps.previews⟩
          hs h.inTurn ?_
        · show (s.conn.channels ++ [Channel.new id]).length + s.conn.pendingOpens.length ≤
            s.conn.maxChannels
          rw [List.length_append, List.length_singleton]
          unfold Connection.slotsInUse at hfree
          omega
        · refine (h.caps.known i hi).imp_left fun hi => ?_
          show i ∈ (s.conn.channels ++ [Channel.new id]).map Channel.id
          rw [List.map_append]
          exact List.mem_append_left _ hi
        · -- a slot was free, so nobody waits
          rcases h.queue with hclosed | hnil | hfull | hdrain
          · exact .inl hclosed
          · exact .inr (.inl hnil)
          · omega
          · rw [ha] at hdrain
            cases hdrain
  | openAck id =>
    show Inv { s with
      conn := (s.conn.handleMessage (.openAck id)).1
      sent := s.sent ++ (s.conn.handleMessage (.openAck id)).2 }
    rw [Connection.handleMessage]
    split
    case isTrue hid =>
      have hslots : (s.conn.channels ++ [Channel.new id]).length +
          (s.conn.pendingOpens.filter (· ≠ id)).length = s.conn.slotsInUse := by
        have herase : s.conn.pendingOpens.filter (· ≠ id) = s.conn.pendingOpens.erase id := by
          rw [h.caps.nodup.erase_eq_filter]
          refine List.filter_congr fun x _ => ?_
          by_cases hx : x = id <;> simp [hx]
        have hpos := List.length_pos_of_mem hid
        rw [herase, List.length_erase_of_mem hid, List.length_append, List.length_singleton]
        unfold Connection.slotsInUse
        omega
      refine Inv.of_settled
        ⟨h.caps.nodup.filter _, ?_, fun i hi => ?_, h.caps.streams, h.caps.previews⟩ hs h.inTurn ?_
      · exact Nat.le_trans (Nat.le_of_eq hslots) h.caps.slots
      · show i ∈ (s.conn.channels ++ [Channel.new id]).map Channel.id ∨
          i ∈ s.conn.pendingOpens.filter (· ≠ id)
        rw [List.map_append]
        by_cases hne : i = id
        · exact .inl (List.mem_append_right _ (hne ▸ List.mem_cons_self))
        · exact (h.caps.known i hi).imp (List.mem_append_left _)
            fun hi => List.mem_filter.2 ⟨hi, decide_eq_true hne⟩
      · refine h.queue.imp_right (Or.imp_right (Or.imp_left fun hfull => ?_))
        exact Nat.le_trans hfull (Nat.le_of_eq hslots.symm)
    · exact h.sameSlots s.conn.sameSlots_refl rfl rfl
  | windowAdjust id n =>
    refine h.sameSlots ?_ rfl rfl
    show SameSlots s.conn (s.conn.handleMessage (.windowAdjust id n)).1
    rw [Connection.handleMessage, Connection.handleChannelFrame]
    split
    · exact s.conn.sameSlots_refl
    · exact s.conn.sameSlots_setChannel _
  | eof id =>
    refine h.sameSlots ?_ rfl rfl
    show SameSlots s.conn (s.conn.handleMessage (.eof id)).1
    rw [Connection.handleMessage, Connection.handleChannelFrame]
    split
    · exact s.conn.sameSlots_refl
    · show SameSlots s.conn (s.conn.handleEof _)
      rw [Connection.handleEof]
      split
      · exact s.conn.sameSlots_refl
      · exact s.conn.sameSlots_setChannel _
  | ping => exact h.sameSlots s.conn.sameSlots_refl rfl rfl
  | pong => exact h.sameSlots s.conn.sameSlots_refl rfl rfl

theorem Inv.resume {s' : End} (h : Inv s)
    (hid : ∀ w rest, s.agenda = .replay w :: rest →
      (s.conn.openChannel w.opts).2.2 ≠ .allocatorExhausted)
    (hs' : s.resume = some s') : Inv s' := by
  unfold End.resume at hs'
  have hrest : ∀ {t rest}, s.agenda = t :: rest → ∀ w, .enqueue w ∉ rest := by
    intro t rest ha w
    have hin := h.innermost w
    rw [ha] at hin
    exact hin
  split at hs'
  case h_1 => cases hs'
  case h_2 w rest ha =>
    cases hs'
    have hroom := h.room w rest ha
    exact Inv.of_settled (h.caps.enqueue hroom) (hrest ha) h.inTurn (.inr (.inr (.inl hroom.full)))
  case h_3 w rest ha =>
    have hex := hid w rest ha
    have hwait : (s.conn.openChannel w.opts).2.2 ≠ .waiting := by
      have hnone : w.opts.waitTimeoutMs = 0 := by
        unfold SlotWaiter.opts
        split
        · rfl
        · split <;> rfl
      rcases s.conn.openChannel_cases w.opts with ⟨-, hne, -⟩ | ⟨-, hne, -⟩ | ⟨id, next, heq, -⟩
      · exact hne
      · exact absurd hnone hne
      · rw [heq]
        nofun
    have hcaps := h.caps.openChannel w.opts hwait
    split at hs'
    case h_1 heq =>
      rw [heq] at hex
      exact absurd rfl hex
    case h_2 c out outcome _ heq =>
      cases hs'
      rw [heq] at hcaps
      exact Inv.startDrain (s := { s with agenda := rest, conn := c, sent := s.sent ++ out }) hcaps
        (hrest ha) h.inTurn
  case h_4 rest ha =>
    cases hs'
    exact Inv.startDrain (s := { s with agenda := rest }) h.caps (hrest ha) h.inTurn
  case h_5 rest ha =>
    cases hs'
    refine Inv.closeNext (s := { s with agenda := rest })
      (Inv.of_settled h.caps (hrest ha) h.inTurn ?_) (hrest ha)
    have hq := h.queue
    rw [ha, List.any_cons] at hq
    exact hq

/-- A calm step keeps the invariant. -/
theorem step_inv {s' : End} {e : Event} (h : Inv s) (hcalm : Calm s e)
    (hs' : s.step e = some s') : Inv s' := by
  have hquiet : e.isQuiet = false → s.Settled := by
    intro hq
    refine h.settled fun w rest ha => ?_
    unfold Calm at hcalm
    rw [ha] at hcalm
    exact absurd (hcalm.symm.trans hq) (by decide)
  cases e with
  | openChannel opts =>
    cases hs'
    refine h.openChannel (hquiet rfl) opts ?_
    unfold Calm at hcalm
    cases ha : s.agenda with
    | nil => exact .inl rfl
    | cons t rest =>
      rw [ha] at hcalm
      cases t with
      | enqueue w => cases hcalm
      | _ => exact .inr hcalm
  | closeChannel id =>
    cases hs'
    exact h.closeChannel (hquiet rfl) id
  | onData id =>
    cases hs'
    exact h.sameSlots (s.conn.sameSlots_onData id) rfl rfl
  | send id chunk =>
    rw [End.step, Option.map_eq_some_iff] at hs'
    obtain ⟨⟨c, out⟩, hsend, rfl⟩ := hs'
    exact h.sameSlots (s.conn.sameSlots_send hsend) rfl rfl
  | acknowledgeConsumed id n =>
    cases hs'
    exact h.sameSlots (s.conn.sameSlots_acknowledgeConsumed id n) rfl rfl
  | closeConnection =>
    cases hs'
    unfold End.closeConnection
    split
    · exact h
    · have hs := hquiet rfl
      refine Inv.closeNext ?_ hs
      exact Inv.of_settled (h.caps.shorten (List.nil_sublist _)) hs h.inTurn (.inr (.inl rfl))
  | teardown =>
    cases hs'
    exact h.teardown (hquiet rfl)
  | abort key =>
    cases hs'
    exact h.waitTimeout key
  | frame f =>
    rw [End.step] at hs'
    split at hs'
    case isTrue ha =>
      cases hs'
      exact h.handleMessage ha f
    case isFalse => cases hs'
  | openAckTimeout id =>
    rw [End.step] at hs'
    split at hs'
    case isTrue ha =>
      cases hs'
      exact Inv.startDrain (s := s.dropPending id) (h.caps.dropPending id) (hquiet rfl) h.inTurn
    case isFalse => cases hs'
  | waitTimeout key =>
    rw [End.step] at hs'
    split at hs'
    case isTrue =>
      cases hs'
      exact h.waitTimeout key
    case isFalse => cases hs'
  | resume =>
    refine h.resume (fun w rest ha => ?_) hs'
    unfold Calm at hcalm
    rw [ha] at hcalm
    exact hcalm

theorem Inv.budget (h : Inv s) : Budget s := by
  refine ⟨h.caps.slots, h.caps.known, h.caps.streams, h.caps.previews, fun ha hopen hne => ?_,
    h.inTurn⟩
  rcases h.queue with hclosed | hnil | hfull | hdrain
  · exact absurd (hclosed.symm.trans hopen) (by decide)
  · exact absurd hnil hne
  · exact Nat.le_antisymm h.caps.slots hfull
  · rw [ha] at hdrain
    cases hdrain

end Inv

/-- A new end. -/
def End.create (parity : Parity) (maxChannels maxStreamChannels maxPreviewChannels : Nat) : End :=
  { conn := createMuxConnection parity maxChannels maxStreamChannels maxPreviewChannels }

theorem Inv.create (parity : Parity) (maxChannels maxStreamChannels maxPreviewChannels : Nat) :
    Inv (End.create parity maxChannels maxStreamChannels maxPreviewChannels) := by
  refine ⟨⟨List.nodup_nil, Nat.zero_le _, fun id hid => absurd hid List.not_mem_nil,
    Nat.zero_le _, Nat.zero_le _⟩, .inr (.inl rfl), fun w rest ha => ?_, fun w hw => ?_, rfl⟩
  · cases ha
  · cases hw

/-- **The budget.** Along every run of calm steps, whatever the peer sends, the caps hold,
and calls are queued only while every slot is taken. -/
theorem budget_kept (parity : Parity) (maxChannels maxStreamChannels maxPreviewChannels : Nat)
    (events : List Event)
    (hcalm : Run.Meets End.step Calm
      (End.create parity maxChannels maxStreamChannels maxPreviewChannels) events) :
    Run.Along End.step Budget
      (End.create parity maxChannels maxStreamChannels maxPreviewChannels) events :=
  Run.along_of_invariant (I := Inv) (fun _ _ _ h hc hs => step_inv h hc hs) (fun _ h => h.budget)
    (Inv.create parity maxChannels maxStreamChannels maxPreviewChannels) hcalm

/-- A call that waits is granted the slot a peer's `Close` frees. -/
theorem budget_kept_waiter :
    Run.Along End.step Budget (End.create .odd 1 1 1)
      [.frame (.openReq 2), .openChannel { waitTimeoutMs := 1000 }, .resume, .frame (.close 2),
        .resume, .resume] :=
  budget_kept .odd 1 1 1 _ (by decide)

/-- `onWaiting` closes the one open channel: the call joins the queue although the slot
is free. -/
theorem waits_for_free_slot :
    ¬ Run.Along End.step Budget (End.create .odd 1 1 1)
      [.frame (.openReq 2), .openChannel { waitTimeoutMs := 1000 }, .closeChannel 2, .resume] := by
  rintro ⟨-, -, -, -, h⟩
  have hfull := (Run.Along.head h).queue rfl rfl (by decide)
  revert hfull
  decide

end OneEnd

end Mux
end Mullion
