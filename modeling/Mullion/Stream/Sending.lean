import Mullion.Stream.Socket

/-!
# What a socket sends

The books of a sender: what `send` took is on the channel, in the queue or dropped.

* `encode` — the bytes of messages, and how they are cut again;
* `pump_spec` — `pump` sends a first part of what is queued;
* `Own` — the books of a sender;
* `Outgoing`, `Keeps` — what an operation adds to the frames of a socket, and that it keeps
  the books;
* `close_keeps`, `send_keeps`, … — the operations.
-/

namespace Mullion
namespace Stream

open Mux Station Lane Framing

/-! ## The bytes of messages -/

/-- The bytes of messages. -/
def encode (ms : List Message) : List UInt8 := ms.flatMap fun m => m.frame.encode

@[simp] theorem encode_nil : encode [] = [] := rfl

@[simp] theorem encode_append (ms ms' : List Message) :
    encode (ms ++ ms') = encode ms ++ encode ms' := List.flatMap_append

/-- What is cut from the bytes of messages is these messages. -/
theorem drain_encode_messages {ms : List Message}
    (h : ∀ m ∈ ms, m.payload.length ≤ maxStreamMessageBytes) :
    messages.drain (encode ms) = (ms.map Message.frame, some []) := by
  have hdrain := @drain_encode 1 maxStreamMessageBytes (ms.map Message.frame)
    (fun f hf => by
      obtain ⟨m, -, rfl⟩ := List.mem_map.1 hf
      rfl)
    (fun f hf => by
      obtain ⟨m, hm, rfl⟩ := List.mem_map.1 hf
      exact h m hm)
    (by decide) []
  rw [List.flatMap_map, List.append_nil] at hdrain
  rw [encode, messages, hdrain, Format.drain_more _ rfl, List.append_nil]

theorem map_ofFrame (ms : List Message) : (ms.map Message.frame).map Message.ofFrame = ms := by
  rw [List.map_map]
  exact (List.map_congr_left fun m _ => m.ofFrame_frame).trans (List.map_id ms)

/-! ## Sending -/

/-- `pump` sends a first part of what is queued. -/
theorem pump_spec (channel : Station) (queue : List (List UInt8)) :
    ∃ chunks : List (List UInt8),
      (pump channel queue).1.out = channel.out ++ chunks.map .data ∧
      (pump channel queue).1.sent = channel.sent ++ chunks.flatten ∧
      chunks.flatten ++ (pump channel queue).2.flatten = queue.flatten ∧
      (pump channel queue).1.handed = channel.handed := by
  fun_induction pump channel queue with
  | case1 channel => exact ⟨[], by simp⟩
  | case2 channel head queue n hn => exact ⟨[], by simp⟩
  | case3 channel head queue n hn hsend => exact ⟨[], by simp⟩
  | case4 channel head queue n hn channel' hsend hall ih =>
    obtain ⟨chunks, hout, hsent, hflat, hhanded⟩ := ih
    obtain ⟨ch, -, -, rfl⟩ := act_send hsend
    refine ⟨head :: chunks, ?_, ?_, ?_, hhanded⟩
    · rw [hout, wrote_out, hall, List.take_length, List.append_assoc]
      rfl
    · rw [hsent, wrote_sent, hall, List.take_length, List.append_assoc, List.flatten_cons]
    · rw [List.flatten_cons, List.append_assoc, hflat, List.flatten_cons]
  | case5 channel head queue n hn channel' hsend hpart ih =>
    obtain ⟨chunks, hout, hsent, hflat, hhanded⟩ := ih
    obtain ⟨ch, -, -, rfl⟩ := act_send hsend
    refine ⟨head.take n :: chunks, ?_, ?_, ?_, hhanded⟩
    · rw [hout, wrote_out, List.append_assoc]
      rfl
    · rw [hsent, wrote_sent, List.append_assoc, List.flatten_cons]
    · rw [List.flatten_cons, List.append_assoc, hflat, List.flatten_cons, List.flatten_cons,
        ← List.append_assoc, List.take_append_drop]

/-- `pump` neither opens nor closes a channel. -/
theorem pump_live (channel : Station) (queue : List (List UInt8)) :
    ∀ ch, channel.phase = .live ch →
      ∃ n, (pump channel queue).1.phase = .live { ch with sendWindowBytes := n } := by
  fun_induction pump channel queue with
  | case1 | case2 | case3 => exact fun ch hp => ⟨ch.sendWindowBytes, hp⟩
  | case4 channel head queue n hn channel' hsend hall ih =>
    intro ch hp
    obtain ⟨ch', hp', -, rfl⟩ := act_send hsend
    cases hp.symm.trans hp'
    obtain ⟨window, hlive⟩ := ih _ rfl
    exact ⟨window, hlive⟩
  | case5 channel head queue n hn channel' hsend hpart ih =>
    intro ch hp
    obtain ⟨ch', hp', -, rfl⟩ := act_send hsend
    cases hp.symm.trans hp'
    obtain ⟨window, hlive⟩ := ih _ rfl
    exact ⟨window, hlive⟩

/-- A short buffer that fits is sent at once. -/
theorem pump_short {ch : Channel} {channel : Station} (hp : channel.phase = .live ch)
    {head : List UInt8} (hpos : 0 < head.length) (hshort : head.length ≤ writeChunkBytes)
    (hfits : head.length ≤ ch.sendWindowBytes) (queue : List (List UInt8)) :
    pump channel (head :: queue) = pump (channel.wrote ch head) queue := by
  have hn : min (min writeChunkBytes head.length) channel.sendWindow = head.length := by
    rw [sendWindow_live hp, Nat.min_eq_right hshort, Nat.min_eq_left hfits]
  rw [pump]
  simp only [hn, List.take_length]
  rw [dif_neg (Nat.pos_iff_ne_zero.1 hpos), act_send_live hp hfits]
  simp only [if_true]

/-- Nothing is sent while the window is shut. -/
theorem pump_shut {channel : Station} (h : channel.sendWindow = 0) (queue : List (List UInt8)) :
    pump channel queue = (channel, queue) := by
  cases queue with
  | nil => rw [pump]
  | cons head queue => rw [pump, h, Nat.min_zero, dif_pos rfl]

/-- Nothing is sent on a channel that is closed. -/
theorem pump_closed {channel : Station} (h : channel.closed = true) (queue : List (List UInt8)) :
    pump channel queue = (channel, queue) := by
  refine pump_shut ?_ queue
  unfold sendWindow
  cases hp : channel.phase with
  | pending => rfl
  | live ch =>
    rw [closed_of_live hp] at h
    cases h
  | gone => rfl

/-! ## The direction in which a socket sends -/

/-- What holds of a socket as a sender. `line` is what it sends before its messages. -/
structure Own (line : List UInt8) (s : Socket) : Prop where
  books : line ++ encode s.sent = s.channel.sent ++ s.queue.flatten ++ s.dropped
  started : line <+: s.channel.sent
  fits : ∀ m ∈ s.sent, m.payload.length ≤ maxStreamMessageBytes
  open_ : s.readyState ≠ .closed →
    s.dropped = [] ∧ ∃ ch, s.channel.phase = .live ch ∧ ch.dataAttached = true
  finished : s.readyState = .closed → s.queue = [] ∧ s.channel.closed = true

/-- No data follows a `Close`. -/
def Closing : List Packet → Prop
  | [] => True
  | p :: ps => (p = .close → payloads ps = []) ∧ Closing ps

theorem closing_append {ps qs : List Packet} :
    Closing (ps ++ qs) ↔ Closing ps ∧ Closing qs ∧ (.close ∈ ps → payloads qs = []) := by
  induction ps with
  | nil => simp [Closing]
  | cons p ps ih =>
    rw [List.cons_append, Closing, Closing, ih, payloads_append, List.append_eq_nil_iff,
      List.mem_cons]
    constructor
    · rintro ⟨hp, hps, hqs, hmem⟩
      exact ⟨⟨fun h => (hp h).1, hps⟩, hqs, fun h => h.elim (fun h => (hp h.symm).2) hmem⟩
    · rintro ⟨⟨hp, hps⟩, hqs, hmem⟩
      exact ⟨fun h => ⟨hp h, hmem (.inl h.symm)⟩, hps, hqs, fun h => hmem (.inr h)⟩

theorem Closing.of_not_mem {ps : List Packet} (h : .close ∉ ps) : Closing ps := by
  induction ps with
  | nil => trivial
  | cons p ps ih =>
    exact ⟨fun heq => absurd (heq ▸ List.mem_cons_self) h,
      ih fun hmem => h (List.mem_cons_of_mem _ hmem)⟩

/-- What an operation adds to the frames of a socket. -/
structure Outgoing (s s' : Socket) : Prop where
  out : ∃ ps, s'.channel.out = s.channel.out ++ ps ∧
    s'.channel.sent = s.channel.sent ++ payloads ps ∧ Closing ps ∧
    (s'.readyState ≠ .closed → .close ∉ ps) ∧ (s.readyState = .closed → ps = [])
  sent : s.sent <+: s'.sent
  closed : s.readyState = .closed → s'.readyState = .closed

/-- An operation that keeps the books of the sender. -/
def Keeps (line : List UInt8) (s s' : Socket) : Prop := Own line s → Own line s' ∧ Outgoing s s'

theorem Outgoing.refl (s : Socket) : Outgoing s s where
  out := ⟨[], by simp, by simp, trivial, fun _ => List.not_mem_nil, fun _ => rfl⟩
  sent := List.prefix_rfl
  closed := id

theorem Outgoing.trans {s₁ s₂ s₃ : Socket} (h : Outgoing s₁ s₂) (h' : Outgoing s₂ s₃) :
    Outgoing s₁ s₃ := by
  obtain ⟨ps, hout, hsent, hclose, hno, hnil⟩ := h.out
  obtain ⟨ps', hout', hsent', hclose', hno', hnil'⟩ := h'.out
  refine ⟨⟨ps ++ ps', ?_, ?_, ?_, ?_, ?_⟩, h.sent.trans h'.sent, fun hc => h'.closed (h.closed hc)⟩
  · rw [hout', hout, List.append_assoc]
  · rw [hsent', hsent, payloads_append, List.append_assoc]
  · refine closing_append.2 ⟨hclose, hclose', fun hmem => ?_⟩
    have hgone : s₂.readyState = .closed := by
      by_contra hopen
      exact hno hopen hmem
    rw [hnil' hgone, payloads_nil]
  · intro hopen hmem
    rcases List.mem_append.1 hmem with hmem | hmem
    · exact hno (fun hc => hopen (h'.closed hc)) hmem
    · exact hno' hopen hmem
  · intro hc
    rw [hnil hc, hnil' (h.closed hc), List.append_nil]

namespace Keeps

variable {line : List UInt8} {s s' s'' : Socket}

theorem refl : Keeps line s s := fun h => ⟨h, Outgoing.refl s⟩

theorem trans (h : Keeps line s s') (h' : Keeps line s' s'') : Keeps line s s'' := by
  intro hown
  obtain ⟨hown', hout⟩ := h hown
  obtain ⟨hown'', hout'⟩ := h' hown'
  exact ⟨hown'', hout.trans hout'⟩

/-- Nothing changes for the sender. -/
theorem of_same (hsent : s'.sent = s.sent) (hqueue : s'.queue = s.queue)
    (hdropped : s'.dropped = s.dropped) (hchannel : s'.channel = s.channel)
    (hclosed : s'.readyState = .closed ↔ s.readyState = .closed) : Keeps line s s' := by
  intro h
  constructor
  · constructor
    case books => rw [hsent, hqueue, hdropped, hchannel]; exact h.books
    case started => rw [hchannel]; exact h.started
    case fits => rw [hsent]; exact h.fits
    case open_ =>
      rw [hdropped, hchannel]
      exact fun hopen => h.open_ fun hc => hopen (hclosed.2 hc)
    case finished =>
      rw [hqueue, hchannel]
      exact fun hc => h.finished (hclosed.1 hc)
  · refine ⟨⟨[], ?_, ?_, trivial, fun _ => List.not_mem_nil, fun _ => rfl⟩, ?_, hclosed.2⟩
    · rw [hchannel, List.append_nil]
    · rw [hchannel, payloads_nil, List.append_nil]
    · rw [hsent]

end Keeps

/-- The socket has finished, with or without a `Close`. -/
structure Ended (s s' : Socket) : Prop where
  readyState : s'.readyState = .closed
  queue : s'.queue = []
  dropped : s'.dropped = s.queue.flatten
  sent : s'.sent = s.sent
  received : s'.received = s.received
  closed : s'.channel.closed = true
  out : s'.channel.out = s.channel.out ∨ s'.channel.out = s.channel.out ++ [.close]
  wrote : s'.channel.sent = s.channel.sent
  handed : s'.channel.handed = s.channel.handed

theorem Ended.keeps {line : List UInt8} {s s' : Socket} (hopen : s.readyState ≠ .closed)
    (h : Ended s s') : Keeps line s s' := by
  intro hown
  constructor
  · constructor
    case books =>
      rw [h.sent, h.wrote, h.queue, h.dropped, hown.books, (hown.open_ hopen).1,
        List.flatten_nil, List.append_nil, List.append_nil]
    case started => rw [h.wrote]; exact hown.started
    case fits => rw [h.sent]; exact hown.fits
    case open_ => exact fun hne => absurd h.readyState hne
    case finished => exact fun _ => ⟨h.queue, h.closed⟩
  · have hsent : s.sent <+: s'.sent := by rw [h.sent]
    rcases h.out with hout | hout
    · refine ⟨⟨[], ?_, ?_, trivial, fun _ => List.not_mem_nil, fun hc => absurd hc hopen⟩, hsent,
        fun hc => absurd hc hopen⟩
      · rw [hout, List.append_nil]
      · rw [h.wrote, payloads_nil, List.append_nil]
    · refine ⟨⟨[.close], hout, ?_, ⟨fun _ => rfl, trivial⟩, fun hne => absurd h.readyState hne,
        fun hc => absurd hc hopen⟩, hsent, fun hc => absurd hc hopen⟩
      rw [h.wrote]
      exact (List.append_nil _).symm

/-! ## The operations -/

section Operations

variable {line : List UInt8} {s : Socket}

theorem close_ended (hopen : s.readyState ≠ .closed) (hown : Own line s) : Ended s s.close := by
  obtain ⟨-, ch, hp, -⟩ := hown.open_ hopen
  unfold Socket.close Socket.finish
  rw [if_neg hopen, if_neg hopen, close_live hp]
  exact ⟨rfl, rfl, rfl, rfl, rfl, rfl, .inr rfl, rfl, rfl⟩

theorem callClose_ended (hopen : s.readyState ≠ .closed) (hown : Own line s) :
    Ended s s.callClose := by
  unfold Socket.callClose
  rw [if_neg hopen]
  obtain ⟨h₁, h₂, h₃, h₄, h₅, h₆, h₇, h₈, h₉⟩ := close_ended hopen hown
  exact ⟨h₁, h₂, h₃, h₄, h₅, h₆, h₇, h₈, h₉⟩

theorem close_keeps : Keeps line s s.close := by
  intro hown
  by_cases hc : s.readyState = .closed
  · unfold Socket.close
    rw [if_pos hc]
    exact Keeps.refl hown
  · exact (close_ended hc hown).keeps hc hown

theorem callClose_keeps : Keeps line s s.callClose := by
  intro hown
  by_cases hc : s.readyState = .closed
  · unfold Socket.callClose
    rw [if_pos hc]
    exact Keeps.refl hown
  · exact (callClose_ended hc hown).keeps hc hown

/-- A socket whose channel is gone finishes. -/
theorem finish_ended (hopen : s.readyState ≠ .closed) (channel : Station)
    (hgone : channel.closed = true) (hout : channel.out = s.channel.out)
    (hwrote : channel.sent = s.channel.sent) (hhanded : channel.handed = s.channel.handed) :
    Ended s { s with channel := channel }.finish := by
  unfold Socket.finish
  rw [if_neg hopen]
  exact ⟨rfl, rfl, rfl, rfl, rfl, hgone, .inl hout, hwrote, hhanded⟩

theorem lost_keeps : Keeps line s s.lost := by
  intro hown
  by_cases hc : s.readyState = .closed
  · have hsame : s.lost = { s with channel := { s.channel with phase := .gone } } := by
      unfold Socket.lost Socket.finish
      rw [if_pos hc]
    rw [hsame]
    obtain ⟨hbooks, hstarted, hfits, -, hfinished⟩ := hown
    refine ⟨⟨hbooks, hstarted, hfits, fun hne => absurd hc hne, fun h => ⟨(hfinished h).1, rfl⟩⟩, ?_⟩
    exact ⟨(Outgoing.refl s).out, List.prefix_rfl, id⟩
  · have hended : Ended s s.lost :=
      finish_ended hc { s.channel with phase := .gone } rfl rfl rfl rfl
    exact hended.keeps hc hown

/-- The channel stays open, and no data is sent on it. -/
theorem channel_keeps {channel : Station} (ps : List Packet) (hps : payloads ps = [])
    (hno : .close ∉ ps) (hout : channel.out = s.channel.out ++ ps)
    (hwrote : channel.sent = s.channel.sent) (hgone : s.channel.closed = true → channel = s.channel)
    (hlive : ∀ ch, s.channel.phase = .live ch → ∃ ch', channel.phase = .live ch' ∧
      ch'.dataAttached = ch.dataAttached) : Keeps line s { s with channel := channel } := by
  intro hown
  by_cases hc : s.readyState = .closed
  · rw [hgone (hown.finished hc).2]
    exact Keeps.refl hown
  · obtain ⟨hnone, ch, hp, hdata⟩ := hown.open_ hc
    obtain ⟨ch', hp', hdata'⟩ := hlive ch hp
    constructor
    · constructor
      case books =>
        show _ = channel.sent ++ _ ++ _
        rw [hwrote]
        exact hown.books
      case started =>
        show _ <+: channel.sent
        rw [hwrote]
        exact hown.started
      case fits => exact hown.fits
      case open_ => exact fun _ => ⟨hnone, ch', hp', hdata'.trans hdata⟩
      case finished => exact fun h => absurd h hc
    · refine ⟨⟨ps, hout, ?_, Closing.of_not_mem hno, fun _ => hno, fun h => absurd h hc⟩,
        List.prefix_rfl, id⟩
      rw [hps, List.append_nil]
      exact hwrote

theorem acknowledge_keeps (n : Nat) :
    Keeps line s { s with channel := s.channel.acknowledge n } := by
  cases hc : s.channel.closed with
  | true =>
    rw [acknowledge_closed hc]
    exact Keeps.refl
  | false =>
    obtain ⟨ch, hp⟩ := not_closed (Bool.eq_false_iff.1 hc)
    rw [acknowledge_live hp]
    have hgone : s.channel.closed ≠ true := Bool.eq_false_iff.1 hc
    rcases ch.acknowledgeConsumed_cases n with ⟨hack, -⟩ | ⟨hack, -⟩
    · rw [hack]
      refine channel_keeps [.windowAdjust (ch.unacknowledgedBytes + n)] rfl (by simp) rfl
        rfl (fun h => absurd h hgone) fun ch' hp' => ?_
      cases hp.symm.trans hp'
      exact ⟨_, rfl, rfl⟩
    · rw [hack]
      refine channel_keeps [] rfl List.not_mem_nil rfl rfl (fun h => absurd h hgone)
        fun ch' hp' => ?_
      cases hp.symm.trans hp'
      exact ⟨_, rfl, rfl⟩

theorem pumped_keeps : Keeps line s s.pumped := by
  intro hown
  by_cases hc : s.readyState = .closed
  · have hsame : s.pumped = s := by
      unfold Socket.pumped
      rw [pump_closed (hown.finished hc).2]
    rw [hsame]
    exact Keeps.refl hown
  · obtain ⟨hnone, ch, hp, hdata⟩ := hown.open_ hc
    obtain ⟨window, hp'⟩ := pump_live s.channel s.queue ch hp
    obtain ⟨chunks, hout, hsent, hflat, -⟩ := pump_spec s.channel s.queue
    have hno : Packet.close ∉ chunks.map Packet.data := by
      intro hmem
      obtain ⟨chunk, -, heq⟩ := List.mem_map.1 hmem
      cases heq
    constructor
    · constructor
      case books =>
        show _ = (pump s.channel s.queue).1.sent ++ (pump s.channel s.queue).2.flatten ++ s.dropped
        rw [hsent, List.append_assoc s.channel.sent, hflat]
        exact hown.books
      case started =>
        show _ <+: (pump s.channel s.queue).1.sent
        rw [hsent]
        exact hown.started.trans (List.prefix_append _ _)
      case fits => exact hown.fits
      case open_ => exact fun _ => ⟨hnone, _, hp', hdata⟩
      case finished => exact fun h => absurd h hc
    · refine ⟨⟨chunks.map .data, hout, ?_, Closing.of_not_mem hno, fun _ => hno,
        fun h => absurd h hc⟩, List.prefix_rfl, id⟩
      rw [payloads_data]
      exact hsent

/-- A message is queued. -/
theorem queued_keeps (hopen : s.readyState = .open_) {m : Message}
    (hm : m.payload.length ≤ maxStreamMessageBytes) :
    Keeps line s { s with queue := s.queue ++ m.buffers, sent := s.sent ++ [m] } := by
  intro hown
  have hne : s.readyState ≠ .closed := by
    rw [hopen]
    nofun
  obtain ⟨hnone, hlive⟩ := hown.open_ hne
  constructor
  · constructor
    case books =>
      show line ++ encode (s.sent ++ [m]) = s.channel.sent ++ (s.queue ++ m.buffers).flatten ++ s.dropped
      have hbooks := hown.books
      rw [hnone, List.append_nil] at hbooks
      have hm : encode [m] = m.frame.encode := List.append_nil _
      rw [encode_append, ← List.append_assoc, hbooks, hm, List.flatten_append,
        m.flatten_buffers, hnone, List.append_nil, List.append_assoc]
    case started => exact hown.started
    case fits =>
      intro m' hm'
      rcases List.mem_append.1 hm' with hm' | hm'
      · exact hown.fits m' hm'
      · rw [List.mem_singleton.1 hm']
        exact hm
    case open_ => exact fun _ => ⟨hnone, hlive⟩
    case finished => exact fun h => absurd h hne
  · exact ⟨(Outgoing.refl s).out, List.prefix_append _ _, id⟩

theorem send_keeps (data : SocketData) (binary : Option Bool) :
    Keeps line s (s.send data binary) := by
  unfold Socket.send
  split
  · exact Keeps.refl
  case isFalse hopen =>
    split
    · exact close_keeps
    case isFalse hfits =>
      have hstep : Keeps line s (Socket.pumped _) :=
        (queued_keeps (not_not.1 hopen) (Nat.not_lt.1 hfits)).trans pumped_keeps
      simp only []
      split
      · exact hstep.trans close_keeps
      · exact hstep

theorem fail_keeps : Keeps line s s.fail := by
  intro hown
  obtain ⟨hown', hout⟩ := close_keeps hown
  obtain ⟨h₁, h₂, h₃, h₄, h₅⟩ := hown'
  obtain ⟨h₆, h₇, h₈⟩ := hout
  exact ⟨⟨h₁, h₂, h₃, h₄, h₅⟩, ⟨h₆, h₇, h₈⟩⟩

theorem drainMessages_keeps (stop : Option Nat) : Keeps line s (s.drainMessages stop) := by
  fun_induction Socket.drainMessages stop s with
  | case1 s => exact callClose_keeps
  | case2 stop s | case3 stop s => exact Keeps.refl
  | case4 stop s => exact fail_keeps
  | case5 stop s hstop hopen f rest hfront ih =>
    refine Keeps.trans ?_ ih
    exact Keeps.of_same rfl rfl rfl rfl Iff.rfl

theorem feed_keeps (stop : Option Nat) (rest : List UInt8) : Keeps line s (s.feed stop rest) := by
  unfold Socket.feed
  split
  · exact Keeps.refl
  · refine Keeps.trans ?_ (drainMessages_keeps stop)
    exact Keeps.of_same rfl rfl rfl rfl Iff.rfl

end Operations

end Stream
end Mullion
