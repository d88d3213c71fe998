import Mullion.Mux.Lane

/-!
# Credit is conserved

A channel starts with a window of credit at either end; sending takes from it and the consumer at
the other end gives it back. What is asked is that the credit is conserved over both ends and both
links while the consumers acknowledge no byte twice: it is never lost and never clamped, nothing
overruns the buffer of the receiver, and the bytes arrive in order.

Everything is a sum for one direction. `Flow` says that what the sender may still send, the bytes in
flight, those received, and what is to be given back make up the window and what the consumer has
acknowledged, and that the bytes handed on, held and in flight are those that were sent. A call at
the sender or the receiver, a frame that arrives and the answer to it each move an amount from one
term to another (`Flow.act_sender`, `Flow.act_receiver`, `Flow.arrive`, `Flow.answer`); what holds
at one end alone is `Ok`. A closed end drops out of the sums, and so the bounds on what is in flight
are kept for themselves. `credit_conserved` is the result along every honest run.
-/

namespace Mullion
namespace Mux
namespace Lane

/-! ## The books of an end -/

/-- What the end may send; an end that waits for the `OpenAck` will have all of it. -/
def window : Phase → Nat
  | .pending => channelWindowBytes
  | .live ch => ch.sendWindowBytes
  | .gone => 0

/-- The bytes held for a listener. -/
def held : Phase → List UInt8
  | .live ch => ch.pendingData.flatten
  | _ => []

/-- `unacknowledgedBytes`. -/
def unacknowledged : Phase → Nat
  | .live ch => ch.unacknowledgedBytes
  | _ => 0

@[simp] theorem window_live (ch : Channel) : window (.live ch) = ch.sendWindowBytes := rfl

@[simp] theorem window_pending : window .pending = channelWindowBytes := rfl

@[simp] theorem held_live (ch : Channel) : held (.live ch) = ch.pendingData.flatten := rfl

@[simp] theorem held_pending : held .pending = [] := rfl

@[simp] theorem unacknowledged_live (ch : Channel) :
    unacknowledged (.live ch) = ch.unacknowledgedBytes := rfl

@[simp] theorem unacknowledged_pending : unacknowledged .pending = 0 := rfl

/-- The bytes that have arrived. -/
def received (st : Station) : Nat := st.handed.length + (held st.phase).length

/-! ## The property -/

/-- What is conserved of a channel. -/
structure Conserved (s : Lane) : Prop where
  credit : ∀ e ch ch', (s e).phase = .live ch → (s e.peer).phase = .live ch' →
    ch.sendWindowBytes + (payloads (s e).out).length +
      (received (s e.peer) - (s e.peer).acked) + ch'.unacknowledgedBytes +
      grants (s e.peer).out = channelWindowBytes
  /-- `handleWindowAdjust` never discards credit. -/
  unclamped : ∀ e ch n rest, (s e).phase = .live ch →
    (s e.peer).out = .windowAdjust n :: rest → (ch.handleWindowAdjust n).sendWindowBytes =
      ch.sendWindowBytes + n
  /-- `handleData` never closes the channel. -/
  fits : ∀ e ch chunk rest, (s e.peer).phase = .live ch → (s e).out = .data chunk :: rest →
    ch.dataAttached = false → ch.overruns chunk = false
  delivered : ∀ e ch, (s e.peer).phase = .live ch →
    (s e.peer).handed ++ ch.pendingData.flatten ++ payloads (s e).out = (s e).sent ∧
      (ch.dataAttached = true → ch.pendingData = [])

/-- The consumer acknowledges only bytes it was handed, and none twice. -/
def Honest (s : Lane) : End × Event → Prop
  | (e, .act (.acknowledgeConsumed n)) => (s e).acked + n ≤ (s e).handed.length
  | _ => True

instance (s : Lane) : ∀ l, Decidable (Honest s l)
  | (_, .act (.acknowledgeConsumed _)) => inferInstanceAs (Decidable (_ ≤ _))
  | (_, .act (.send _)) | (_, .act .onData) | (_, .act .onEof) | (_, .act .eof)
  | (_, .act .close) | (_, .act .openAckTimeout) | (_, .deliver) => isTrue trivial

/-! ## The invariant -/

/-- What holds at one end. -/
structure Ok (st : Station) : Prop where
  honest : st.acked ≤ st.handed.length
  replayed : ∀ ch, st.phase = .live ch → ch.dataAttached = true → ch.pendingData = []
  unheard : ∀ ch, st.phase = .live ch → ch.dataAttached = false → st.handed = []
  pending : st.phase = .pending → st.out = [] ∧ st.sent = [] ∧ st.handed = []

/-- The bytes from one end to the other, and the credit for them. -/
structure Flow (snd rcv : Station) : Prop where
  bytes : rcv.phase ≠ .gone → rcv.handed ++ held rcv.phase ++ payloads snd.out = snd.sent
  credit : snd.phase ≠ .gone → rcv.phase ≠ .gone →
    window snd.phase + (payloads snd.out).length + received rcv + unacknowledged rcv.phase +
      grants rcv.out = channelWindowBytes + rcv.acked
  /-- What is in flight fits, also once the sender has closed the channel. -/
  bound : rcv.phase ≠ .gone →
    (payloads snd.out).length + received rcv ≤ channelWindowBytes + rcv.acked
  /-- What may be sent never passes the first window, also once the receiver has closed. -/
  room : snd.phase ≠ .gone → window snd.phase + grants rcv.out ≤ channelWindowBytes

theorem pendingDataBytes_eq (ch : Channel) :
    ch.pendingDataBytes = ch.pendingData.flatten.length := List.length_flatten.symm

section Flow

variable {snd rcv snd' rcv' : Station}

/-- What the other end does with its side of the channel does not matter to the sender. -/
theorem Flow.congr (h : Flow snd rcv) (hw : snd'.phase ≠ .gone → snd.phase ≠ .gone ∧
      window snd'.phase = window snd.phase)
    (ho : payloads snd'.out = payloads snd.out) (hs : snd'.sent = snd.sent)
    (hr : rcv'.phase ≠ .gone → rcv.phase ≠ .gone ∧ held rcv'.phase = held rcv.phase ∧
      unacknowledged rcv'.phase = unacknowledged rcv.phase)
    (hg : grants rcv'.out = grants rcv.out) (hh : rcv'.handed = rcv.handed)
    (ha : rcv'.acked = rcv.acked) : Flow snd' rcv' := by
  constructor
  · intro hlive
    obtain ⟨hr, hheld, -⟩ := hr hlive
    rw [hh, hheld, ho, hs]
    exact h.bytes hr
  · intro hsnd hlive
    obtain ⟨hsnd, hwin⟩ := hw hsnd
    obtain ⟨hr, hheld, hun⟩ := hr hlive
    have hc := h.credit hsnd hr
    unfold received at hc ⊢
    rw [hwin, ho, hh, hheld, hun, hg, ha]
    exact hc
  · intro hlive
    obtain ⟨hr, hheld, -⟩ := hr hlive
    have hb := h.bound hr
    unfold received at hb ⊢
    rw [ho, hh, hheld, ha]
    exact hb
  · intro hsnd
    obtain ⟨hsnd, hwin⟩ := hw hsnd
    rw [hwin, hg]
    exact h.room hsnd

/-- A call at the sender. -/
theorem Flow.act_sender (h : Flow snd rcv) {a : Act} (ha : snd.act a = some snd') :
    Flow snd' rcv := by
  have hrcv : rcv.phase ≠ .gone → rcv.phase ≠ .gone ∧ held rcv.phase = held rcv.phase ∧
      unacknowledged rcv.phase = unacknowledged rcv.phase := fun hr => ⟨hr, rfl, rfl⟩
  unfold Station.act at ha
  split at ha
  case h_1 hp =>
    split at ha
    · cases ha
      exact h.congr (fun hne => absurd rfl hne) rfl rfl hrcv rfl rfl rfl
    · cases ha
  case h_2 ch hp =>
    have hopen : snd.phase ≠ .gone := by
      rw [hp]
      nofun
    split at ha
    case h_1 chunk =>
      obtain ⟨ch', hsend, rfl⟩ := Option.map_eq_some_iff.1 ha
      unfold Channel.send at hsend
      split at hsend
      · cases hsend
      case isFalse hfits =>
        cases hsend
        have hpay : payloads (snd.out ++ [.data chunk]) = payloads snd.out ++ chunk := by
          rw [payloads_append, payloads_cons, payloads_nil, List.append_nil]
          rfl
        refine ⟨fun hr => ?_, fun _ hr => ?_, fun hr => ?_, fun _ => ?_⟩
        · show _ ++ payloads (snd.out ++ [.data chunk]) = snd.sent ++ chunk
          rw [hpay, ← List.append_assoc, h.bytes hr]
        · have hc := h.credit hopen hr
          simp only [hp, hpay, window_live, List.length_append] at hc ⊢
          omega
        · have hc := h.credit hopen hr
          simp only [hp, hpay, window_live, List.length_append] at hc ⊢
          omega
        · have hroom := h.room hopen
          rw [hp] at hroom
          simp only [window_live] at hroom ⊢
          omega
    case h_2 n =>
      cases ha
      refine h.congr (fun _ => ⟨hopen, ?_⟩) ?_ rfl hrcv rfl rfl rfl
      · rw [hp]
        rcases ch.acknowledgeConsumed_cases n with ⟨heq, -⟩ | ⟨heq, -⟩ <;> rw [heq] <;> rfl
      · rcases ch.acknowledgeConsumed_cases n with ⟨heq, -⟩ | ⟨heq, -⟩ <;> rw [heq] <;>
          simp [payload]
    case h_3 =>
      cases ha
      exact h.congr (fun _ => ⟨hopen, by rw [hp]; rfl⟩) rfl rfl hrcv rfl rfl rfl
    case h_4 =>
      cases ha
      exact h.congr (fun _ => ⟨hopen, by rw [hp]; rfl⟩) rfl rfl hrcv rfl rfl rfl
    case h_5 =>
      cases ha
      exact h.congr (fun hs => ⟨hs, rfl⟩) (by simp [payload]) rfl hrcv rfl rfl rfl
    case h_6 =>
      cases ha
      unfold Station.close
      rw [hp]
      exact h.congr (fun hne => absurd rfl hne) (by simp [payload]) rfl hrcv rfl rfl rfl
    case h_7 => cases ha
  case h_3 =>
    split at ha
    · cases ha
    · cases ha
    · cases ha
      exact h

/-- A call at the receiver. -/
theorem Flow.act_receiver (h : Flow snd rcv) {a : Act} (ha : rcv.act a = some rcv')
    (hok : rcv'.acked ≤ rcv'.handed.length) : Flow snd rcv' := by
  have hsnd : snd.phase ≠ .gone → snd.phase ≠ .gone ∧ window snd.phase = window snd.phase :=
    fun hs => ⟨hs, rfl⟩
  unfold Station.act at ha
  split at ha
  case h_1 hp =>
    split at ha
    · cases ha
      exact h.congr hsnd rfl rfl (fun hne => absurd rfl hne) rfl rfl rfl
    · cases ha
  case h_2 ch hp =>
    have hopen : rcv.phase ≠ .gone := by
      rw [hp]
      nofun
    split at ha
    case h_1 chunk =>
      obtain ⟨ch', hsend, rfl⟩ := Option.map_eq_some_iff.1 ha
      unfold Channel.send at hsend
      split at hsend
      · cases hsend
      · cases hsend
        refine h.congr hsnd rfl rfl (fun _ => ⟨hopen, ?_, ?_⟩) (by simp [grant]) rfl rfl
        · rw [hp]
          rfl
        · rw [hp]
          rfl
    case h_2 n =>
      cases ha
      -- what the consumer acknowledges is either kept, or on its way back
      have hback : unacknowledged (.live (ch.acknowledgeConsumed n).1) +
          grants (rcv.out ++ ((ch.acknowledgeConsumed n).2.map Packet.windowAdjust).toList) =
          unacknowledged (.live ch) + n + grants rcv.out := by
        rcases ch.acknowledgeConsumed_cases n with ⟨heq, -⟩ | ⟨heq, -⟩
        · simp only [heq, unacknowledged_live, Option.map_some, Option.toList_some,
            grants_append, grants_cons, grants_nil, grant]
          omega
        · simp only [heq, unacknowledged_live, Option.map_none, Option.toList_none,
            List.append_nil]
      have hheld : held (.live (ch.acknowledgeConsumed n).1) = held (.live ch) := by
        rcases ch.acknowledgeConsumed_cases n with ⟨heq, -⟩ | ⟨heq, -⟩ <;> rw [heq] <;> rfl
      refine ⟨fun _ => ?_, fun hs _ => ?_, fun _ => ?_, fun hs => ?_⟩
      · have hb := h.bytes hopen
        rw [hp] at hb
        rw [← hb]
        show rcv.handed ++ held (.live (ch.acknowledgeConsumed n).1) ++ _ = _
        rw [hheld]
      · have hc := h.credit hs hopen
        unfold received at hc ⊢
        simp only [hp, hheld] at hc ⊢
        omega
      · have hb := h.bound hopen
        unfold received at hb ⊢
        simp only [hp, hheld] at hb ⊢
        omega
      · have hc := h.credit hs hopen
        have hack : rcv.acked + n ≤ rcv.handed.length := hok
        unfold received at hc
        simp only [hp] at hc ⊢
        omega
    case h_3 =>
      cases ha
      refine ⟨fun _ => ?_, fun hs _ => ?_, fun _ => ?_, h.room⟩
      · have hb := h.bytes hopen
        rw [hp] at hb
        rw [← hb]
        show rcv.handed ++ ch.pendingData.flatten ++ [] ++ _ = _
        rw [List.append_nil]
        rfl
      · have hc := h.credit hs hopen
        unfold received at hc ⊢
        simp only [hp, held_live, unacknowledged_live, Channel.onData, List.length_append,
          List.flatten_nil, List.length_nil] at hc ⊢
        omega
      · have hb := h.bound hopen
        unfold received at hb ⊢
        simp only [hp, held_live, Channel.onData, List.length_append, List.flatten_nil,
          List.length_nil] at hb ⊢
        omega
    case h_4 =>
      cases ha
      exact h.congr hsnd rfl rfl (fun _ => ⟨hopen, by rw [hp]; rfl, by rw [hp]; rfl⟩) rfl rfl rfl
    case h_5 =>
      cases ha
      exact h.congr hsnd rfl rfl (fun hr => ⟨hr, rfl, rfl⟩) (by simp [grant]) rfl rfl
    case h_6 =>
      cases ha
      unfold Station.close
      rw [hp]
      exact h.congr hsnd rfl rfl (fun hne => absurd rfl hne) (by simp [grant]) rfl rfl
    case h_7 => cases ha
  case h_3 =>
    split at ha
    · cases ha
    · cases ha
    · cases ha
      exact h

/-- A frame of the sender arrives. -/
theorem Flow.arrive {p : Packet} {rest : List Packet} (id : Nat) (h : Flow snd rcv) (hr : Ok rcv)
    (ho : snd.out = p :: rest) (hp : rcv.phase = .pending → p = .openAck) :
    Flow { snd with out := rest } (rcv.handle id p) := by
  have hpay : payloads snd.out = payload p ++ payloads rest := by rw [ho, payloads_cons]
  have hsame : payload p = [] → payloads rest = payloads snd.out := by
    intro hnil
    rw [hpay, hnil, List.nil_append]
  unfold Station.handle
  split
  case h_1 hphase =>
    obtain rfl := hp hphase
    rw [if_pos rfl]
    refine h.congr (fun hs => ⟨hs, rfl⟩) (hsame rfl) rfl (fun _ => ⟨?_, ?_, ?_⟩) rfl rfl rfl
    · rw [hphase]
      nofun
    · rw [hphase]
      rfl
    · rw [hphase]
      rfl
  case h_2 ch hphase =>
    have hopen : rcv.phase ≠ .gone := by
      rw [hphase]
      nofun
    split
    case h_1 chunk =>
      have hb := h.bytes hopen
      have hbound := h.bound hopen
      rw [hpay, hphase] at hb
      unfold received at hbound
      rw [hpay, hphase, List.length_append] at hbound
      simp only [payload, held_live] at hb hbound
      split
      case isTrue hdata =>
        have hnil := hr.replayed ch hphase hdata
        rw [hnil] at hb hbound
        refine ⟨fun _ => ?_, fun hs _ => ?_, fun _ => ?_, h.room⟩
        · rw [← hb]
          show rcv.handed ++ chunk ++ held rcv.phase ++ payloads rest = _
          rw [hphase, held_live, hnil]
          simp only [List.flatten_nil, List.append_nil, List.append_assoc]
        · have hc := h.credit hs hopen
          unfold received at hc ⊢
          simp only [hpay, payload, hphase, held_live, hnil, List.length_append, List.flatten_nil,
            List.length_nil] at hc ⊢
          omega
        · unfold received
          simp only [hphase, held_live, hnil, List.length_append, List.flatten_nil,
            List.length_nil] at hbound ⊢
          omega
      case isFalse hdata =>
        have hnil := hr.unheard ch hphase (Bool.eq_false_iff.2 hdata)
        have hack := hr.honest
        rw [hnil] at hack hbound
        simp only [List.length_nil] at hack hbound
        have hfits : ch.overruns chunk = false := by
          refine decide_eq_false ?_
          rw [pendingDataBytes_eq]
          omega
        rw [hfits]
        simp only [Bool.false_eq_true, if_false]
        have hhold : (ch.hold chunk).pendingData.flatten = ch.pendingData.flatten ++ chunk := by
          rw [Channel.hold, List.flatten_append, List.flatten_singleton]
        refine ⟨fun _ => ?_, fun hs _ => ?_, fun _ => ?_, h.room⟩
        · rw [← hb]
          show rcv.handed ++ (ch.hold chunk).pendingData.flatten ++ payloads rest = _
          rw [hhold]
          simp only [List.append_assoc]
        · have hc := h.credit hs hopen
          unfold received at hc ⊢
          simp only [hpay, payload, hphase, held_live, hhold, unacknowledged_live,
            List.length_append] at hc ⊢
          exact Eq.trans (by simp only [Channel.hold]; omega) hc
        · unfold received
          simp only [held_live, hhold, hnil, List.length_append, List.length_nil] at hbound ⊢
          omega
    case h_2 n =>
      exact h.congr (fun hs => ⟨hs, rfl⟩) (hsame rfl) rfl
        (fun _ => ⟨hopen, by rw [hphase]; rfl, by rw [hphase]; rfl⟩) rfl rfl rfl
    case h_3 =>
      refine h.congr (fun hs => ⟨hs, rfl⟩) (hsame rfl) rfl (fun _ => ⟨hopen, ?_, ?_⟩) rfl rfl rfl
      · rw [hphase, Channel.handleEof]
        split <;> rfl
      · rw [hphase, Channel.handleEof]
        split <;> rfl
    case h_4 =>
      exact h.congr (fun hs => ⟨hs, rfl⟩) (hsame rfl) rfl (fun hne => absurd rfl hne) rfl rfl rfl
    case h_5 =>
      exact h.congr (fun hs => ⟨hs, rfl⟩) (hsame rfl) rfl (fun hr => ⟨hr, rfl, rfl⟩) rfl rfl rfl
  case h_3 hphase =>
    exact ⟨fun hne => absurd hphase hne, fun _ hne => absurd hphase hne,
      fun hne => absurd hphase hne, h.room⟩

/-- A frame of the receiver arrives at the sender. -/
theorem Flow.answer {p : Packet} {rest : List Packet} (id : Nat) (h : Flow snd rcv)
    (ho : rcv.out = p :: rest) (hp : snd.phase = .pending → p = .openAck) :
    Flow (snd.handle id p) { rcv with out := rest } := by
  have hgr : grants rcv.out = grant p + grants rest := by rw [ho, grants_cons]
  have hrcv : rcv.phase ≠ .gone → rcv.phase ≠ .gone ∧ held rcv.phase = held rcv.phase ∧
      unacknowledged rcv.phase = unacknowledged rcv.phase := fun hr => ⟨hr, rfl, rfl⟩
  have hsame : grant p = 0 → grants rest = grants rcv.out := by
    intro hzero
    rw [hgr, hzero, Nat.zero_add]
  unfold Station.handle
  split
  case h_1 hphase =>
    obtain rfl := hp hphase
    rw [if_pos rfl]
    refine h.congr (fun _ => ⟨?_, ?_⟩) rfl rfl hrcv (hsame rfl) rfl rfl
    · rw [hphase]
      nofun
    · rw [hphase]
      rfl
  case h_2 ch hphase =>
    have hopen : snd.phase ≠ .gone := by
      rw [hphase]
      nofun
    split
    case h_1 chunk =>
      split
      · exact h.congr (fun hs => ⟨hs, rfl⟩) rfl rfl hrcv (hsame rfl) rfl rfl
      · split
        · unfold Station.close
          rw [hphase]
          exact h.congr (fun hne => absurd rfl hne) (by simp [payload]) rfl hrcv (hsame rfl) rfl rfl
        · exact h.congr (fun _ => ⟨hopen, by rw [hphase]; rfl⟩) rfl rfl hrcv (hsame rfl) rfl rfl
    case h_2 n =>
      have hroom := h.room hopen
      have hn : grants rcv.out = n + grants rest := hgr
      rw [hn, hphase, window_live] at hroom
      have hmin : window (.live (ch.handleWindowAdjust n)) = ch.sendWindowBytes + n :=
        Nat.min_eq_left (by omega)
      refine ⟨h.bytes, fun _ hlive => ?_, h.bound, fun _ => ?_⟩
      · have hc := h.credit hopen hlive
        rw [hn, hphase, window_live] at hc
        unfold received at hc ⊢
        simp only [hmin] at hc ⊢
        omega
      · simp only [hmin]
        omega
    case h_3 =>
      refine h.congr (fun _ => ⟨hopen, ?_⟩) rfl rfl hrcv (hsame rfl) rfl rfl
      rw [hphase, Channel.handleEof]
      split <;> rfl
    case h_4 => exact h.congr (fun hne => absurd rfl hne) rfl rfl hrcv (hsame rfl) rfl rfl
    case h_5 => exact h.congr (fun hs => ⟨hs, rfl⟩) rfl rfl hrcv (hsame rfl) rfl rfl
  case h_3 hphase =>
    exact ⟨h.bytes, fun hne => absurd hphase hne, h.bound, fun hne => absurd hphase hne⟩

end Flow

/-! ## One end -/

section Ok

variable {st st' : Station}

/-- A call of an honest consumer. -/
theorem Ok.act (h : Ok st) {a : Act} (ha : st.act a = some st')
    (hhonest : ∀ n, a = .acknowledgeConsumed n → st.acked + n ≤ st.handed.length) : Ok st' := by
  unfold Station.act at ha
  split at ha
  case h_1 hp =>
    split at ha
    · cases ha
      exact ⟨h.honest, fun ch hch => (by cases hch), fun ch hch => (by cases hch),
        fun hpend => (by cases hpend)⟩
    · cases ha
  case h_2 ch hp =>
    split at ha
    case h_1 chunk =>
      obtain ⟨ch', hsend, rfl⟩ := Option.map_eq_some_iff.1 ha
      unfold Channel.send at hsend
      split at hsend
      · cases hsend
      · cases hsend
        refine ⟨h.honest, fun ch' hch => ?_, fun ch' hch => ?_, fun hpend => (by cases hpend)⟩
        · cases hch
          exact h.replayed ch hp
        · cases hch
          exact h.unheard ch hp
    case h_2 n =>
      cases ha
      have hsame : (ch.acknowledgeConsumed n).1.dataAttached = ch.dataAttached ∧
          (ch.acknowledgeConsumed n).1.pendingData = ch.pendingData := by
        rcases ch.acknowledgeConsumed_cases n with ⟨heq, -⟩ | ⟨heq, -⟩ <;> rw [heq] <;>
          exact ⟨rfl, rfl⟩
      refine ⟨hhonest n rfl, fun ch' hch => ?_, fun ch' hch => ?_, fun hpend => (by cases hpend)⟩
      · cases hch
        rw [hsame.1, hsame.2]
        exact h.replayed ch hp
      · cases hch
        rw [hsame.1]
        exact h.unheard ch hp
    case h_3 =>
      cases ha
      refine ⟨?_, fun ch' hch _ => ?_, fun ch' hch hno => ?_, fun hpend => (by cases hpend)⟩
      · have hh := h.honest
        show st.acked ≤ (st.handed ++ _).length
        rw [List.length_append]
        omega
      · cases hch
        rfl
      · cases hch
        cases hno
    case h_4 =>
      cases ha
      refine ⟨h.honest, fun ch' hch => ?_, fun ch' hch => ?_, fun hpend => (by cases hpend)⟩
      · cases hch
        exact h.replayed ch hp
      · cases hch
        exact h.unheard ch hp
    case h_5 =>
      cases ha
      refine ⟨h.honest, h.replayed, h.unheard, fun hpend => ?_⟩
      exact absurd (hp.symm.trans hpend) nofun
    case h_6 =>
      cases ha
      unfold Station.close
      rw [hp]
      exact ⟨h.honest, fun ch hch => (by cases hch), fun ch hch => (by cases hch),
        fun hpend => (by cases hpend)⟩
    case h_7 => cases ha
  case h_3 =>
    split at ha
    · cases ha
    · cases ha
    · cases ha
      exact h

/-- The arrival of a frame. -/
theorem Ok.handle (h : Ok st) (id : Nat) (p : Packet) : Ok (st.handle id p) := by
  unfold Station.handle
  split
  case h_1 hp =>
    split
    · refine ⟨h.honest, fun ch hch hdata => ?_, fun ch hch _ => (h.pending hp).2.2,
        fun hpend => (by cases hpend)⟩
      cases hch
      cases hdata
    · exact h
  case h_2 ch hp =>
    have hlive : ∀ ch', ch'.dataAttached = ch.dataAttached → ch'.pendingData = ch.pendingData →
        Ok { st with phase := .live ch' } := by
      intro ch' hd hpd
      refine ⟨h.honest, fun c hc => ?_, fun c hc => ?_, fun hpend => (by cases hpend)⟩
      · cases hc
        rw [hd, hpd]
        exact h.replayed ch hp
      · cases hc
        rw [hd]
        exact h.unheard ch hp
    split
    case h_1 chunk =>
      split
      case isTrue hdata =>
        refine ⟨?_, h.replayed, fun c hc hno => ?_, fun hpend => ?_⟩
        · have hh := h.honest
          show st.acked ≤ (st.handed ++ chunk).length
          rw [List.length_append]
          omega
        · cases hp.symm.trans hc
          exact absurd (hdata.symm.trans hno) (by decide)
        · exact absurd (hp.symm.trans hpend) nofun
      case isFalse hdata =>
        split
        · unfold Station.close
          rw [hp]
          exact ⟨h.honest, fun ch hch => (by cases hch), fun ch hch => (by cases hch),
            fun hpend => (by cases hpend)⟩
        · refine ⟨h.honest, fun c hc hyes => ?_, fun c hc => ?_, fun hpend => (by cases hpend)⟩
          · cases hc
            exact absurd hyes hdata
          · cases hc
            exact h.unheard ch hp
    case h_2 n => exact hlive _ rfl rfl
    case h_3 =>
      unfold Channel.handleEof
      split
      · exact hlive _ rfl rfl
      · exact hlive _ rfl rfl
    case h_4 =>
      exact ⟨h.honest, fun ch hch => (by cases hch), fun ch hch => (by cases hch),
        fun hpend => (by cases hpend)⟩
    case h_5 => exact h
  case h_3 => exact h

end Ok

/-! ## Both ends -/

/-- The invariant of a channel. -/
structure Inv (s : Lane) : Prop where
  ok : ∀ e, Ok (s e)
  flow : ∀ e, Flow (s e) (s e.peer)
  /-- An end that waits for the `OpenAck` gets it first. -/
  opening : ∀ e, (s e).phase = .pending → ∃ rest, (s e.peer).out = .openAck :: rest

section Inv

variable {s : Lane}

/-- A call keeps what was sent before. -/
theorem act_out {st st' : Station} {a : Act} (ha : st.act a = some st') :
    ∃ l, st'.out = st.out ++ l := by
  unfold Station.act at ha
  split at ha
  · split at ha
    · cases ha
      exact ⟨[], (List.append_nil _).symm⟩
    · cases ha
  case h_2 ch hp =>
    split at ha
    · obtain ⟨ch', -, rfl⟩ := Option.map_eq_some_iff.1 ha
      exact ⟨_, rfl⟩
    · cases ha
      exact ⟨_, rfl⟩
    · cases ha
      exact ⟨[], (List.append_nil _).symm⟩
    · cases ha
      exact ⟨[], (List.append_nil _).symm⟩
    · cases ha
      exact ⟨_, rfl⟩
    · cases ha
      unfold Station.close
      rw [hp]
      exact ⟨_, rfl⟩
    · cases ha
  · split at ha
    · cases ha
    · cases ha
    · cases ha
      exact ⟨[], (List.append_nil _).symm⟩

/-- A call does not begin the wait for an `OpenAck`. -/
theorem act_pending {st st' : Station} {a : Act} (ha : st.act a = some st') :
    st'.phase ≠ .pending := by
  unfold Station.act at ha
  split at ha
  · split at ha
    · cases ha
      nofun
    · cases ha
  case h_2 ch hp =>
    split at ha
    · obtain ⟨ch', -, rfl⟩ := Option.map_eq_some_iff.1 ha
      nofun
    · cases ha
      nofun
    · cases ha
      nofun
    · cases ha
      nofun
    · cases ha
      rw [hp]
      nofun
    · cases ha
      unfold Station.close
      rw [hp]
      nofun
    · cases ha
  case h_3 hp =>
    split at ha
    · cases ha
    · cases ha
    · cases ha
      rw [hp]
      nofun

/-- The arrival of a frame does not begin the wait for an `OpenAck`, and that of the
`OpenAck` ends it. -/
theorem handle_pending {st : Station} {id : Nat} {p : Packet}
    (h : (st.handle id p).phase = .pending) : st.phase = .pending ∧ p ≠ .openAck := by
  unfold Station.handle at h
  split at h
  case h_1 hp =>
    split at h
    · cases h
    case isFalse hne => exact ⟨hp, hne⟩
  case h_2 ch hp =>
    exfalso
    split at h
    · split at h
      · exact absurd (hp.symm.trans h) nofun
      · split at h
        · unfold Station.close at h
          rw [hp] at h
          cases h
        · cases h
    · cases h
    · cases h
    · cases h
    · exact absurd (hp.symm.trans h) nofun
  case h_3 hp => exact absurd (hp.symm.trans h) nofun

/-- A step of honest consumers keeps the invariant. -/
theorem step_inv {id : Nat} {s' : Lane} {l : End × Event} (h : Inv s) (hhonest : Honest s l)
    (hs : step id s l = some s') : Inv s' := by
  obtain ⟨e, ev⟩ := l
  have hne := End.peer_ne e
  cases ev with
  | act a =>
    rw [step, Option.map_eq_some_iff] at hs
    obtain ⟨st, hact, rfl⟩ := hs
    have hok : ∀ n, a = .acknowledgeConsumed n → (s e).acked + n ≤ (s e).handed.length := by
      rintro n rfl
      exact hhonest
    refine ⟨fun x => ?_, fun x => ?_, fun x hx => ?_⟩
    · rcases End.eq_or_peer e x with rfl | rfl
      · simp only [if_true]
        exact (h.ok x).act hact hok
      · simp only [if_neg hne]
        exact h.ok _
    · rcases End.eq_or_peer e x with rfl | rfl
      · simp only [if_true, if_neg hne]
        exact (h.flow x).act_sender hact
      · have hflow := h.flow e.peer
        rw [End.peer_peer] at hflow
        simp only [End.peer_peer, if_true, if_neg hne]
        exact hflow.act_receiver hact ((h.ok e).act hact hok).honest
    · rcases End.eq_or_peer e x with rfl | rfl
      · simp only [if_true] at hx
        exact absurd hx (act_pending hact)
      · simp only [if_neg hne, End.peer_peer, if_true] at hx ⊢
        obtain ⟨rest, hrest⟩ := h.opening _ hx
        obtain ⟨l, hl⟩ := act_out hact
        rw [End.peer_peer] at hrest
        exact ⟨rest ++ l, by rw [hl, hrest, List.cons_append]⟩
  | deliver =>
    rw [step] at hs
    split at hs
    case h_1 => cases hs
    case h_2 p rest hout =>
      cases hs
      have hack : (s e).phase = .pending → p = .openAck := by
        intro hp
        obtain ⟨rest', hrest⟩ := h.opening e hp
        rw [hout] at hrest
        exact (List.cons.inj hrest).1
      have hpeer : (s e.peer).phase ≠ .pending := by
        intro hp
        have hnil := ((h.ok e.peer).pending hp).1
        rw [hout] at hnil
        cases hnil
      refine ⟨fun x => ?_, fun x => ?_, fun x hx => ?_⟩
      · rcases End.eq_or_peer e x with rfl | rfl
        · simp only [if_true]
          exact (h.ok x).handle id p
        · simp only [if_neg hne]
          have hok := h.ok e.peer
          exact ⟨hok.honest, hok.replayed, hok.unheard, fun hp => absurd hp hpeer⟩
      · rcases End.eq_or_peer e x with rfl | rfl
        · simp only [if_true, if_neg hne]
          exact (h.flow x).answer id hout hack
        · have hflow := h.flow e.peer
          rw [End.peer_peer] at hflow
          simp only [End.peer_peer, if_true, if_neg hne]
          exact hflow.arrive id (h.ok e) hout hack
      · rcases End.eq_or_peer e x with rfl | rfl
        · simp only [if_true] at hx
          obtain ⟨hp, hno⟩ := handle_pending hx
          exact absurd (hack hp) hno
        · simp only [if_neg hne] at hx
          exact absurd hx hpeer

theorem Inv.conserved (h : Inv s) : Conserved s := by
  have hnot : ∀ {ch}, Phase.live ch ≠ .gone := nofun
  have hcredit : ∀ e ch ch', (s e).phase = .live ch → (s e.peer).phase = .live ch' →
      ch.sendWindowBytes + (payloads (s e).out).length + received (s e.peer) +
        ch'.unacknowledgedBytes + grants (s e.peer).out =
        channelWindowBytes + (s e.peer).acked := by
    intro e ch ch' he hpeer
    have hc := (h.flow e).credit (by rw [he]; nofun) (by rw [hpeer]; nofun)
    rw [he, hpeer] at hc
    exact hc
  have hle : ∀ e, (s e).acked ≤ received (s e) := by
    intro e
    have hh := (h.ok e).honest
    unfold received
    omega
  constructor
  case credit =>
    intro e ch ch' he hpeer
    have hc := hcredit e ch ch' he hpeer
    have hl := hle e.peer
    omega
  case unclamped =>
    intro e ch n rest he hout
    refine Nat.min_eq_left ?_
    have hgr : grants (s e.peer).out = n + grants rest := by
      rw [hout, grants_cons]
      rfl
    have hroom := (h.flow e).room (by rw [he]; nofun)
    rw [he, hgr, window_live] at hroom
    omega
  case fits =>
    intro e ch chunk rest hpeer hout hdata
    have hb := (h.flow e).bound (by rw [hpeer]; nofun)
    have hnil := (h.ok e.peer).unheard ch hpeer hdata
    have hack := (h.ok e.peer).honest
    have hpay : (payloads (s e).out).length = chunk.length + (payloads rest).length := by
      rw [hout, payloads_cons, List.length_append]
      rfl
    unfold received at hb
    rw [hnil] at hb hack
    rw [hpeer, held_live, List.length_nil] at hb
    rw [List.length_nil] at hack
    refine decide_eq_false ?_
    rw [pendingDataBytes_eq]
    omega
  case delivered =>
    intro e ch hpeer
    have hb := (h.flow e).bytes (by rw [hpeer]; nofun)
    rw [hpeer] at hb
    exact ⟨hb, (h.ok e.peer).replayed ch hpeer⟩

end Inv

theorem Inv.accepted (id : Nat) : Inv (accepted id) := by
  refine ⟨fun e => ?_, fun e => ?_, fun e he => ?_⟩
  · cases e with
    | a =>
      exact ⟨Nat.le_refl _, fun ch hch => (by cases hch), fun ch hch => (by cases hch),
        fun _ => ⟨rfl, rfl, rfl⟩⟩
    | b =>
      refine ⟨Nat.le_refl _, fun ch hch _ => ?_, fun ch hch _ => rfl, fun hp => (by cases hp)⟩
      cases hch
      rfl
  · cases e with
    | a => exact ⟨fun _ => rfl, fun _ _ => rfl, fun _ => Nat.zero_le _, fun _ => Nat.le_refl _⟩
    | b => exact ⟨fun _ => rfl, fun _ _ => rfl, fun _ => Nat.zero_le _, fun _ => Nat.le_refl _⟩
  · cases e with
    | a => exact ⟨[], rfl⟩
    | b => cases he

/-- **Credit is conserved.** Along every run in which no consumer acknowledges a byte
twice, the credit of a channel that both ends hold adds up to the window in each
direction; no `WindowAdjust` is clamped, no chunk overruns the buffer, and what was handed
to the listener, is held for it or is in flight is what was sent, in order. -/
theorem credit_conserved (id : Nat) (events : List (End × Event))
    (h : Run.Meets (step id) Honest (accepted id) events) :
    Run.Along (step id) Conserved (accepted id) events :=
  Run.along_of_invariant (I := Inv) (fun _ _ _ hi hc hs => step_inv hi hc hs)
    (fun _ hi => hi.conserved) (Inv.accepted id) h

/-- Two bytes that arrive before the listener, one of them acknowledged. -/
theorem credit_conserved_two_bytes :
    Run.Along (step 1) Conserved (accepted 1)
      [(.a, .deliver), (.a, .act (.send [1, 2])), (.b, .deliver), (.b, .act .onData),
        (.b, .act (.acknowledgeConsumed 1)), (.a, .act .close), (.b, .deliver)] :=
  credit_conserved 1 _ (by decide)

end Lane

end Mux
end Mullion
