import Mullion.Lib.Run
import Mullion.Relay.Pipe

/-!
# End of stream and the data before it

A direction of a relay queues what does not fit the window of its destination, and flushes the
queue when the window grows; the `Eof` of its source takes another path and waits for nothing.
Does it still come after the data?

`InOrder` is what a reader at the destination relies on, at every moment: the bytes sent so
far and those that wait are the forwarded bytes in order, what waits does not fit, and the
`Eof` has been sent once the source has ended, after all of the data. The answer is
`in_order_iff`: this holds along a run exactly when every `Eof` of the source finds the queue
empty (`Emptied`). One direction is an invariant (`Inv`): before the `Eof` a flush only moves
the front of the queue to the destination, and after it nothing is left to flush. For the
other, an `Eof` that finds a chunk waiting is sent before it (`Inv.early`), and the chunk is
not empty, since it did not fit. `data_after_eof` shows such a run for any two chunks that
together exceed the window.
-/

namespace Mullion
namespace Relay

open Mux Station Lane

/-! ## The property -/

/-- The frames on the destination are the forwarded bytes, in order, and then one `Eof`. -/
structure InOrder {σ : Type*} (d : Direction σ) : Prop where
  bytes : payloads d.dest.out ++ d.pending.flatten = d.forwarded
  /-- What waits does not fit. -/
  waits : ∀ next rest, d.pending = next :: rest →
    closed d.dest = true ∨ sendWindow d.dest < next.length
  /-- The `Eof` is sent when the source has ended, and not before. -/
  ended : d.ended = true → .eof ∈ d.dest.out ∨ closed d.dest = true
  notBefore : .eof ∈ d.dest.out → d.ended = true
  eof : .eof ∈ d.dest.out → ∃ datas, d.dest.out = datas ++ [.eof] ∧ .eof ∉ datas ∧
    payloads datas = d.forwarded

/-- The `Eof` of the source finds nothing waiting, or the destination closed. -/
def Emptied {σ : Type*} (d : Direction σ) : Direction.Event → Prop
  | .eof => closed d.dest = true ∨ d.pending = []
  | _ => True

instance {σ : Type*} (d : Direction σ) : ∀ e, Decidable (Emptied d e)
  | .eof => inferInstanceAs (Decidable (_ ∨ _))
  | .data _ | .windowAdjust _ => isTrue trivial

/-! ## The invariant -/

theorem eof_not_mem_data (chunks : List (List UInt8)) : Packet.eof ∉ chunks.map Packet.data := by
  intro h
  obtain ⟨chunk, -, heq⟩ := List.mem_map.1 h
  cases heq

/-- What holds of a direction between two events. -/
structure Inv {σ : Type*} (d : Direction σ) : Prop where
  bytes : payloads d.dest.out ++ d.pending.flatten = d.forwarded
  open_ : d.ended = false → .eof ∉ d.dest.out
  finished : d.ended = true → closed d.dest = true ∨ d.pending = []
  ended : d.ended = true → .eof ∈ d.dest.out ∨ closed d.dest = true
  eof : .eof ∈ d.dest.out → ∃ datas, d.dest.out = datas ++ [.eof] ∧ .eof ∉ datas ∧
    payloads datas = d.forwarded
  /-- What waits does not fit. -/
  stopped : ∀ next rest, d.pending = next :: rest → d.dest.act (.send next) = none

section Inv

variable {σ : Type*} {d : Direction σ}

/-- Flushing before the `Eof` keeps the bytes in order. -/
theorem Inv.flushed (hbytes : payloads d.dest.out ++ d.pending.flatten = d.forwarded)
    (hended : d.ended = false) (hno : .eof ∉ d.dest.out) : Inv d.flushed := by
  obtain ⟨done, hpending, hout, hstop⟩ := flush_spec d.source d.dest d.pending
  have hno' : .eof ∉ d.flushed.dest.out := by
    show .eof ∉ (flush d.source d.dest d.pending).2.1.out
    rw [hout]
    intro h
    rcases List.mem_append.1 h with h | h
    · exact hno h
    · exact eof_not_mem_data done h
  constructor
  case bytes =>
    show payloads (flush d.source d.dest d.pending).2.1.out ++
      (flush d.source d.dest d.pending).2.2.flatten = d.forwarded
    rw [hout, payloads_append, payloads_data, List.append_assoc, ← List.flatten_append, ← hpending,
      hbytes]
  case open_ => exact fun _ => hno'
  case finished => exact fun hyes => absurd (hended.symm.trans hyes) Bool.false_ne_true
  case ended => exact fun hyes => absurd (hended.symm.trans hyes) Bool.false_ne_true
  case eof => exact fun hyes => absurd hyes hno'
  case stopped => exact hstop

theorem Inv.onData (stage : Stage σ) (h : Inv d) (hended : d.ended = false)
    (chunk : List UInt8) : Inv (d.onData stage chunk) := by
  unfold Direction.onData
  split
  · exact h
  case isFalse hopen =>
    have hno := h.open_ hended
    have hdest : ¬ d.dest.closed = true := fun hc => hopen (by rw [hc, Bool.true_or])
    obtain ⟨ch, hp⟩ := not_closed hdest
    split
    · have hno' : .eof ∉ d.dest.out ++ [.close] := by
        intro hyes
        rcases List.mem_append.1 hyes with hyes | hyes
        · exact hno hyes
        · cases List.mem_singleton.1 hyes
      rw [close_live hp]
      constructor
      case bytes =>
        show payloads (d.dest.out ++ [.close]) ++ d.pending.flatten = d.forwarded
        rw [payloads_append, ← h.bytes]
        simp [payload]
      case open_ => exact fun _ => hno'
      case finished => exact fun _ => .inl rfl
      case ended => exact fun _ => .inr rfl
      case eof => exact fun hyes => absurd hyes hno'
      case stopped => exact fun next _ _ => act_send_closed rfl next
    case h_2 s result _ =>
      refine Inv.flushed ?_ hended hno
      show payloads d.dest.out ++ (d.pending ++ result.forward).flatten =
        d.forwarded ++ result.forward.flatten
      rw [List.flatten_append, ← List.append_assoc, h.bytes]

theorem Inv.onDrain (h : Inv d) (id n : Nat) : Inv (d.onDrain id n) := by
  obtain ⟨hout, hclosed⟩ := handle_adjust_out d.dest id n
  cases hended : d.ended with
  | false =>
    refine Inv.flushed ?_ hended ?_
    · show payloads (d.dest.handle id (.windowAdjust n)).out ++ _ = _
      rw [hout]
      exact h.bytes
    · show .eof ∉ (d.dest.handle id (.windowAdjust n)).out
      rw [hout]
      exact h.open_ hended
  | true =>
    -- after the `Eof` nothing is left to send, or nowhere to send it
    have hsame : flush d.source (d.dest.handle id (.windowAdjust n)) d.pending =
        (d.source, d.dest.handle id (.windowAdjust n), d.pending) := by
      rcases h.finished hended with hc | hnil
      · cases d.pending with
        | nil => rfl
        | cons next rest =>
          rw [flush, act_send_closed (hclosed.trans hc)]
      · rw [hnil, flush]
    have hd : d.onDrain id n = { d with dest := d.dest.handle id (.windowAdjust n) } := by
      unfold Direction.onDrain Direction.flushed
      rw [hsame]
    rw [hd]
    constructor
    case bytes => exact hout ▸ h.bytes
    case open_ => exact fun hno => absurd (hended.symm.trans hno) (by decide)
    case finished => exact fun _ => (h.finished hended).imp_left fun hc => hclosed.trans hc
    case ended => exact fun _ => (h.ended hended).imp (fun hin => hout ▸ hin) hclosed.trans
    case eof =>
      show .eof ∈ (d.dest.handle id (.windowAdjust n)).out → _
      simp only [hout]
      exact h.eof
    case stopped =>
      intro next rest hpending
      rcases h.finished hended with hc | hnil
      · exact act_send_closed (hclosed.trans hc) next
      · rw [hnil] at hpending
        cases hpending

theorem Inv.onEof (h : Inv d) (hended : d.ended = false) (hempty : Emptied d .eof) :
    Inv d.onEof := by
  have hno := h.open_ hended
  by_cases hc : closed d.dest = true
  · have hd : d.onEof = { d with ended := true } := by
      unfold Direction.onEof
      rw [sendEof_closed hc]
    rw [hd]
    exact ⟨h.bytes, nofun, fun _ => .inl hc, fun _ => .inr hc, fun hyes => absurd hyes hno,
      h.stopped⟩
  · have hnil := hempty.resolve_left hc
    obtain ⟨ch, hp⟩ := not_closed hc
    have hbytes := h.bytes
    rw [hnil, List.flatten_nil, List.append_nil] at hbytes
    unfold Direction.onEof
    rw [sendEof_live hp]
    constructor
    case bytes =>
      show payloads (d.dest.out ++ [.eof]) ++ d.pending.flatten = d.forwarded
      rw [hnil, payloads_append, ← hbytes]
      simp [payload]
    case open_ => nofun
    case finished => exact fun _ => .inr hnil
    case ended => exact fun _ => .inl (List.mem_append_right _ List.mem_cons_self)
    case eof => exact fun _ => ⟨d.dest.out, rfl, hno, hbytes⟩
    case stopped =>
      intro next rest hpending
      rw [show d.pending = [] from hnil] at hpending
      cases hpending

/-- The invariant gives the property. -/
theorem Inv.inOrder (h : Inv d) : InOrder d where
  bytes := h.bytes
  waits := by
    intro next rest hpending
    by_cases hc : closed d.dest = true
    · exact .inl hc
    · obtain ⟨ch, hp⟩ := not_closed hc
      rw [sendWindow_live hp]
      exact .inr (act_send_none hp (h.stopped next rest hpending))
  ended := h.ended
  notBefore := by
    intro hin
    by_contra hnot
    exact h.open_ (Bool.eq_false_iff.2 hnot) hin
  eof := h.eof

/-- A step that is emptied keeps the invariant. -/
theorem Inv.step {stage : Stage σ} {id : Nat} {d' : Direction σ} {e : Direction.Event}
    (h : Inv d) (hempty : Emptied d e) (hs : d.step stage id e = some d') : Inv d' := by
  cases e with
  | data chunk =>
    rw [Direction.step] at hs
    split at hs
    · cases hs
    case isFalse hended =>
      cases hs
      exact h.onData stage (Bool.eq_false_iff.2 hended) chunk
  | eof =>
    rw [Direction.step] at hs
    split at hs
    · cases hs
    case isFalse hended =>
      cases hs
      exact h.onEof (Bool.eq_false_iff.2 hended) hempty
  | windowAdjust n =>
    cases hs
    exact h.onDrain id n

/-- An `Eof` that finds something waiting is sent before it. -/
theorem Inv.early {stage : Stage σ} {id : Nat} {d' : Direction σ} {e : Direction.Event}
    (h : Inv d) (hfull : ¬ Emptied d e) (hs : d.step stage id e = some d') : ¬ InOrder d' := by
  cases e with
  | data chunk => exact absurd trivial hfull
  | windowAdjust n => exact absurd trivial hfull
  | eof =>
    obtain ⟨hc, hne⟩ := not_or.1 hfull
    rw [Direction.step] at hs
    split at hs
    · cases hs
    · cases hs
      obtain ⟨ch, hp⟩ := not_closed hc
      intro hin
      have heof := hin.eof
      unfold Direction.onEof at heof
      rw [sendEof_live hp] at heof
      obtain ⟨datas, hout, -, hbytes⟩ := heof (List.mem_append_right _ List.mem_cons_self)
      obtain rfl := List.append_cancel_right hout
      -- what waits is not empty, since it did not fit
      have hrest : d.pending.flatten = [] := by
        have hall := h.bytes
        have hsame : payloads d.dest.out = d.forwarded := hbytes
        rw [hsame] at hall
        exact List.append_right_eq_self.1 hall
      cases hpending : d.pending with
      | nil => exact hne hpending
      | cons next rest =>
        have hlong := act_send_none hp (h.stopped next rest hpending)
        rw [hpending, List.flatten_cons, List.append_eq_nil_iff] at hrest
        rw [hrest.1] at hlong
        exact absurd hlong (Nat.not_lt_zero _)

theorem Inv.piped (sourceId destId : Nat) (s : σ) : Inv (Direction.piped sourceId destId s) :=
  ⟨rfl, fun _ => List.not_mem_nil, nofun, nofun, fun h => absurd h List.not_mem_nil, nofun⟩

end Inv

/-- **End of stream and the data.** For either shape of the relay, and any order of data,
`Eof` and window adjustments, the frames on the destination are the forwarded bytes in
order and then one `Eof`, sent once the source has ended, and what waits does not fit, exactly
when the `Eof` of the source finds nothing waiting. -/
theorem in_order_iff {σ : Type*} (stage : Stage σ) (sourceId destId : Nat) (s : σ)
    (events : List Direction.Event) :
    Run.Along (Direction.step stage · destId) InOrder (Direction.piped sourceId destId s) events ↔
      Run.Meets (Direction.step stage · destId) Emptied (Direction.piped sourceId destId s)
        events :=
  Run.along_iff_meets (I := Inv) (fun _ _ _ h hc hs => h.step hc hs)
    (fun _ h => h.inOrder) (fun _ _ _ h hc hs => h.early hc hs)
    (Inv.piped sourceId destId s)

/-- Data that does not fit before the `Eof` is sent after it. -/
theorem data_after_eof (sourceId destId : Nat) {c₁ c₂ : List UInt8}
    (h₁ : c₁.length ≤ channelWindowBytes) (h₂ : c₂.length ≤ channelWindowBytes)
    (hlong : channelWindowBytes < c₁.length + c₂.length) :
    (Run.play (Direction.step raw · destId) (Direction.piped sourceId destId ())
      [.data c₁, .data c₂, .eof, .windowAdjust c₁.length]).map (·.dest.out) =
      some [.data c₁, .eof, .data c₂] := by
  have hfit : ¬ channelWindowBytes < c₁.length := Nat.not_lt.2 h₁
  have hwait : channelWindowBytes - c₁.length < c₂.length := by omega
  have hdrain : ¬ min (channelWindowBytes - c₁.length + c₁.length) channelWindowBytes <
      c₂.length := by omega
  simp only [Run.play, Direction.step, Direction.onData, Direction.onEof, Direction.onDrain, raw,
    Direction.piped, closed_live, closed_acknowledge, sendRejects, sendEof, Direction.flushed, flush,
    Station.act, Station.handle, Channel.send, Channel.new, Channel.onData,
    Channel.handleWindowAdjust, hfit, hwait, hdrain, if_true, if_false, Option.map_some,
    Option.map_none, Option.getD_some, Bool.or_self, Bool.false_eq_true, List.nil_append,
    List.cons_append]

/-- 200000 bytes, 100000 bytes and the `Eof`, before the first window adjustment. -/
theorem eof_overtakes_data : ¬ Run.Along (Direction.step raw · 2) InOrder (Direction.piped 1 2 ())
    [.data (List.replicate 200000 0), .data (List.replicate 100000 1), .eof,
      .windowAdjust 200000] := by
  intro h
  have hout := @data_after_eof 1 2 (List.replicate 200000 0) (List.replicate 100000 1)
    (by rw [List.length_replicate]; decide) (by rw [List.length_replicate]; decide)
    (by rw [List.length_replicate, List.length_replicate]; decide)
  rw [List.length_replicate] at hout
  obtain ⟨d, hplay, hd⟩ := Option.map_eq_some_iff.1 hout
  have heof : .eof ∈ d.dest.out := by
    rw [hd]
    exact List.mem_cons_of_mem _ List.mem_cons_self
  obtain ⟨datas, heq, -⟩ := (h.last hplay).eof heof
  rw [hd] at heq
  have hlast := congrArg List.getLast? heq
  rw [List.getLast?_concat] at hlast
  cases hlast

end Relay
end Mullion
