import Mathlib.Data.List.Basic
import Mathlib.Tactic

/-!
# One channel id, seen from outside

The protocol of a single channel id between the end that allocates it (the
opener) and the other end (the acceptor), abstracted from everything else the
two connections do: whether the opener has it pending or open, whether the
acceptor has it open, and the control frames for it that are in flight in each
direction.

`ChannelView.Agreed` is the invariant that ties the two ends and the two links
together.  Two moves keep it only under a condition: an opener that gives up
(`Agreed.giveUp`), when the acceptor holds the channel or is still going to be
asked for it, and an opener that takes an answer (`Agreed.openerGetsAck`,
`Agreed.openerGetsFail`), when that is the answer to an earlier use of the id.
When nothing is in flight and nothing is pending, the invariant says that both
ends hold the channel or neither does (`Agreed.settled`).
-/

namespace Mullion
namespace Mux

/-- The control frames for one channel id. -/
inductive Ctl
  | openReq
  | openAck
  | openFail
  | close
  deriving DecidableEq, Repr

/-- What the two ends and the two links hold of one channel id. -/
structure ChannelView where
  /-- The opener waits for an answer. -/
  asked : Prop
  /-- The opener holds the channel. -/
  opener : Prop
  /-- The acceptor holds the channel. -/
  acceptor : Prop
  /-- In flight from the opener to the acceptor, oldest first. -/
  fwd : List Ctl
  /-- In flight from the acceptor to the opener, oldest first. -/
  back : List Ctl

namespace ChannelView

/-- The agreement invariant.  Frames of earlier uses of the id may precede what
belongs to the present one: `close` frames on the way to the acceptor, answers
and `close` frames (`stale`) on the way back. -/
inductive Agreed (v : ChannelView) : Prop
  /-- The opener neither waits nor holds the channel. If the acceptor still does,
  a `close` is on its way. -/
  | idle (hq : ¬ v.asked) (ho : ¬ v.opener) (hf : ∀ c ∈ v.fwd, c = .close)
      (ha : v.acceptor → v.fwd ≠ []) (hb : .openReq ∉ v.back)
  /-- The request is in flight. An acceptor that still holds an earlier channel
  gets its `close` first. -/
  | asking (n : ℕ) (hq : v.asked) (ho : ¬ v.opener)
      (hf : v.fwd = List.replicate n .close ++ [.openReq]) (ha : v.acceptor → n ≠ 0)
      (hb : .openReq ∉ v.back)
  /-- The acceptor holds the channel and its answer is in flight. -/
  | granted (stale : List Ctl) (hq : v.asked) (ho : ¬ v.opener) (hf : v.fwd = [])
      (ha : v.acceptor) (hb : v.back = stale ++ [.openAck]) (hs : .openReq ∉ stale)
  /-- The acceptor granted the channel and closed it again. -/
  | withdrawn (stale : List Ctl) (hq : v.asked) (ho : ¬ v.opener) (hf : v.fwd = [])
      (ha : ¬ v.acceptor) (hb : v.back = stale ++ [.openAck, .close]) (hs : .openReq ∉ stale)
  /-- The acceptor refused. -/
  | refused (stale : List Ctl) (hq : v.asked) (ho : ¬ v.opener) (hf : v.fwd = [])
      (ha : ¬ v.acceptor) (hb : v.back = stale ++ [.openFail]) (hs : .openReq ∉ stale)
  /-- Both ends hold the channel. -/
  | both (hq : ¬ v.asked) (ho : v.opener) (hf : v.fwd = []) (ha : v.acceptor) (hb : v.back = [])
  /-- The acceptor closed it and the opener does not know yet. -/
  | closing (hq : ¬ v.asked) (ho : v.opener) (hf : v.fwd = []) (ha : ¬ v.acceptor)
      (hb : v.back = [.close])

variable {v w : ChannelView}

/-- `Agreed` reads only what the two ends hold and what is in flight. -/
theorem Agreed.congr (h : v.Agreed) (hq : w.asked ↔ v.asked) (ho : w.opener ↔ v.opener)
    (ha : w.acceptor ↔ v.acceptor) (hf : w.fwd = v.fwd) (hb : w.back = v.back) : w.Agreed := by
  have hvw : w = v := by
    cases v
    cases w
    simp only [mk.injEq]
    exact ⟨propext hq, propext ho, propext ha, hf, hb⟩
  rw [hvw]
  exact h

/-- With nothing pending and nothing in flight, the two ends agree. -/
theorem Agreed.settled (h : v.Agreed) (hq : ¬ v.asked) (hf : v.fwd = []) (hb : v.back = []) :
    v.opener ↔ v.acceptor := by
  cases h with
  | idle _ ho _ ha => exact ⟨fun h => absurd h ho, fun h => absurd hf (ha h)⟩
  | both _ ho _ ha _ => exact ⟨fun _ => ha, fun _ => ho⟩
  | closing _ _ _ _ hb' => rw [hb'] at hb; cases hb
  | asking _ h => exact absurd h hq
  | granted _ h => exact absurd h hq
  | withdrawn _ h => exact absurd h hq
  | refused _ h => exact absurd h hq

/-- No answer is ever in flight towards the acceptor. -/
theorem Agreed.fwd_mem (h : v.Agreed) {c : Ctl} (hc : c ∈ v.fwd) : c = .close ∨ c = .openReq := by
  cases h with
  | idle _ _ hf => exact Or.inl (hf c hc)
  | asking n _ _ hf =>
    rw [hf, List.mem_append, List.mem_replicate, List.mem_singleton] at hc
    rcases hc with ⟨-, hc⟩ | hc
    · exact Or.inl hc
    · exact Or.inr hc
  | granted _ _ _ hf => rw [hf] at hc; cases hc
  | withdrawn _ _ _ hf => rw [hf] at hc; cases hc
  | refused _ _ _ hf => rw [hf] at hc; cases hc
  | both _ _ hf => rw [hf] at hc; cases hc
  | closing _ _ hf => rw [hf] at hc; cases hc

/-- No request is ever in flight towards the opener. -/
theorem Agreed.back_mem (h : v.Agreed) : Ctl.openReq ∉ v.back := by
  cases h with
  | idle _ _ _ _ hb => exact hb
  | asking _ _ _ _ _ hb => exact hb
  | granted _ _ _ _ _ hb hs => simp [hb, hs]
  | withdrawn _ _ _ _ _ hb hs => simp [hb, hs]
  | refused _ _ _ _ _ hb hs => simp [hb, hs]
  | both _ _ _ _ hb => simp [hb]
  | closing _ _ _ _ hb => simp [hb]

/-! ## Moves of the opener -/

/-- Asking for an id that is idle. -/
theorem Agreed.ask (h : v.Agreed) (hq : ¬ v.asked) (ho : ¬ v.opener) :
    Agreed { v with asked := True, fwd := v.fwd ++ [.openReq] } := by
  cases h with
  | idle _ _ hf ha hb =>
    have hrep : v.fwd = List.replicate v.fwd.length .close := List.eq_replicate_iff.2 ⟨rfl, hf⟩
    refine .asking v.fwd.length trivial ho (by rw [← hrep]) (fun h hn => ?_) hb
    exact ha h (List.length_eq_zero_iff.1 hn)
  | asking _ h => exact absurd h hq
  | granted _ h => exact absurd h hq
  | withdrawn _ h => exact absurd h hq
  | refused _ h => exact absurd h hq
  | both _ h => exact absurd h ho
  | closing _ h => exact absurd h ho

/-- The opener closes a channel it holds. -/
theorem Agreed.openerCloses (h : v.Agreed) (ho : v.opener) :
    Agreed { v with opener := False, fwd := v.fwd ++ [.close] } := by
  cases h with
  | both hq _ hf _ hb => exact .idle hq id (by simp [hf]) (by simp) (by simp [hb])
  | closing hq _ hf _ hb => exact .idle hq id (by simp [hf]) (by simp) (by simp [hb])
  | idle _ h => exact absurd ho h
  | asking _ _ h => exact absurd ho h
  | granted _ _ h => exact absurd ho h
  | withdrawn _ _ h => exact absurd ho h
  | refused _ _ h => exact absurd ho h

/-- The opener gives up waiting. Nobody tells the acceptor, so this keeps the
agreement only when the acceptor has been asked already and holds nothing. -/
theorem Agreed.giveUp (h : v.Agreed) (hq : v.asked) (ha : ¬ v.acceptor)
    (hf : .openReq ∉ v.fwd) : Agreed { v with asked := False } := by
  have hb := h.back_mem
  cases h with
  | asking n _ _ hf' => exact absurd (by rw [hf']; simp) hf
  | granted _ _ _ _ h => exact absurd h ha
  | withdrawn _ _ ho hf' => exact .idle id ho (by simp [hf']) (fun h => absurd h ha) hb
  | refused _ _ ho hf' => exact .idle id ho (by simp [hf']) (fun h => absurd h ha) hb
  | idle h => exact absurd hq h
  | both h => exact absurd hq h
  | closing h => exact absurd hq h

/-! ## What the opener receives -/

/-- The head of a list that ends in `tail` is the head of `tail` or a stale
element before it. -/
theorem cons_eq_append {c : Ctl} {rest stale tail : List Ctl} (h : stale ++ tail = c :: rest) :
    (stale = [] ∧ tail = c :: rest) ∨ ∃ stale', stale = c :: stale' ∧ rest = stale' ++ tail := by
  cases stale with
  | nil => exact Or.inl ⟨rfl, h⟩
  | cons d stale' =>
    rw [List.cons_append, List.cons.injEq] at h
    exact Or.inr ⟨stale', by rw [h.1], h.2.symm⟩

/-- Frames before an answer keep their place when the first of them, which is
not the answer, is taken. -/
theorem stale_tail {c : Ctl} {rest stale tail : List Ctl} (h : stale ++ tail = c :: rest)
    (hc : tail.head? ≠ some c) (hs : .openReq ∉ stale) :
    ∃ stale', rest = stale' ++ tail ∧ .openReq ∉ stale' := by
  rcases cons_eq_append h with ⟨-, ht⟩ | ⟨stale', hst, hr⟩
  · exact absurd (by rw [ht]; rfl) hc
  · exact ⟨stale', hr, fun hm => hs (by rw [hst]; exact List.mem_cons_of_mem _ hm)⟩

/-- A `close` reaches the opener: it drops the channel if it holds it. -/
theorem Agreed.openerGetsClose {rest : List Ctl} (h : v.Agreed) (hb : v.back = .close :: rest) :
    Agreed { v with opener := False, back := rest } := by
  cases h with
  | idle hq _ hf ha hb' =>
    exact .idle hq id hf ha (fun hm => hb' (by rw [hb]; exact List.mem_cons_of_mem _ hm))
  | asking n hq _ hf ha hb' =>
    exact .asking n hq id hf ha (fun hm => hb' (by rw [hb]; exact List.mem_cons_of_mem _ hm))
  | granted stale hq _ hf ha hb' hs =>
    obtain ⟨stale', hr, hs'⟩ := stale_tail (hb'.symm.trans hb) (by simp) hs
    exact .granted stale' hq id hf ha hr hs'
  | withdrawn stale hq _ hf ha hb' hs =>
    obtain ⟨stale', hr, hs'⟩ := stale_tail (hb'.symm.trans hb) (by simp) hs
    exact .withdrawn stale' hq id hf ha hr hs'
  | refused stale hq _ hf ha hb' hs =>
    obtain ⟨stale', hr, hs'⟩ := stale_tail (hb'.symm.trans hb) (by simp) hs
    exact .refused stale' hq id hf ha hr hs'
  | both _ _ _ _ hb' => rw [hb'] at hb; cases hb
  | closing hq _ hf ha hb' =>
    rw [hb'] at hb
    cases hb
    exact .idle hq id (by simp [hf]) (fun h => absurd h ha) (by simp)

/-- An `openAck` the opener waits for reaches it. It has to be the only answer in
flight, with no request of the opener behind it. -/
theorem Agreed.openerGetsAck {rest : List Ctl} (h : v.Agreed) (hq : v.asked)
    (hb : v.back = .openAck :: rest) (hf : .openReq ∉ v.fwd) (hack : .openAck ∉ rest)
    (hfail : .openFail ∉ rest) :
    Agreed { v with asked := False, opener := True, back := rest } := by
  cases h with
  | asking n _ _ hf' => exact absurd (by rw [hf']; simp) hf
  | granted stale _ _ hf ha hb' _ =>
    rcases cons_eq_append (hb'.symm.trans hb) with ⟨-, ht⟩ | ⟨stale', -, hr⟩
    · cases ht
      exact .both id trivial hf ha rfl
    · exact absurd (by simp [hr]) hack
  | withdrawn stale _ _ hf ha hb' _ =>
    rcases cons_eq_append (hb'.symm.trans hb) with ⟨-, ht⟩ | ⟨stale', -, hr⟩
    · cases ht
      exact .closing id trivial hf ha rfl
    · exact absurd (by simp [hr]) hack
  | refused stale _ _ _ _ hb' _ =>
    rcases cons_eq_append (hb'.symm.trans hb) with ⟨-, ht⟩ | ⟨stale', -, hr⟩
    · cases ht
    · exact absurd (by simp [hr]) hfail
  | idle h => exact absurd hq h
  | both h => exact absurd hq h
  | closing h => exact absurd hq h

/-- An `openFail` the opener waits for reaches it, under the same condition. -/
theorem Agreed.openerGetsFail {rest : List Ctl} (h : v.Agreed) (hq : v.asked)
    (hb : v.back = .openFail :: rest) (hf : .openReq ∉ v.fwd) (hack : .openAck ∉ rest)
    (hfail : .openFail ∉ rest) : Agreed { v with asked := False, back := rest } := by
  cases h with
  | asking n _ _ hf' => exact absurd (by rw [hf']; simp) hf
  | refused stale _ ho hf ha hb' _ =>
    rcases cons_eq_append (hb'.symm.trans hb) with ⟨-, ht⟩ | ⟨stale', -, hr⟩
    · cases ht
      exact .idle id ho (by simp [hf]) (fun h => absurd h ha) (by simp)
    · exact absurd (by simp [hr]) hfail
  | granted stale _ _ _ _ hb' _ =>
    rcases cons_eq_append (hb'.symm.trans hb) with ⟨-, ht⟩ | ⟨stale', -, hr⟩
    · cases ht
    · exact absurd (by simp [hr]) hack
  | withdrawn stale _ _ _ _ hb' _ =>
    rcases cons_eq_append (hb'.symm.trans hb) with ⟨-, ht⟩ | ⟨stale', -, hr⟩
    · cases ht
    · exact absurd (by simp [hr]) hack
  | idle h => exact absurd hq h
  | both h => exact absurd hq h
  | closing h => exact absurd hq h

/-- An answer the opener does not wait for is dropped. -/
theorem Agreed.openerIgnores {c : Ctl} {rest : List Ctl} (h : v.Agreed) (hq : ¬ v.asked)
    (hc : c ≠ .close) (hb : v.back = c :: rest) : Agreed { v with back := rest } := by
  cases h with
  | idle _ ho hf ha hb' =>
    exact .idle hq ho hf ha (fun hm => hb' (by rw [hb]; exact List.mem_cons_of_mem _ hm))
  | both _ _ _ _ hb' => rw [hb'] at hb; cases hb
  | closing _ _ _ _ hb' =>
    rw [hb'] at hb
    cases hb
    exact absurd rfl hc
  | asking _ h => exact absurd h hq
  | granted _ h => exact absurd h hq
  | withdrawn _ h => exact absurd h hq
  | refused _ h => exact absurd h hq

/-! ## Moves of the acceptor -/

/-- The acceptor closes a channel it holds. -/
theorem Agreed.acceptorCloses (h : v.Agreed) (ha : v.acceptor) :
    Agreed { v with acceptor := False, back := v.back ++ [.close] } := by
  cases h with
  | idle hq ho hf _ hb => exact .idle hq ho hf (fun h => h.elim) (by simp [hb])
  | asking n hq ho hf _ hb => exact .asking n hq ho hf (fun h => h.elim) (by simp [hb])
  | granted stale hq ho hf _ hb hs => exact .withdrawn stale hq ho hf id (by simp [hb]) hs
  | both hq ho hf _ hb => exact .closing hq ho hf id (by simp [hb])
  | withdrawn _ _ _ _ h => exact absurd ha h
  | refused _ _ _ _ h => exact absurd ha h
  | closing _ _ _ h => exact absurd ha h

/-- A `close` reaches the acceptor. -/
theorem Agreed.acceptorGetsClose {rest : List Ctl} (h : v.Agreed) (hf : v.fwd = .close :: rest) :
    Agreed { v with acceptor := False, fwd := rest } := by
  cases h with
  | idle hq ho hf' _ hb =>
    exact .idle hq ho (fun c hc => hf' c (by rw [hf]; exact List.mem_cons_of_mem _ hc))
      (fun h => h.elim) hb
  | asking n hq ho hf' _ hb =>
    cases n with
    | zero => rw [hf] at hf'; cases hf'
    | succ n =>
      rw [hf, List.replicate_succ, List.cons_append, List.cons.injEq] at hf'
      exact .asking n hq ho hf'.2 (fun h => h.elim) hb
  | granted _ _ _ hf' => rw [hf'] at hf; cases hf
  | withdrawn _ _ _ hf' => rw [hf'] at hf; cases hf
  | refused _ _ _ hf' => rw [hf'] at hf; cases hf
  | both _ _ hf' => rw [hf'] at hf; cases hf
  | closing _ _ hf' => rw [hf'] at hf; cases hf

/-- A request that reaches the acceptor is the only frame on its way there and
finds the id free. -/
theorem Agreed.request (h : v.Agreed) {rest : List Ctl} (hf : v.fwd = .openReq :: rest) :
    rest = [] ∧ v.asked ∧ ¬ v.opener ∧ ¬ v.acceptor := by
  cases h with
  | idle _ _ hf' _ => exact absurd (hf' .openReq (by rw [hf]; simp)) (by decide)
  | asking n hq ho hf' ha _ =>
    cases n with
    | zero =>
      rw [hf] at hf'
      cases hf'
      exact ⟨rfl, hq, ho, fun h => ha h rfl⟩
    | succ n => rw [hf, List.replicate_succ] at hf'; cases hf'
  | granted _ _ _ hf' => rw [hf'] at hf; cases hf
  | withdrawn _ _ _ hf' => rw [hf'] at hf; cases hf
  | refused _ _ _ hf' => rw [hf'] at hf; cases hf
  | both _ _ hf' => rw [hf'] at hf; cases hf
  | closing _ _ hf' => rw [hf'] at hf; cases hf

/-- The acceptor grants the request. -/
theorem Agreed.accept (h : v.Agreed) {rest : List Ctl} (hf : v.fwd = .openReq :: rest) :
    Agreed { v with acceptor := True, fwd := rest, back := v.back ++ [.openAck] } := by
  obtain ⟨hr, hq, ho, -⟩ := h.request hf
  exact .granted v.back hq ho hr trivial rfl h.back_mem

/-- The acceptor refuses the request. -/
theorem Agreed.refuse (h : v.Agreed) {rest : List Ctl} (hf : v.fwd = .openReq :: rest) :
    Agreed { v with fwd := rest, back := v.back ++ [.openFail] } := by
  obtain ⟨hr, hq, ho, ha⟩ := h.request hf
  exact .refused v.back hq ho hr ha rfl h.back_mem

end ChannelView

end Mux
end Mullion
