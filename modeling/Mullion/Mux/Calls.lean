import Mullion.Mux.Credit
import Mullion.Mux.Station

/-!
# The calls of an honest consumer

A consumer that sends what fits and acknowledges what it was handed, any number of times.

* `Calls` — the ends that such calls lead to;
* `Calls.live`, `Calls.handed`, … — what they leave alone;
* `Lane.Inv.calls` — they keep the books of a channel.
-/

namespace Mullion
namespace Mux

open Station

/-- Sends that fit, and acknowledgements of what was handed. -/
inductive Calls (st : Station) : Station → Prop
  | refl : Calls st st
  | send {st₁ : Station} {ch : Channel} (chunk : List UInt8) (before : Calls st st₁)
      (live : st₁.phase = .live ch) (fits : chunk.length ≤ ch.sendWindowBytes) :
      Calls st (st₁.wrote ch chunk)
  | acknowledge {st₁ : Station} (n : Nat) (before : Calls st st₁)
      (honest : st₁.acked + n ≤ st₁.handed.length) : Calls st (st₁.acknowledge n)

namespace Calls

variable {st st₁ st₂ : Station}

theorem trans (h : Calls st st₁) (h' : Calls st₁ st₂) : Calls st st₂ := by
  induction h' with
  | refl => exact h
  | send chunk _ live fits ih => exact .send chunk ih live fits
  | acknowledge n _ honest ih => exact .acknowledge n ih honest

/-- The listener stays, nothing is held for it that was not, and credit is returned in time. -/
theorem live {ch : Channel} (h : Calls st st₁) (hp : st.phase = .live ch) :
    ∃ ch₁, st₁.phase = .live ch₁ ∧ ch₁.dataAttached = ch.dataAttached ∧
      ch₁.pendingData = ch.pendingData ∧
      (ch.unacknowledgedBytes < windowAdjustThresholdBytes →
        ch₁.unacknowledgedBytes < windowAdjustThresholdBytes) := by
  induction h with
  | refl => exact ⟨ch, hp, rfl, rfl, id⟩
  | send chunk _ live _ ih =>
    obtain ⟨ch₁, hp₁, hkept⟩ := ih
    cases live.symm.trans hp₁
    exact ⟨_, wrote_phase _ _, hkept⟩
  | acknowledge n _ _ ih =>
    obtain ⟨ch₁, hp₁, hdata, hheld, -⟩ := ih
    rw [acknowledge_live hp₁]
    refine ⟨_, rfl, ?_⟩
    rcases ch₁.acknowledgeConsumed_cases n with ⟨hack, -⟩ | ⟨hack, hless⟩
    · rw [hack]
      exact ⟨hdata, hheld, fun _ => (by decide : 0 < windowAdjustThresholdBytes)⟩
    · rw [hack]
      exact ⟨hdata, hheld, fun _ => hless⟩

theorem handed (h : Calls st st₁) : st₁.handed = st.handed := by
  induction h with
  | refl => rfl
  | send _ _ _ _ ih => exact ih
  | acknowledge n _ _ ih => rw [acknowledge_handed, ih]

/-- Only data and window adjustments are sent. -/
theorem out (h : Calls st st₁) : ∃ ps, st₁.out = st.out ++ ps ∧
    ∀ p ∈ ps, (∃ chunk, p = .data chunk) ∨ ∃ n, p = .windowAdjust n := by
  induction h with
  | refl => exact ⟨[], (List.append_nil _).symm, fun p hp => absurd hp List.not_mem_nil⟩
  | send chunk _ _ _ ih =>
    obtain ⟨ps, hout, hps⟩ := ih
    refine ⟨ps ++ [.data chunk], by rw [wrote_out, hout, List.append_assoc], fun p hp => ?_⟩
    rcases List.mem_append.1 hp with hp | hp
    · exact hps p hp
    · exact .inl ⟨chunk, List.mem_singleton.1 hp⟩
  | @acknowledge st₁ n _ _ ih =>
    obtain ⟨ps, hout, hps⟩ := ih
    cases hc : st₁.closed with
    | true =>
      rw [acknowledge_closed hc]
      exact ⟨ps, hout, hps⟩
    | false =>
      obtain ⟨ch, hp⟩ := not_closed (Bool.eq_false_iff.1 hc)
      rw [acknowledge_live hp]
      refine ⟨_, by rw [hout, List.append_assoc], fun p hp => ?_⟩
      rcases List.mem_append.1 hp with hp | hp
      · exact hps p hp
      · obtain ⟨m, -, rfl⟩ := Option.map_eq_some_iff.1 (Option.mem_toList.1 hp)
        exact .inr ⟨m, rfl⟩

end Calls

/-- Calls keep the invariant of a channel. -/
theorem Lane.Inv.calls {s : Lane} (h : Lane.Inv s) {e : End} {st : Station} (hc : Calls (s e) st) :
    Lane.Inv fun x => if x = e then st else s x := by
  have hover : ∀ st₁ st₂ : Station, (fun x => if x = e then st₂ else if x = e then st₁ else s x) =
      fun x => if x = e then st₂ else s x := by
    intro st₁ st₂
    funext x
    split <;> rfl
  induction hc with
  | refl =>
    have hsame : (fun x => if x = e then s e else s x) = s := by
      funext x
      split
      case isTrue hx => rw [hx]
      case isFalse => rfl
    rw [hsame]
    exact h
  | @send st₁ ch chunk _ live fits ih =>
    refine @Lane.step_inv _ 0 _ (e, .act (.send chunk)) ih trivial ?_
    show Option.map _ (Station.act (if e = e then st₁ else s e) (.send chunk)) = _
    rw [if_pos rfl, act_send_live live fits, Option.map_some, hover]
  | @acknowledge st₁ n _ honest ih =>
    cases hact : st₁.act (.acknowledgeConsumed n) with
    | none =>
      have hsame : st₁.acknowledge n = st₁ := by
        unfold Station.acknowledge
        rw [hact]
        rfl
      rw [hsame]
      exact ih
    | some st₂ =>
      have hsome : st₁.acknowledge n = st₂ := by
        unfold Station.acknowledge
        rw [hact]
        rfl
      rw [hsome]
      refine @Lane.step_inv _ 0 _ (e, .act (.acknowledgeConsumed n)) ih ?_ ?_
      · show (if e = e then st₁ else s e).acked + n ≤ (if e = e then st₁ else s e).handed.length
        rw [if_pos rfl]
        exact honest
      · show Option.map _ (Station.act (if e = e then st₁ else s e) (.acknowledgeConsumed n)) = _
        rw [if_pos rfl, hact, Option.map_some, hover]

end Mux
end Mullion
