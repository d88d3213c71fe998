import Mathlib.Data.Int.Basic
import Mathlib.Tactic

/-!
# The attention state machine

When a session asks for its user (`services/attention-detect.ts`).

* `SignalKind` — what may ask, how long it has to stand uncontradicted, and which kinds only the
  user can clear;
* `advanceAttention` — one input;
* `Machine.WellFormed` — what is set in which state, kept by every input;
* `confirmedKind_advance` — where a confirmed kind comes from.
-/

namespace Mullion
namespace Attention

/-- `AttentionSignalKind`. -/
inductive SignalKind
  | bell
  | notification
  | titleIdle
  | altScreenExit
  | silence
  | hookNotification
  | reviewGate
  | agentIdle
  | promoteRequest
  | permissionRequest
  | planReady
  | elicitation
  | question
  | toolFailure
  | apiError
  deriving DecidableEq

/-- `ATTENTION_CONFIRM_MS`. -/
def confirmMs : SignalKind → ℤ
  | .bell => 2000
  | .notification => 1000
  | _ => 0

/-- `OUTPUT_IMMUNE_KINDS`. -/
def outputImmune : SignalKind → Bool
  | .hookNotification | .reviewGate | .promoteRequest | .permissionRequest | .planReady
  | .elicitation | .question => true
  | _ => false

/-- `ACK_BLOCKING_KINDS`. -/
def ackBlocking (kind : SignalKind) : Bool := outputImmune kind && kind ≠ .hookNotification

/-- `GENERIC_IMMUNE_KINDS`. -/
def genericImmune (kind : SignalKind) : Bool := kind = .hookNotification

/-- `AttentionState`. -/
inductive Phase
  | idle
  | pendingAttention
  | attention
  | clearing
  deriving DecidableEq

/-- `AttentionMachineState`. -/
structure Machine where
  state : Phase := .idle
  pendingKind : Option SignalKind := none
  pendingSince : Option ℤ := none
  confirmedAt : Option ℤ := none
  confirmedKind : Option SignalKind := none
  deriving DecidableEq

/-- `INITIAL_ATTENTION_STATE`. -/
def initialAttentionState : Machine := {}

inductive Input
  | signal (kind : SignalKind) (now : ℤ)
  | output (now : ℤ)
  | tick (now : ℤ)
  | userInput (now : ℤ)
  deriving DecidableEq

/-- `AttentionEmit`. -/
structure Emit where
  attention : Bool
  signal : Option SignalKind := none
  deriving DecidableEq

/-- `AttentionTransition`. -/
structure Transition where
  next : Machine
  emit : List Emit := []

def moreAuthoritativeKind (current : Option SignalKind) (incoming : SignalKind) : SignalKind :=
  match current with
  | none => incoming
  | some current =>
    if outputImmune current && !outputImmune incoming then current
    else if outputImmune current && !genericImmune current && genericImmune incoming then current
    else incoming

def noop (m : Machine) : Transition := { next := m }

def confirmAttention (m : Machine) (kind : SignalKind) (now : ℤ) : Transition where
  next :=
    { state := .attention, pendingKind := none, pendingSince := none
      confirmedAt := some now, confirmedKind := some kind }
  emit := if m.state = .attention then [] else [⟨true, some kind⟩]

def enterPending (m : Machine) (kind : SignalKind) (now : ℤ) : Transition :=
  if confirmMs kind ≤ 0 then confirmAttention m kind now
  else
    { next :=
        { state := .pendingAttention, pendingKind := some kind, pendingSince := some now
          confirmedAt := none, confirmedKind := none } }

def cancelPending : Transition := { next := initialAttentionState }

def clearAttention : Transition := { next := initialAttentionState, emit := [⟨false, none⟩] }

/-- The tick of a pending machine. -/
def promotePending (m : Machine) (now : ℤ) : Transition :=
  match m.pendingKind with
  | none => noop m
  | some kind =>
    if confirmMs kind ≤ now - m.pendingSince.getD now then confirmAttention m kind now else noop m

def advanceAttention (m : Machine) (input : Input) : Transition :=
  match m.state with
  | .idle =>
    match input with
    | .signal kind now => enterPending m kind now
    | _ => noop m
  | .pendingAttention =>
    match input with
    | .signal kind now => enterPending m kind now
    | .output _ => cancelPending
    | .userInput _ => cancelPending
    | .tick now => promotePending m now
  | .attention =>
    match input with
    | .signal kind now =>
      { next :=
          { m with
            confirmedAt := some now
            confirmedKind := some (moreAuthoritativeKind m.confirmedKind kind) } }
    | .output _ => if m.confirmedKind.any outputImmune then noop m else clearAttention
    | .userInput _ => clearAttention
    | .tick _ => noop m
  | .clearing => { next := initialAttentionState }

/-! ## What is set in which state -/

/-- The fields of a pending and of a confirmed signal are set in their state only, and no
machine rests while it clears. -/
structure Machine.WellFormed (m : Machine) : Prop where
  resting : m.state ≠ .clearing
  pendingKind : m.pendingKind.isSome ↔ m.state = .pendingAttention
  pendingSince : m.pendingSince.isSome ↔ m.state = .pendingAttention
  confirmedAt : m.confirmedAt.isSome ↔ m.state = .attention
  confirmedKind : m.confirmedKind.isSome ↔ m.state = .attention
  waits : ∀ kind, m.pendingKind = some kind → 0 < confirmMs kind

namespace Machine.WellFormed

theorem initial : initialAttentionState.WellFormed :=
  ⟨by decide, by decide, by decide, by decide, by decide, by rintro _ ⟨⟩⟩

theorem confirmed (m : Machine) (kind : SignalKind) (now : ℤ) :
    (confirmAttention m kind now).next.WellFormed :=
  ⟨by simp [confirmAttention], by simp [confirmAttention], by simp [confirmAttention],
    by simp [confirmAttention], by simp [confirmAttention], by rintro _ ⟨⟩⟩

theorem pending (m : Machine) (kind : SignalKind) (now : ℤ) :
    (enterPending m kind now).next.WellFormed := by
  rw [enterPending]
  split
  · exact confirmed m kind now
  · next hwait =>
    refine ⟨by simp, by simp, by simp, by simp, by simp, ?_⟩
    rintro k ⟨⟩
    exact not_le.1 hwait

/-- Every input keeps the machine well formed. -/
theorem advance {m : Machine} (h : m.WellFormed) (input : Input) :
    (advanceAttention m input).next.WellFormed := by
  unfold advanceAttention
  split
  · split
    · exact pending m _ _
    · exact h
  · split
    · exact pending m _ _
    · exact initial
    · exact initial
    · rw [promotePending]
      split
      · exact h
      · split
        · exact confirmed m _ _
        · exact h
  · next hstate =>
    split
    · refine ⟨h.resting, h.pendingKind, h.pendingSince, ?_, ?_, h.waits⟩
      · simp [hstate]
      · simp [hstate]
    · split
      · exact h
      · exact initial
    · exact initial
    · exact h
  · exact initial

end Machine.WellFormed

theorem moreAuthoritativeKind_eq (current : Option SignalKind) (incoming : SignalKind) :
    some (moreAuthoritativeKind current incoming) = current ∨
      moreAuthoritativeKind current incoming = incoming := by
  unfold moreAuthoritativeKind
  split
  · exact Or.inr rfl
  · split
    · exact Or.inl rfl
    · split
      · exact Or.inl rfl
      · exact Or.inr rfl

/-- The kind that the input may confirm. -/
def Input.confirms (m : Machine) : Input → Option SignalKind
  | .signal kind _ => some kind
  | .tick _ => m.pendingKind
  | _ => none

/-- A confirmed kind was confirmed before or is confirmed by the input. -/
theorem confirmedKind_advance {m : Machine} {input : Input} {kind : SignalKind}
    (h : (advanceAttention m input).next.confirmedKind = some kind) :
    m.confirmedKind = some kind ∨ input.confirms m = some kind := by
  have hpending : ∀ k now, (enterPending m k now).next.confirmedKind = some kind →
      k = kind := by
    intro k now hk
    rw [enterPending] at hk
    split at hk
    · exact Option.some.inj hk
    · cases hk
  cases hstate : m.state with
  | idle =>
    cases input with
    | signal k now =>
      simp only [advanceAttention, hstate] at h
      exact Or.inr (congrArg some (hpending k now h))
    | output now =>
      simp only [advanceAttention, hstate] at h
      exact Or.inl h
    | tick now =>
      simp only [advanceAttention, hstate] at h
      exact Or.inl h
    | userInput now =>
      simp only [advanceAttention, hstate] at h
      exact Or.inl h
  | pendingAttention =>
    cases input with
    | signal k now =>
      simp only [advanceAttention, hstate] at h
      exact Or.inr (congrArg some (hpending k now h))
    | output now =>
      simp only [advanceAttention, hstate] at h
      cases h
    | userInput now =>
      simp only [advanceAttention, hstate] at h
      cases h
    | tick now =>
      simp only [advanceAttention, hstate] at h
      unfold promotePending at h
      split at h
      · exact Or.inl h
      · next k hk =>
        split at h
        · right
          exact hk.trans h
        · exact Or.inl h
  | attention =>
    cases input with
    | signal k now =>
      simp only [advanceAttention, hstate] at h
      rcases moreAuthoritativeKind_eq m.confirmedKind k with hk | hk
      · left
        exact hk.symm.trans h
      · right
        rw [hk] at h
        exact h
    | output now =>
      simp only [advanceAttention, hstate] at h
      split at h
      · exact Or.inl h
      · cases h
    | userInput now =>
      simp only [advanceAttention, hstate] at h
      cases h
    | tick now =>
      simp only [advanceAttention, hstate] at h
      exact Or.inl h
  | clearing =>
    simp only [advanceAttention, hstate] at h
    cases h

/-- The user clears every confirmed kind. -/
theorem confirmedKind_userInput {m : Machine} (h : m.WellFormed) (now : ℤ) :
    (advanceAttention m (.userInput now)).next.confirmedKind = none := by
  cases hstate : m.state with
  | idle =>
    have hnone := h.confirmedKind
    rw [hstate] at hnone
    simpa [advanceAttention, hstate, noop] using hnone
  | pendingAttention => simp [advanceAttention, hstate, cancelPending, initialAttentionState]
  | attention => simp [advanceAttention, hstate, clearAttention, initialAttentionState]
  | clearing => simp [advanceAttention, hstate, initialAttentionState]

end Attention
end Mullion
