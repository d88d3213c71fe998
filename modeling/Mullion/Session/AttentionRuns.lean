import Mullion.Session.Attention

/-!
# Runs of the attention machine

Sequences of inputs to `advanceAttention` (`services/attention-detect.ts`), from
`INITIAL_ATTENTION_STATE`. Four laws are asked of them: the flags that are emitted alternate; a kind
is confirmed only if it was the latest signal, stood long enough, and only ticks came after it; a
kind that is immune to output stays until the user acts, or gives way to one that is at least as
telling; and the fields are set in their states only.

Each is an induction over the inputs from one lemma about a single input: what it emits given the
state (`lawful_advance`), what the pending kind then is (`pending_advance`), what becomes of an
immune kind (`immune_advance`). For the second law the machine's pending kind has to be tied to the
history. `Standing` says that a signal came last and nothing but ticks since, and the pending kind
always is such a signal (`standing_after`). `attention_laws` puts the four together.
-/

namespace Mullion
namespace Attention

/-- The clock of an input. -/
def Input.now : Input → ℤ
  | .signal _ now | .output now | .tick now | .userInput now => now

def Input.isTick : Input → Bool
  | .tick _ => true
  | _ => false

def Input.isUserInput : Input → Bool
  | .userInput _ => true
  | _ => false

/-- A machine after some inputs. -/
def Machine.run (m : Machine) (inputs : List Input) : Machine :=
  inputs.foldl (fun m input => (advanceAttention m input).next) m

/-- The machine after some inputs. -/
def after (inputs : List Input) : Machine := initialAttentionState.run inputs

/-- What a machine emits over some inputs. -/
def Machine.emits : Machine → List Input → List Emit
  | _, [] => []
  | m, input :: inputs =>
    (advanceAttention m input).emit ++ (advanceAttention m input).next.emits inputs

/-- What the machine emits over some inputs. -/
def emitted (inputs : List Input) : List Emit := initialAttentionState.emits inputs

/-- The flags are strictly alternating, the first of them is `next`. -/
def Alternates : Bool → List Bool → Prop
  | _, [] => True
  | next, flag :: flags => flag = next ∧ Alternates (!next) flags

/-- The latest signal was of this kind and at this time, and only ticks came after it. -/
def Standing (inputs : List Input) (kind : SignalKind) (since : ℤ) : Prop :=
  ∃ earlier later, inputs = earlier ++ .signal kind since :: later ∧ ∀ i ∈ later, i.isTick

/-! ## One input -/

/-- An input confirms a kind. -/
def Confirms (m : Machine) (input : Input) (kind : SignalKind) : Prop :=
  (∃ now, input = .signal kind now ∧ confirmMs kind ≤ 0) ∨
    ∃ now since, input = .tick now ∧ m.pendingKind = some kind ∧ m.pendingSince = some since ∧
      confirmMs kind ≤ now - since

/-- A transition emits nothing and leaves the machine where it is, or it clears what was confirmed,
or it confirms a kind. -/
def Transition.Lawful (t : Transition) (m : Machine) (input : Input) : Prop :=
  (t.emit = [] ∧ (t.next.state = .attention ↔ m.state = .attention)) ∨
    (t.emit = [⟨false, none⟩] ∧ m.state = .attention ∧ t.next = initialAttentionState) ∨
    ∃ kind, t.emit = [⟨true, some kind⟩] ∧ m.state ≠ .attention ∧ t.next.state = .attention ∧
      Confirms m input kind

theorem lawful_noop (m : Machine) (input : Input) : (noop m).Lawful m input :=
  Or.inl ⟨rfl, Iff.rfl⟩

theorem lawful_enterPending {m : Machine} (hm : m.state ≠ .attention) (kind : SignalKind)
    (now : ℤ) : (enterPending m kind now).Lawful m (.signal kind now) := by
  rw [enterPending]
  split
  case isTrue h =>
    rw [confirmAttention]
    exact Or.inr (Or.inr ⟨kind, if_neg hm, hm, rfl, Or.inl ⟨now, rfl, h⟩⟩)
  case isFalse => exact Or.inl ⟨rfl, iff_of_false Phase.noConfusion hm⟩

theorem lawful_cancelPending {m : Machine} (hm : m.state ≠ .attention) (input : Input) :
    cancelPending.Lawful m input :=
  Or.inl ⟨rfl, iff_of_false Phase.noConfusion hm⟩

theorem lawful_clearAttention {m : Machine} (hm : m.state = .attention) (input : Input) :
    clearAttention.Lawful m input :=
  Or.inr (Or.inl ⟨rfl, hm, rfl⟩)

theorem lawful_promotePending {m : Machine} (h : m.WellFormed) (hm : m.state = .pendingAttention)
    (now : ℤ) : (promotePending m now).Lawful m (.tick now) := by
  obtain ⟨kind, hkind⟩ := Option.isSome_iff_exists.1 (h.pendingKind.2 hm)
  obtain ⟨since, hsince⟩ := Option.isSome_iff_exists.1 (h.pendingSince.2 hm)
  have hstate : m.state ≠ .attention := by rw [hm]; exact Phase.noConfusion
  rw [promotePending, hkind, hsince, Option.getD_some]
  dsimp only
  split
  case isTrue hlong =>
    rw [confirmAttention]
    exact Or.inr (Or.inr
      ⟨kind, if_neg hstate, hstate, rfl, Or.inr ⟨now, since, rfl, hkind, hsince, hlong⟩⟩)
  case isFalse => exact lawful_noop m _

/-- **One input.** -/
theorem lawful_advance {m : Machine} (h : m.WellFormed) (input : Input) :
    (advanceAttention m input).Lawful m input := by
  unfold advanceAttention
  cases hstate : m.state with
  | idle =>
    have hm : m.state ≠ .attention := by rw [hstate]; exact Phase.noConfusion
    cases input with
    | signal kind now => exact lawful_enterPending hm kind now
    | output now => exact lawful_noop m _
    | tick now => exact lawful_noop m _
    | userInput now => exact lawful_noop m _
  | pendingAttention =>
    have hm : m.state ≠ .attention := by rw [hstate]; exact Phase.noConfusion
    cases input with
    | signal kind now => exact lawful_enterPending hm kind now
    | output now => exact lawful_cancelPending hm _
    | tick now => exact lawful_promotePending h hstate now
    | userInput now => exact lawful_cancelPending hm _
  | attention =>
    cases input with
    | signal kind now => exact Or.inl ⟨rfl, iff_of_true rfl hstate⟩
    | output now =>
      dsimp only
      split
      case isTrue => exact lawful_noop m _
      case isFalse => exact lawful_clearAttention hstate _
    | tick now => exact lawful_noop m _
    | userInput now => exact lawful_clearAttention hstate _
  | clearing => exact absurd hstate h.resting

/-- What is pending after an input was pending before, and the input is a tick, or it is the signal
itself. -/
theorem pending_advance {m : Machine} (h : m.WellFormed) {input : Input} {kind : SignalKind}
    {since : ℤ} (hkind : (advanceAttention m input).next.pendingKind = some kind)
    (hsince : (advanceAttention m input).next.pendingSince = some since) :
    input = .signal kind since ∨
      input.isTick = true ∧ m.pendingKind = some kind ∧ m.pendingSince = some since := by
  have hsignal : ∀ k now, (enterPending m k now).next.pendingKind = some kind →
      (enterPending m k now).next.pendingSince = some since →
        Input.signal k now = .signal kind since := by
    intro k now hk hs
    rw [enterPending] at hk hs
    split at hk
    case isTrue => cases hk
    case isFalse hwait =>
      rw [if_neg hwait] at hs
      rw [Option.some.inj hk, Option.some.inj hs]
  have hnone (hm : m.state ≠ .pendingAttention) : m.pendingKind ≠ some kind :=
    fun hk => hm (h.pendingKind.1 (by rw [hk]; rfl))
  unfold advanceAttention at hkind hsince
  cases hstate : m.state with
  | idle =>
    have hm : m.state ≠ .pendingAttention := by rw [hstate]; exact Phase.noConfusion
    simp only [hstate] at hkind hsince
    cases input with
    | signal k now => exact Or.inl (hsignal k now hkind hsince)
    | output now => exact absurd hkind (hnone hm)
    | tick now => exact absurd hkind (hnone hm)
    | userInput now => exact absurd hkind (hnone hm)
  | pendingAttention =>
    simp only [hstate] at hkind hsince
    cases input with
    | signal k now => exact Or.inl (hsignal k now hkind hsince)
    | output now => cases hkind
    | userInput now => cases hkind
    | tick now =>
      refine Or.inr ⟨rfl, ?_⟩
      unfold promotePending at hkind hsince
      cases hpending : m.pendingKind with
      | none => exact absurd (h.pendingKind.2 hstate) (by rw [hpending]; exact Bool.false_ne_true)
      | some k =>
        simp only [hpending] at hkind hsince
        split at hkind
        case isTrue => cases hkind
        case isFalse hshort =>
          rw [if_neg hshort] at hsince
          exact ⟨hpending.symm.trans hkind, hsince⟩
  | attention =>
    have hm : m.state ≠ .pendingAttention := by rw [hstate]; exact Phase.noConfusion
    simp only [hstate] at hkind hsince
    cases input with
    | signal k now => exact absurd hkind (hnone hm)
    | output now =>
      dsimp only at hkind
      split at hkind
      case isTrue => exact absurd hkind (hnone hm)
      case isFalse => cases hkind
    | tick now => exact absurd hkind (hnone hm)
    | userInput now => cases hkind
  | clearing => exact absurd hstate h.resting

/-- A kind that output does not clear, in place of one that was confirmed. -/
def Supersedes (new old : SignalKind) : Prop :=
  outputImmune new = true ∧ (old ≠ .hookNotification → new ≠ .hookNotification)

theorem supersedes_moreAuthoritativeKind {kind : SignalKind} (hkind : outputImmune kind = true)
    (incoming : SignalKind) : Supersedes (moreAuthoritativeKind (some kind) incoming) kind := by
  unfold moreAuthoritativeKind
  dsimp only
  split
  case isTrue => exact ⟨hkind, id⟩
  case isFalse hweak =>
    split
    case isTrue => exact ⟨hkind, id⟩
    case isFalse hgeneric =>
      have hincoming : outputImmune incoming = true := by simpa [hkind] using hweak
      refine ⟨hincoming, fun hspecific heq => hgeneric ?_⟩
      simp [hkind, genericImmune, hspecific, heq]

theorem Supersedes.trans {a b c : SignalKind} (h : Supersedes a b) (h' : Supersedes b c) :
    Supersedes a c :=
  ⟨h.1, fun hc => h.2 (h'.2 hc)⟩

/-- An immune kind that is confirmed survives every input but the user's. -/
theorem immune_advance {m : Machine} {kind : SignalKind} (hstate : m.state = .attention)
    (hkind : m.confirmedKind = some kind) (himmune : outputImmune kind = true) {input : Input}
    (hinput : input.isUserInput = false) :
    (advanceAttention m input).next.state = .attention ∧
      ∃ new, (advanceAttention m input).next.confirmedKind = some new ∧ Supersedes new kind := by
  unfold advanceAttention
  simp only [hstate]
  cases input with
  | signal incoming now =>
    refine ⟨rfl, _, rfl, ?_⟩
    rw [hkind]
    exact supersedes_moreAuthoritativeKind himmune incoming
  | output now =>
    rw [hkind, Option.any_some, if_pos himmune]
    exact ⟨hstate, kind, hkind, himmune, id⟩
  | tick now => exact ⟨hstate, kind, hkind, himmune, id⟩
  | userInput now => cases hinput

/-! ## Runs -/

theorem run_append (m : Machine) (before inputs : List Input) :
    m.run (before ++ inputs) = (m.run before).run inputs :=
  List.foldl_append

theorem after_concat (inputs : List Input) (input : Input) :
    after (inputs ++ [input]) = (advanceAttention (after inputs) input).next :=
  run_append _ inputs [input]

theorem wellFormed_after (inputs : List Input) : (after inputs).WellFormed := by
  induction inputs using List.reverseRecOn with
  | nil => exact Machine.WellFormed.initial
  | append_singleton inputs input ih =>
    rw [after_concat]
    exact ih.advance input

/-- A pending signal is standing. -/
theorem standing_after {inputs : List Input} {kind : SignalKind} {since : ℤ}
    (hkind : (after inputs).pendingKind = some kind)
    (hsince : (after inputs).pendingSince = some since) : Standing inputs kind since := by
  induction inputs using List.reverseRecOn with
  | nil => cases hkind
  | append_singleton inputs input ih =>
    rw [after_concat] at hkind hsince
    rcases pending_advance (wellFormed_after inputs) hkind hsince with rfl | ⟨htick, hkind, hsince⟩
    · exact ⟨inputs, [], rfl, nofun⟩
    · obtain ⟨earlier, later, rfl, hlater⟩ := ih hkind hsince
      refine ⟨earlier, later ++ [input], by rw [List.append_assoc, List.cons_append], ?_⟩
      intro i hi
      rcases List.mem_append.1 hi with hi | hi
      · exact hlater i hi
      · rwa [List.mem_singleton.1 hi]

/-- What is confirmed stood long enough. -/
theorem standing_of_emit {inputs : List Input} {input : Input} {e : Emit}
    (he : e ∈ (advanceAttention (after inputs) input).emit) (hflag : e.attention = true) :
    ∃ kind since, e.signal = some kind ∧ Standing (inputs ++ [input]) kind since ∧
      confirmMs kind ≤ input.now - since := by
  rcases lawful_advance (wellFormed_after inputs) input with
    ⟨hemit, -⟩ | ⟨hemit, -, -⟩ | ⟨kind, hemit, -, -, hconfirms⟩
  · rw [hemit] at he
    cases he
  · rw [hemit, List.mem_singleton] at he
    rw [he] at hflag
    cases hflag
  · rw [hemit, List.mem_singleton] at he
    rcases hconfirms with ⟨now, rfl, hzero⟩ | ⟨now, since, rfl, hkind, hsince, hlong⟩
    · refine ⟨kind, now, by rw [he], ⟨inputs, [], rfl, nofun⟩, ?_⟩
      rw [Input.now, sub_self]
      exact hzero
    · obtain ⟨earlier, later, rfl, hlater⟩ := standing_after hkind hsince
      refine ⟨kind, since, by rw [he], ⟨earlier, later ++ [.tick now], ?_, ?_⟩, hlong⟩
      · rw [List.append_assoc, List.cons_append]
      · intro i hi
        rcases List.mem_append.1 hi with hi | hi
        · exact hlater i hi
        · rw [List.mem_singleton.1 hi]
          rfl

/-- The flags that a machine emits alternate, and begin with the one that it does not show. -/
theorem alternates_emits {m : Machine} (h : m.WellFormed) (inputs : List Input) :
    Alternates (decide (m.state ≠ .attention)) ((m.emits inputs).map Emit.attention) := by
  induction inputs generalizing m with
  | nil => trivial
  | cons input inputs ih =>
    have hnext := ih (h.advance input)
    rw [Machine.emits, List.map_append]
    rcases lawful_advance h input with
      ⟨hemit, hstate⟩ | ⟨hemit, hm, heq⟩ | ⟨kind, hemit, hm, hstate, -⟩
    · rw [hemit]
      simp only [ne_eq, hstate] at hnext
      exact hnext
    · rw [hemit]
      rw [heq] at hnext ⊢
      refine ⟨by simp [hm], ?_⟩
      rw [decide_eq_false (by simp [hm])]
      exact hnext
    · rw [hemit]
      simp only [ne_eq, hstate] at hnext
      refine ⟨by simp [hm], ?_⟩
      rw [decide_eq_true hm]
      exact hnext

/-- An immune kind that is confirmed survives all inputs but the user's. -/
theorem immune_run {m : Machine} {kind : SignalKind} (hstate : m.state = .attention)
    (hkind : m.confirmedKind = some kind) (himmune : outputImmune kind = true)
    {inputs : List Input} (hinputs : ∀ i ∈ inputs, i.isUserInput = false) :
    (m.run inputs).state = .attention ∧
      ∃ new, (m.run inputs).confirmedKind = some new ∧ Supersedes new kind := by
  induction inputs generalizing m kind with
  | nil => exact ⟨hstate, kind, hkind, himmune, id⟩
  | cons input inputs ih =>
    rw [List.forall_mem_cons] at hinputs
    obtain ⟨hnext, new, hnew, hover⟩ := immune_advance hstate hkind himmune hinputs.1
    obtain ⟨hlast, newest, hnewest, hover'⟩ := ih hnext hnew hover.1 hinputs.2
    exact ⟨hlast, newest, hnewest, hover'.trans hover⟩

/-- **The attention machine.** In every run from the initial state: the emitted flags alternate; a
kind is confirmed only if it was the latest signal, stood for its time, and only ticks came after
it; an immune kind stays, or is superseded by another one, until the user acts, and a specific one
never by the generic one; and the fields are set in their states only. -/
theorem attention_laws (inputs : List Input) :
    Alternates true ((emitted inputs).map Emit.attention) ∧
      (∀ before input rest, inputs = before ++ input :: rest →
        ∀ e ∈ (advanceAttention (after before) input).emit, e.attention = true →
          ∃ kind since, e.signal = some kind ∧ Standing (before ++ [input]) kind since ∧
            confirmMs kind ≤ input.now - since) ∧
      (∀ before mid rest, inputs = before ++ mid ++ rest → ∀ kind,
        (after before).state = .attention → (after before).confirmedKind = some kind →
          outputImmune kind = true → (∀ i ∈ mid, i.isUserInput = false) →
            (after (before ++ mid)).state = .attention ∧
              ∃ new, (after (before ++ mid)).confirmedKind = some new ∧ Supersedes new kind) ∧
      (after inputs).WellFormed := by
  refine ⟨alternates_emits Machine.WellFormed.initial inputs, ?_, ?_, wellFormed_after inputs⟩
  · intro before input _ _ e he hflag
    exact standing_of_emit he hflag
  · intro before mid _ _ kind hstate hkind himmune hmid
    rw [after, run_append]
    exact immune_run hstate hkind himmune hmid

end Attention
end Mullion
