import Mathlib.Algebra.Order.Field.Rat
import Mathlib.Data.List.Lex
import Mathlib.Data.Prod.Lex
import Mathlib.Tactic
import Mullion.Lib.Choice
import Mullion.Placement.Policy

/-!
# The choice is optimal

`chooseHost` goes over the candidates once and keeps the better of two. What it should choose is a
minimum: among the eligible hosts the one with the least load per core, then one that need not
clone, then the first by id, unless the session is at a keyboard and the local host is eligible.

`rank` makes these three one linear order, and `isBetter` compares ranks (`isBetter_iff`), so the
loop computes the minimum of what it has seen (`foldl_better`) and `picked` is the least eligible
candidate. That it does not depend on the order of the candidates follows, since the least is unique
where no id comes twice. The text of the reason does depend on the order, in that the notes come in
the order of the candidates: its beginning is the same and the notes are permuted along
(`reason_perm`). `chooseHost_optimal` has all of it, and `choice_as_specified_fails` what is not so.
-/

namespace Mullion
namespace Placement

/-! ## The comparison -/

/-- What the choice goes by. -/
def rank (context : PlacementContext) (candidate : PlacementCandidate) :
    ℚ ×ₗ Bool ×ₗ List ℕ :=
  toLex (loadPerCore (capacityOf candidate context),
    toLex (candidate.needsCheckout, candidate.hostId.toList.flatMap Text.codeUnits))

/-- A candidate is better exactly when it ranks below. -/
theorem isBetter_iff (context : PlacementContext) (candidate best : PlacementCandidate) :
    isBetter candidate (loadPerCore (capacityOf candidate context)) best
      (loadPerCore (capacityOf best context)) = true ↔
      rank context candidate < rank context best := by
  rw [rank, rank, Prod.Lex.toLex_lt_toLex, Prod.Lex.toLex_lt_toLex, isBetter]
  generalize loadPerCore (capacityOf candidate context) = a
  generalize loadPerCore (capacityOf best context) = b
  rcases lt_trichotomy a b with hlt | rfl | hgt
  · simp [hlt]
  · cases candidate.needsCheckout <;> cases best.needsCheckout <;> simp [Text.less]
  · simp [hgt, hgt.not_gt, hgt.ne']

/-- Candidates of one rank have one id. -/
theorem hostId_of_rank_eq {context : PlacementContext} {a b : PlacementCandidate}
    (h : rank context a = rank context b) : a.hostId = b.hostId := by
  simp only [rank, EmbeddingLike.apply_eq_iff_eq, Prod.mk.injEq] at h
  exact String.toList_injective (Text.flatMap_codeUnits_inj h.2.2)

/-- The loop for the least loaded host computes a minimum. -/
theorem foldl_better (context : PlacementContext) (first : PlacementCandidate)
    (rest : List PlacementCandidate) :
    some (rest.foldl (better context) first) = (first :: rest).argmin (rank context) := by
  rw [← Choice.foldl_eq_argmin]
  congr 2
  funext best candidate
  simp only [better, isBetter_iff]

/-! ## The candidate that is chosen -/

/-- The session is one at a keyboard, of a project on the local host. -/
def PlacementContext.atKeyboard (context : PlacementContext) : Bool :=
  !context.unattended && context.pinnedHostId = localHostId

/-- The candidate that is chosen; `none` falls back. -/
def picked (js : Outside) (candidates : List PlacementCandidate) (context : PlacementContext) :
    Option PlacementCandidate :=
  let eligible := candidates.filter (eligible js context)
  (if context.atKeyboard then eligible.find? (·.isLocal) else none).or
    (eligible.argmin (rank context))

/-- `considered`, before one is marked. -/
def consideredHost (context : PlacementContext) (candidate : PlacementCandidate) :
    ConsideredHost :=
  { hostId := candidate.hostId
    loadAverage1m := (capacityOf candidate context).loadAverage1m
    logicalCores := (capacityOf candidate context).logicalCores
    loadPerCore := loadPerCore (capacityOf candidate context)
    chosen := false }

/-- `excluded`. -/
def excludedHosts (js : Outside) (candidates : List PlacementCandidate)
    (context : PlacementContext) : List ExcludedHost :=
  candidates.filterMap fun candidate =>
    (exclusionReason js candidate context).map (⟨candidate.hostId, ·⟩)

/-- A decision, but for its reason. -/
structure Outcome where
  hostId : HostId
  considered : List ConsideredHost
  excluded : List ExcludedHost
  fellBack : Bool
  needsCheckout : Bool

def PlacementDecision.outcome (decision : PlacementDecision) : Outcome :=
  ⟨decision.hostId, decision.considered, decision.excluded, decision.fellBack,
    decision.needsCheckout⟩

/-- The outcome of a choice, read off the candidate that is chosen. -/
def outcomeOf (js : Outside) (candidates : List PlacementCandidate) (context : PlacementContext) :
    Outcome :=
  match picked js candidates context with
  | none => ⟨context.pinnedHostId, [], excludedHosts js candidates context, true, false⟩
  | some host =>
    ⟨host.hostId,
      markChosen ((candidates.filter (eligible js context)).map (consideredHost context))
        host.hostId,
      excludedHosts js candidates context, false, host.needsCheckout⟩

theorem outcome_decideHost (js : Outside) (candidates : List PlacementCandidate)
    (context : PlacementContext) :
    (decideHost js candidates context).outcome = outcomeOf js candidates context := by
  unfold decideHost outcomeOf picked
  cases heligible : candidates.filter (eligible js context) with
  | nil => simp [PlacementDecision.outcome, excludedHosts]
  | cons first rest =>
    simp only [← foldl_better]
    cases hlocal : (if context.atKeyboard then (first :: rest).find? (·.isLocal) else none) with
    | some host =>
      unfold PlacementContext.atKeyboard at hlocal
      simp only [hlocal]
      rfl
    | none =>
      unfold PlacementContext.atKeyboard at hlocal
      simp only [hlocal]
      rfl

/-- The notes change nothing but the reason. -/
theorem outcome_chooseHost (js : Outside) (candidates : List PlacementCandidate)
    (context : PlacementContext) :
    (chooseHost js candidates context).outcome = outcomeOf js candidates context := by
  rw [← outcome_decideHost]
  unfold chooseHost
  simp only
  split <;> rfl

/-! ## The reason -/

/-- The reason without its notes: the local host that is preferred, or else the least loaded one,
or neither. -/
def reasonOf (js : Outside) (context : PlacementContext)
    (preferred least : Option PlacementCandidate) : String :=
  match preferred with
  | some host =>
    s!"local host preferred for an interactive session (terminal latency): " ++ host.hostId
  | none =>
    match least with
    | some best =>
      let capacity := capacityOf best context
      s!"least loaded: {best.hostId} at {js.number capacity.loadAverage1m} load on " ++
        s!"{capacity.logicalCores} cores ({js.toFixed2 (loadPerCore capacity)} per core)"
    | none => s!"no eligible host — fell back to the project's host {context.pinnedHostId}"

theorem reason_decideHost (js : Outside) (candidates : List PlacementCandidate)
    (context : PlacementContext) :
    (decideHost js candidates context).reason = reasonOf js context
      (if context.atKeyboard then (candidates.filter (eligible js context)).find? (·.isLocal)
        else none)
      ((candidates.filter (eligible js context)).argmin (rank context)) := by
  unfold decideHost
  cases heligible : candidates.filter (eligible js context) with
  | nil =>
    rw [List.find?_nil, ite_self, List.argmin_nil]
    rfl
  | cons first rest =>
    simp only [← foldl_better]
    cases hlocal : (if context.atKeyboard then (first :: rest).find? (·.isLocal) else none) with
    | some host =>
      unfold PlacementContext.atKeyboard at hlocal
      simp only [hlocal]
      rfl
    | none =>
      unfold PlacementContext.atKeyboard at hlocal
      simp only [hlocal]
      rfl

/-- The notes of a choice, on the chosen host and then on the hosts that were skipped. -/
def notesOf (js : Outside) (candidates : List PlacementCandidate) (context : PlacementContext) :
    List String :=
  ((candidates.find? (·.hostId = (decideHost js candidates context).hostId)).map
      (chosenNotes js context (decideHost js candidates context).fellBack)).getD [] ++
    ((excludedHosts js candidates context).filter
      (·.reason.startsWith unsupportedPrefix)).map fun skipped =>
        s!"skipped {skipped.hostId}: {skipped.reason}"

/-- A reason with its notes. -/
def noted (reason : String) (notes : List String) : String :=
  if notes = [] then reason else reason ++ " (" ++ Text.join "; " notes ++ ")"

theorem reason_chooseHost (js : Outside) (candidates : List PlacementCandidate)
    (context : PlacementContext) :
    (chooseHost js candidates context).reason =
      noted (decideHost js candidates context).reason (notesOf js candidates context) := by
  have hexcluded : (decideHost js candidates context).excluded =
      excludedHosts js candidates context := by
    have h := congrArg Outcome.excluded (outcome_decideHost js candidates context)
    refine h.trans ?_
    unfold outcomeOf
    split <;> rfl
  unfold chooseHost noted notesOf
  rw [← hexcluded]
  dsimp only
  rw [apply_ite PlacementDecision.reason]

/-! ## What is chosen -/

variable {js : Outside} {candidates candidates' : List PlacementCandidate}
  {context : PlacementContext}

theorem mem_eligible {candidate : PlacementCandidate} :
    candidate ∈ candidates.filter (eligible js context) ↔
      candidate ∈ candidates ∧ exclusionReason js candidate context = none := by
  simp [eligible]

/-- Nothing is chosen exactly when no candidate is eligible. -/
theorem picked_eq_none_iff : picked js candidates context = none ↔
    ∀ candidate ∈ candidates, exclusionReason js candidate context ≠ none := by
  rw [picked, Option.or_eq_none_iff, List.argmin_eq_none, List.filter_eq_nil_iff]
  constructor
  · rintro ⟨-, hnone⟩ candidate hmem hreason
    exact hnone candidate hmem (by simp [eligible, hreason])
  · intro h
    have hnil : candidates.filter (eligible js context) = [] := by
      rw [List.filter_eq_nil_iff]
      intro candidate hmem heligible
      exact h candidate hmem (by simpa [eligible] using heligible)
    refine ⟨?_, List.filter_eq_nil_iff.1 hnil⟩
    rw [hnil]
    split <;> rfl

/-- The candidate that is chosen is eligible, and it is the local host at a keyboard or has
the least rank. -/
theorem picked_spec {host : PlacementCandidate} (h : picked js candidates context = some host) :
    host ∈ candidates ∧ exclusionReason js host context = none ∧
      (context.atKeyboard = true ∧ host.isLocal = true ∨
        (context.atKeyboard = true → ∀ other ∈ candidates,
          exclusionReason js other context = none → other.isLocal = false) ∧
        ∀ other ∈ candidates, exclusionReason js other context = none →
          rank context host ≤ rank context other) := by
  rw [picked, Option.or_eq_some_iff] at h
  rcases h with h | ⟨hnone, h⟩
  · split at h
    next hkeyboard =>
      obtain ⟨hmem, hreason⟩ := mem_eligible.1 (List.mem_of_find?_eq_some h)
      exact ⟨hmem, hreason, Or.inl ⟨hkeyboard, List.find?_some h⟩⟩
    next => cases h
  · obtain ⟨hmem, hreason⟩ := mem_eligible.1 (List.argmin_mem h)
    refine ⟨hmem, hreason, Or.inr ⟨?_, ?_⟩⟩
    · intro hkeyboard other hother hreason'
      rw [if_pos hkeyboard, List.find?_eq_none] at hnone
      simpa using hnone other (mem_eligible.2 ⟨hother, hreason'⟩)
    · intro other hother hreason'
      exact List.le_of_mem_argmin (mem_eligible.2 ⟨hother, hreason'⟩) h

/-- The order of the candidates does not matter to the least loaded host, nor to the local one
when at most one of them is local. -/
theorem choices_perm (hids : (candidates.map (·.hostId)).Nodup)
    (hperm : candidates.Perm candidates')
    (hlocal : ∀ a ∈ candidates, ∀ b ∈ candidates, a.isLocal = true → b.isLocal = true → a = b) :
    (candidates.filter (eligible js context)).find? (·.isLocal) =
        (candidates'.filter (eligible js context)).find? (·.isLocal) ∧
      (candidates.filter (eligible js context)).argmin (rank context) =
        (candidates'.filter (eligible js context)).argmin (rank context) := by
  have hfilter := hperm.filter (eligible js context)
  constructor
  · exact Choice.find?_perm hfilter fun a ha b hb =>
      hlocal a (List.mem_of_mem_filter ha) b (List.mem_of_mem_filter hb)
  · refine Choice.argmin_perm hfilter ?_
    intro a ha b hb hrank
    exact List.inj_on_of_nodup_map hids (List.mem_of_mem_filter ha) (List.mem_of_mem_filter hb)
      (hostId_of_rank_eq hrank)

/-! ## The main result -/

/-- Two outcomes are the same but for the order in which hosts are reported. -/
structure Outcome.Same (outcome outcome' : Outcome) : Prop where
  hostId : outcome.hostId = outcome'.hostId
  considered : outcome.considered.Perm outcome'.considered
  excluded : outcome.excluded.Perm outcome'.excluded
  fellBack : outcome.fellBack = outcome'.fellBack
  needsCheckout : outcome.needsCheckout = outcome'.needsCheckout

theorem outcomeOf_perm (hids : (candidates.map (·.hostId)).Nodup)
    (hperm : candidates.Perm candidates')
    (hlocal : ∀ a ∈ candidates, ∀ b ∈ candidates, a.isLocal = true → b.isLocal = true → a = b) :
    (outcomeOf js candidates context).Same (outcomeOf js candidates' context) := by
  have hexcluded : (excludedHosts js candidates context).Perm
      (excludedHosts js candidates' context) := hperm.filterMap _
  obtain ⟨hfind, hargmin⟩ := @choices_perm js candidates candidates' context hids hperm hlocal
  have hpicked : picked js candidates context = picked js candidates' context := by
    simp only [picked, hfind, hargmin]
  rw [outcomeOf, outcomeOf, ← hpicked]
  cases picked js candidates context with
  | none => exact ⟨rfl, List.Perm.refl _, hexcluded, rfl, rfl⟩
  | some host =>
    refine ⟨rfl, ?_, hexcluded, rfl, rfl⟩
    exact ((hperm.filter _).map _).map _

/-- The reason is the same but for the order of its notes. -/
theorem reason_perm (hids : (candidates.map (·.hostId)).Nodup)
    (hperm : candidates.Perm candidates')
    (hlocal : ∀ a ∈ candidates, ∀ b ∈ candidates, a.isLocal = true → b.isLocal = true → a = b) :
    (decideHost js candidates context).reason = (decideHost js candidates' context).reason ∧
      (notesOf js candidates context).Perm (notesOf js candidates' context) := by
  obtain ⟨hfind, hargmin⟩ := @choices_perm js candidates candidates' context hids hperm hlocal
  have hsame : (decideHost js candidates context).outcome.Same
      (decideHost js candidates' context).outcome := by
    rw [outcome_decideHost, outcome_decideHost]
    exact outcomeOf_perm hids hperm hlocal
  have hhost : (decideHost js candidates context).hostId =
      (decideHost js candidates' context).hostId := hsame.hostId
  have hfell : (decideHost js candidates context).fellBack =
      (decideHost js candidates' context).fellBack := hsame.fellBack
  refine ⟨by rw [reason_decideHost, reason_decideHost, hfind, hargmin], ?_⟩
  -- the host that was chosen is found wherever it stands, as the ids are distinct
  have hchosen : candidates.find? (·.hostId = (decideHost js candidates context).hostId) =
      candidates'.find? (·.hostId = (decideHost js candidates' context).hostId) := by
    rw [hhost]
    refine Choice.find?_perm hperm fun a ha b hb hida hidb => ?_
    refine List.inj_on_of_nodup_map hids ha hb ?_
    exact (of_decide_eq_true hida).trans (of_decide_eq_true hidb).symm
  rw [notesOf, notesOf, hchosen, hfell]
  exact List.Perm.append_left _ (((hperm.filterMap _).filter _).map _)

/-- Being better in rank, in the words of the source. -/
theorem better_of_rank_le {host other : PlacementCandidate}
    (h : rank context host ≤ rank context other) :
    loadPerCore (capacityOf host context) ≤ loadPerCore (capacityOf other context) ∧
      (other.hostId ≠ host.hostId →
        isBetter host (loadPerCore (capacityOf host context)) other
          (loadPerCore (capacityOf other context)) = true) := by
  constructor
  · rw [rank, rank, Prod.Lex.toLex_le_toLex] at h
    rcases h with hlt | ⟨heq, -⟩
    · exact hlt.le
    · exact heq.le
  · intro hne
    rw [isBetter_iff]
    refine lt_of_le_of_ne h ?_
    intro heq
    exact hne (hostId_of_rank_eq heq).symm

/-- **The choice is optimal.** It falls back, to the host of the project, exactly when no
candidate is eligible. Otherwise it takes an eligible host: the local one for a session at a
keyboard, and else the one that is better than every other eligible host, which has the least
load per core. The order of the candidates does not matter, but to the order in which hosts are
reported and noted. -/
theorem chooseHost_optimal (js : Outside) (candidates : List PlacementCandidate)
    (context : PlacementContext) (hids : (candidates.map (·.hostId)).Nodup) :
    ((chooseHost js candidates context).fellBack = true ↔
      ∀ candidate ∈ candidates, exclusionReason js candidate context ≠ none) ∧
    ((chooseHost js candidates context).fellBack = true →
      (chooseHost js candidates context).hostId = context.pinnedHostId) ∧
    ((chooseHost js candidates context).fellBack = false →
      ∃ host ∈ candidates, (chooseHost js candidates context).hostId = host.hostId ∧
        (chooseHost js candidates context).needsCheckout = host.needsCheckout ∧
        exclusionReason js host context = none ∧
        (context.atKeyboard = true ∧ host.isLocal = true ∨
          (context.atKeyboard = true → ∀ other ∈ candidates,
            exclusionReason js other context = none → other.isLocal = false) ∧
          ∀ other ∈ candidates, exclusionReason js other context = none →
            loadPerCore (capacityOf host context) ≤ loadPerCore (capacityOf other context) ∧
            (other.hostId ≠ host.hostId →
              isBetter host (loadPerCore (capacityOf host context)) other
                (loadPerCore (capacityOf other context)) = true))) ∧
    ∀ candidates', candidates.Perm candidates' →
      (∀ a ∈ candidates, ∀ b ∈ candidates, a.isLocal = true → b.isLocal = true → a = b) →
      (chooseHost js candidates context).outcome.Same
          (chooseHost js candidates' context).outcome ∧
        ∃ reason notes notes', notes.Perm notes' ∧
          (chooseHost js candidates context).reason = noted reason notes ∧
          (chooseHost js candidates' context).reason = noted reason notes' ∧
          reason = (decideHost js candidates context).reason ∧
          notes = notesOf js candidates context ∧ notes' = notesOf js candidates' context := by
  have houtcome := outcome_chooseHost js candidates context
  have hhost : (chooseHost js candidates context).hostId =
      (outcomeOf js candidates context).hostId := congrArg Outcome.hostId houtcome
  have hfell : (chooseHost js candidates context).fellBack =
      (outcomeOf js candidates context).fellBack := congrArg Outcome.fellBack houtcome
  have hclones : (chooseHost js candidates context).needsCheckout =
      (outcomeOf js candidates context).needsCheckout := congrArg Outcome.needsCheckout houtcome
  refine ⟨?_, ?_, ?_, ?_⟩
  · rw [hfell, ← picked_eq_none_iff, outcomeOf]
    cases picked js candidates context <;> simp
  · rw [hfell, hhost, outcomeOf]
    cases picked js candidates context <;> simp
  · rw [hfell, hhost, hclones, outcomeOf]
    cases hpicked : picked js candidates context with
    | none => simp
    | some host =>
      obtain ⟨hmem, hreason, hbest⟩ := picked_spec hpicked
      intro _
      refine ⟨host, hmem, rfl, rfl, hreason, hbest.imp_right ?_⟩
      rintro ⟨hnolocal, hleast⟩
      refine ⟨hnolocal, ?_⟩
      intro other hother hreason'
      exact better_of_rank_le (hleast other hother hreason')
  · intro candidates' hperm hlocal
    obtain ⟨hreason, hnotes⟩ := @reason_perm js candidates candidates' context hids hperm hlocal
    refine ⟨?_, _, _, _, hnotes, reason_chooseHost js candidates context, ?_, rfl, rfl, rfl⟩
    · rw [houtcome, outcome_chooseHost]
      exact outcomeOf_perm hids hperm hlocal
    · rw [reason_chooseHost, hreason]

/-! ## Three hosts -/

/-- Printing that prints nothing, for hosts whose names are in lower case. -/
def plainOutside : Outside := ⟨id, fun _ _ => false, fun _ => "", fun _ => ""⟩

def hostWith (hostId : HostId) (online : Bool) (load : Rat) : PlacementCandidate :=
  { hostId, isLocal := false, online, drained := false, capacity := some ⟨"linux", 1, load⟩,
    projectCwd := some "/p" }

def localHost : PlacementCandidate :=
  { hostId := localHostId, isLocal := true, online := true, drained := false, capacity := none,
    projectCwd := some "/p" }

/-- A session at a keyboard of a project on the local host, which has a load of eight. -/
def keyboardContext : PlacementContext :=
  { pinnedHostId := localHostId, unattended := false, localCapacity := some ⟨"linux", 1, 8⟩ }

/-- An unattended session of a project on the host `a`. -/
def unattendedContext : PlacementContext :=
  { pinnedHostId := "a", unattended := true, localCapacity := none }

theorem chooseHost_optimal_two :
    exclusionReason plainOutside (hostWith "b" true 1) unattendedContext = none ∧
      (chooseHost plainOutside [hostWith "a" true 2, hostWith "b" true 1]
        unattendedContext).fellBack = false ∧
      ((chooseHost plainOutside [hostWith "a" true 2, hostWith "b" true 1]
        unattendedContext).fellBack = true ↔
        ∀ candidate ∈ [hostWith "a" true 2, hostWith "b" true 1],
          exclusionReason plainOutside candidate unattendedContext ≠ none) :=
  ⟨by decide +kernel, by decide +kernel,
    (chooseHost_optimal plainOutside [hostWith "a" true 2, hostWith "b" true 1] unattendedContext
      (by decide)).1⟩

/-- The host of the fallback may itself be excluded; at a keyboard the local host is chosen
under any load; the lists of a decision follow the order of the candidates; and of two local
candidates the first is preferred. -/
theorem choice_as_specified_fails :
    (¬ ∀ (js : Outside) (candidates : List PlacementCandidate) (context : PlacementContext),
      (candidates.map (·.hostId)).Nodup → ∀ candidate ∈ candidates,
        candidate.hostId = (chooseHost js candidates context).hostId →
          exclusionReason js candidate context = none) ∧
    (¬ ∀ (js : Outside) (candidates : List PlacementCandidate) (context : PlacementContext),
      (candidates.map (·.hostId)).Nodup → (chooseHost js candidates context).fellBack = false →
        ∀ candidate ∈ candidates, candidate.hostId = (chooseHost js candidates context).hostId →
          ∀ other ∈ candidates, exclusionReason js other context = none →
            loadPerCore (capacityOf candidate context) ≤
              loadPerCore (capacityOf other context)) ∧
    (¬ ∀ (js : Outside) (candidates candidates' : List PlacementCandidate)
      (context : PlacementContext), (candidates.map (·.hostId)).Nodup →
        candidates.Perm candidates' →
          chooseHost js candidates context = chooseHost js candidates' context) ∧
    ¬ ∀ (js : Outside) (candidates candidates' : List PlacementCandidate)
      (context : PlacementContext), (candidates.map (·.hostId)).Nodup →
        candidates.Perm candidates' →
          (chooseHost js candidates context).hostId =
            (chooseHost js candidates' context).hostId := by
  refine ⟨?_, ?_, ?_, ?_⟩
  · intro h
    exact absurd (h plainOutside [hostWith "a" false 0] unattendedContext (by decide)
      (hostWith "a" false 0) (by simp) (by decide +kernel)) (by decide +kernel)
  · intro h
    exact absurd (h plainOutside [localHost, hostWith "a" true 0] keyboardContext (by decide)
      (by decide +kernel) localHost (by simp) (by decide +kernel) (hostWith "a" true 0) (by simp)
      (by decide +kernel)) (by decide +kernel)
  · intro h
    exact absurd (h plainOutside [hostWith "a" true 1, hostWith "b" true 2]
      [hostWith "b" true 2, hostWith "a" true 1] unattendedContext (by decide)
      (List.Perm.swap _ _ _)) (by decide +kernel)
  · intro h
    exact absurd (h plainOutside [localHost, { localHost with hostId := "b" }]
      [{ localHost with hostId := "b" }, localHost] keyboardContext (by decide)
      (List.Perm.swap _ _ _)) (by decide +kernel)

end Placement
end Mullion
