import Mathlib.Logic.Equiv.Basic
import Mullion.Placement.Target

/-!
# What a refusal says of other hosts

A refusal names only the target the caller asked for, so that a session cannot list the fleet
through it. What that means is said by comparison: a call is `Discreet` if the text of its refusal
stays the same when the hosts that the target does not name go by other ids (`Renaming`).

Most of a refusal depends on the states of hosts and not on their ids, and so does the choice
between success and refusal (`matching_rename` to `refused_rename`). One reason breaks it: a
candidate whose agent does not support the launch is named by its id. Where no candidate is named
(`Unnamed`), renaming changes nothing. Where one is, it gets an id that is longer than the whole
text was, and then the text cannot be the same (`not_discreet_of_named`). So a call is discreet
exactly when no candidate is named (`discreet_iff`).
-/

namespace Mullion
namespace Placement

/-! ## Renaming the hosts -/

/-- The same candidate under another id. -/
def PlacementCandidate.rename (ρ : HostId → HostId) (candidate : PlacementCandidate) :
    PlacementCandidate :=
  { candidate with hostId := ρ candidate.hostId }

def CollectedCandidates.rename (ρ : HostId → HostId) (collected : CollectedCandidates) :
    CollectedCandidates :=
  { collected with candidates := collected.candidates.map (·.rename ρ) }

/-- The same call, in a fleet under other ids. -/
def TargetRequest.rename (ρ : HostId → HostId) (request : TargetRequest) : TargetRequest :=
  { request with pinnedHostId := ρ request.pinnedHostId }

/-- A renaming of the hosts that the target does not name. -/
structure Renaming (target : PlacementTarget) where
  toFun : HostId → HostId
  injective : Function.Injective toFun
  fixes : ∀ hostId ∈ target.wantedHost, toFun hostId = hostId

/-- The text of a refusal is the same under every renaming of the hosts that the target does
not name. -/
def Discreet (js : Outside) (fleet : Option CollectedCandidates) (request : TargetRequest) :
    Prop :=
  ∀ (ρ : Renaming request.target) (detail : String),
    (resolveTargetHost js fleet request).detail? = some detail →
      (resolveTargetHost js (fleet.map (·.rename ρ.toFun)) (request.rename ρ.toFun)).detail? =
        some detail

variable {js : Outside} {request : TargetRequest} {collected : CollectedCandidates}

/-- A call is refused when no matching candidate is eligible. -/
theorem detail?_resolveTargetHost :
    (resolveTargetHost js (some collected) request).detail? =
      if (request.matching js collected).any (eligible js (request.context collected)) then none
      else some (request.detail (request.why js collected)) := by
  unfold resolveTargetHost
  simp only [chooseHost_fellBack]
  cases (request.matching js collected).any (eligible js (request.context collected)) <;> rfl

/-- A fleet that cannot be read. -/
theorem detail?_unreadable :
    (resolveTargetHost js none request).detail? =
      some (request.detail ["the host list could not be read"]) := rfl

section
variable (ρ : Renaming request.target)

@[simp]
theorem target_rename : (request.rename ρ.toFun).target = request.target := rfl

@[simp]
theorem wantedPlatform_rename :
    (request.rename ρ.toFun).wantedPlatform js = request.wantedPlatform js := rfl

/-- A renaming keeps apart the host that is named. -/
theorem Renaming.apply_eq_iff {wantedHost : HostId} (h : request.target.wantedHost = some wantedHost)
    (hostId : HostId) : ρ.toFun hostId = wantedHost ↔ hostId = wantedHost := by
  have hfix : ρ.toFun wantedHost = wantedHost := ρ.fixes wantedHost h
  constructor
  · intro heq
    exact ρ.injective (heq.trans hfix.symm)
  · rintro rfl
    exact hfix

theorem onHost_rename (candidate : PlacementCandidate) :
    (request.rename ρ.toFun).onHost (candidate.rename ρ.toFun) = request.onHost candidate := by
  unfold TargetRequest.onHost
  cases h : request.target.wantedHost with
  | none => simp [h]
  | some wantedHost => simp [PlacementCandidate.rename, h, ρ.apply_eq_iff h]

theorem targeted_rename :
    (request.rename ρ.toFun).targeted js (collected.rename ρ.toFun) =
      (request.targeted js collected).map (·.rename ρ.toFun) := by
  unfold TargetRequest.targeted CollectedCandidates.rename
  rw [List.filter_map]
  congr 2
  funext candidate
  simp only [Function.comp, onHost_rename]
  rfl

theorem matching_rename :
    (request.rename ρ.toFun).matching js (collected.rename ρ.toFun) =
      (request.matching js collected).map (·.rename ρ.toFun) := by
  unfold TargetRequest.matching
  rw [targeted_rename, List.filter_map]
  rfl

theorem absenceReasons_rename :
    (request.rename ρ.toFun).absenceReasons js (collected.rename ρ.toFun).candidates =
      request.absenceReasons js collected.candidates := by
  have hplatform : ∀ all : List PlacementCandidate,
      (all.map (·.rename ρ.toFun)).any (fun c => reported c.platform = "") =
        all.any (fun c => reported c.platform = "") := by
    intro all
    rw [List.any_map]
    rfl
  unfold TargetRequest.absenceReasons CollectedCandidates.rename
  cases h : request.target.wantedHost with
  | none =>
    simp only [target_rename, wantedPlatform_rename, h, hplatform]
    cases request.wantedPlatform js <;> rfl
  | some wantedHost =>
    have hfind : (collected.candidates.map (·.rename ρ.toFun)).find? (·.hostId = wantedHost) =
        (collected.candidates.find? (·.hostId = wantedHost)).map (·.rename ρ.toFun) := by
      rw [List.find?_map]
      congr 2
      funext candidate
      simp [PlacementCandidate.rename, ρ.apply_eq_iff h]
    simp only [target_rename, wantedPlatform_rename, h, hfind]
    cases collected.candidates.find? (·.hostId = wantedHost) <;>
      cases request.wantedPlatform js <;> rfl

theorem detail_rename (why : List String) :
    (request.rename ρ.toFun).detail why = request.detail why := rfl

theorem refusalReasons_rename :
    (request.rename ρ.toFun).refusalReasons js (collected.rename ρ.toFun) =
      request.refusalReasons js collected := by
  unfold TargetRequest.refusalReasons
  simp only [matching_rename, absenceReasons_rename, List.flatMap_map, List.map_eq_nil_iff]
  rfl

theorem refused_rename :
    ((request.rename ρ.toFun).matching js (collected.rename ρ.toFun)).any
        (eligible js ((request.rename ρ.toFun).context (collected.rename ρ.toFun))) =
      (request.matching js collected).any (eligible js (request.context collected)) := by
  rw [matching_rename, List.any_map]
  rfl

/-- The reasons are the same when every matching candidate that is named keeps its id. -/
theorem why_rename
    (h : ∀ candidate ∈ request.matching js collected,
      ρ.toFun candidate.hostId = candidate.hostId ∨
        unsupportedBy candidate request.needs = none) :
    (request.rename ρ.toFun).why js (collected.rename ρ.toFun) = request.why js collected := by
  have hagent : (request.matching js collected).flatMap
      (fun candidate => (request.rename ρ.toFun).agentReasons (candidate.rename ρ.toFun)) =
        (request.matching js collected).flatMap request.agentReasons := by
    apply List.flatMap_congr
    intro candidate hmem
    rcases h candidate hmem with hid | hsupported
    · have : candidate.rename ρ.toFun = candidate := by
        simp [PlacementCandidate.rename, hid]
      rw [this]
      rfl
    · change _ ++ _ ++ ((unsupportedBy candidate request.needs).map _).toList =
        _ ++ _ ++ ((unsupportedBy candidate request.needs).map _).toList
      simp only [hsupported, Option.map_none]
      rfl
  unfold TargetRequest.why
  simp only [refusalReasons_rename, matching_rename, targeted_rename, List.flatMap_map, hagent,
    List.length_map]
  rfl

end

/-! ## When a refusal is discreet -/

/-- No candidate is named: the target names a host itself, or some candidate is taken, or every
matching candidate supports the launch. -/
def Unnamed (js : Outside) (fleet : Option CollectedCandidates) (request : TargetRequest) :
    Prop :=
  request.target.wantedHost ≠ none ∨ ∀ collected ∈ fleet,
    (∃ candidate ∈ request.matching js collected,
      eligible js (request.context collected) candidate = true) ∨
    ∀ candidate ∈ request.matching js collected, unsupportedBy candidate request.needs = none

/-- A matching candidate is the host that is named. -/
theorem hostId_of_matching {candidate : PlacementCandidate} {wantedHost : HostId}
    (hwanted : request.target.wantedHost = some wantedHost)
    (hmem : candidate ∈ request.matching js collected) : candidate.hostId = wantedHost := by
  simp only [TargetRequest.matching, TargetRequest.targeted, List.mem_filter,
    Bool.and_eq_true] at hmem
  simpa [TargetRequest.onHost, hwanted] using hmem.1.2.1

theorem discreet_of_unnamed {fleet : Option CollectedCandidates}
    (h : Unnamed js fleet request) : Discreet js fleet request := by
  intro ρ detail hdetail
  cases fleet with
  | none =>
    rw [detail?_unreadable] at hdetail
    rw [Option.map_none, detail?_unreadable, detail_rename, hdetail]
  | some collected =>
    simp only [Option.map_some, detail?_resolveTargetHost, refused_rename] at hdetail ⊢
    split at hdetail
    · cases hdetail
    · rename_i hnone
      have hwhy : (request.rename ρ.toFun).why js (collected.rename ρ.toFun) =
          request.why js collected := by
        apply why_rename
        intro candidate hmem
        rcases h with hnamed | h
        · obtain ⟨wantedHost, hwanted⟩ := Option.ne_none_iff_exists'.1 hnamed
          left
          rw [hostId_of_matching hwanted hmem]
          exact ρ.fixes wantedHost hwanted
        · rcases h collected rfl with ⟨taken, htaken, heligible⟩ | h
          · exact absurd (List.any_eq_true.2 ⟨taken, htaken, heligible⟩) hnone
          · exact .inr (h candidate hmem)
      rw [if_neg hnone, detail_rename, hwhy]
      exact hdetail

/-- The reason that names a candidate. -/
theorem named_mem_why {candidate : PlacementCandidate} {unsupported : String}
    (hmem : candidate ∈ request.matching js collected)
    (h : unsupportedBy candidate request.needs = some unsupported) :
    TargetRequest.unsupportedReason candidate.hostId unsupported ∈ request.why js collected := by
  have hagent : TargetRequest.unsupportedReason candidate.hostId unsupported ∈
      request.agentReasons candidate := by
    simp [TargetRequest.agentReasons, h]
  unfold TargetRequest.why
  simp only [List.mem_eraseDups, List.mem_append, List.mem_flatMap]
  exact .inl (.inr ⟨candidate, hmem, hagent⟩)

theorem length_le_detail {reason : String} {why : List String} (h : reason ∈ why) :
    reason.length ≤ (request.detail why).length := by
  have hne : why ≠ [] := List.ne_nil_of_mem h
  have hle : reason.length ≤ (Text.join "; " why).length := Text.length_le_join h
  have hjoin : (Text.join "; " why).length ≤ (request.detail why).length := by
    unfold TargetRequest.detail
    rw [if_neg hne]
    generalize Text.join "; " why = text
    simp only [String.length_append, toString]
    omega
  exact hle.trans hjoin

theorem length_le_unsupportedReason (hostId : HostId) (unsupported : String) :
    hostId.length ≤ (TargetRequest.unsupportedReason hostId unsupported).length := by
  unfold TargetRequest.unsupportedReason
  simp only [String.length_append, toString]
  omega

/-- An id that no text as long as `text` contains. -/
def longId (text : String) : HostId := String.ofList (List.replicate (text.length + 1) 'x')

theorem length_longId (text : String) : (longId text).length = text.length + 1 := by
  simp [longId]

/-- The host `a` goes by the id `b`, and a host of that id by `a`. -/
def Renaming.swap {target : PlacementTarget} (h : target.wantedHost = none) (a b : HostId) :
    Renaming target where
  toFun := Equiv.swap a b
  injective := (Equiv.swap a b).injective
  fixes := by simp [h]

/-- A candidate that is named goes by an id that the text before the renaming cannot hold. -/
theorem not_discreet_of_named {candidate : PlacementCandidate} {unsupported : String}
    (htarget : request.target.wantedHost = none)
    (hnone : ¬(request.matching js collected).any
      (eligible js (request.context collected)) = true)
    (hmem : candidate ∈ request.matching js collected)
    (h : unsupportedBy candidate request.needs = some unsupported) :
    ¬Discreet js (some collected) request := by
  intro hdiscreet
  obtain ⟨text, htext⟩ : ∃ text, request.detail (request.why js collected) = text := ⟨_, rfl⟩
  have hbefore : (resolveTargetHost js (some collected) request).detail? = some text := by
    rw [detail?_resolveTargetHost, if_neg hnone, htext]
  obtain ⟨ρ, hρ⟩ : ∃ ρ : Renaming request.target, ρ.toFun candidate.hostId = longId text :=
    ⟨Renaming.swap htarget _ _, Equiv.swap_apply_left _ _⟩
  have hafter := hdiscreet ρ text hbefore
  rw [Option.map_some, detail?_resolveTargetHost, refused_rename, if_neg hnone,
    Option.some.injEq] at hafter
  have hname : TargetRequest.unsupportedReason (longId text) unsupported ∈
      (request.rename ρ.toFun).why js (collected.rename ρ.toFun) := by
    have hmem' : candidate.rename ρ.toFun ∈
        (request.rename ρ.toFun).matching js (collected.rename ρ.toFun) := by
      rw [matching_rename]
      exact List.mem_map_of_mem hmem
    have hname' : TargetRequest.unsupportedReason (candidate.rename ρ.toFun).hostId unsupported ∈
        (request.rename ρ.toFun).why js (collected.rename ρ.toFun) := named_mem_why hmem' h
    rwa [PlacementCandidate.rename, hρ] at hname'
  have hlong : (longId text).length ≤ text.length := by
    calc
      (longId text).length
          ≤ (TargetRequest.unsupportedReason (longId text) unsupported).length :=
        length_le_unsupportedReason _ unsupported
      _ ≤ ((request.rename ρ.toFun).detail
            ((request.rename ρ.toFun).why js (collected.rename ρ.toFun))).length :=
        length_le_detail hname
      _ = text.length := by rw [hafter]
  rw [length_longId] at hlong
  omega

/-- The text of a refusal is the same under every renaming of the hosts that the target does
not name exactly when the target names a host, or a matching candidate is eligible, or every
matching candidate supports the launch. -/
theorem discreet_iff (js : Outside) (fleet : Option CollectedCandidates)
    (request : TargetRequest) : Discreet js fleet request ↔ Unnamed js fleet request := by
  constructor
  · intro hdiscreet
    by_contra hnamed
    simp only [Unnamed, not_or, not_not, not_forall] at hnamed
    obtain ⟨htarget, collected, hfleet, hnone, candidate, hmem, h⟩ := hnamed
    obtain ⟨unsupported, h⟩ := Option.ne_none_iff_exists'.1 h
    cases Option.mem_def.1 hfleet
    refine not_discreet_of_named htarget ?_ hmem h hdiscreet
    rw [List.any_eq_true]
    exact hnone
  · exact discreet_of_unnamed

/-- A Mac whose agent accepts no launch option. -/
def oldMac (hostId : HostId) : PlacementCandidate :=
  { hostId
    isLocal := false
    online := true
    drained := false
    capacity := some { platform := "darwin", logicalCores := 8, loadAverage1m := 1 }
    projectCwd := some "/src"
    platform := some "darwin"
    protocol := some
      { protocolVersion := 1, legacy := false, operations := [], launchOptions := [] } }

/-- A caller that asks for any Mac is told the id of the Mac that is too old. -/
theorem old_mac_is_named :
    let js : Outside :=
      { toLowerCase := id, isOlderVersion := fun _ _ => false, number := toString,
        toFixed2 := toString }
    let request : TargetRequest :=
      { pinnedHostId := localHostId
        target := .platform "darwin"
        requiredLaunchOptions := ["model"] }
    let fleet : CollectedCandidates := { localCapacity := none, candidates := [oldMac "m1"] }
    (resolveTargetHost js (some fleet) request).detail? =
        some ("no eligible host matches platform darwin (m1 does not support the model launch " ++
          "option (update the host))") ∧
      ¬Discreet js (some fleet) request := by
  intro js request fleet
  have htext : (resolveTargetHost js (some fleet) request).detail? =
      some ("no eligible host matches platform darwin (m1 does not support the model launch " ++
        "option (update the host))") := by
    decide +kernel
  let ρ : Renaming request.target := Renaming.swap rfl "m1" "m2"
  have hother : (resolveTargetHost js ((some fleet).map (·.rename ρ.toFun))
      (request.rename ρ.toFun)).detail? =
        some ("no eligible host matches platform darwin (m2 does not support the model " ++
          "launch option (update the host))") := by
    decide +kernel
  refine ⟨htext, fun hdiscreet => ?_⟩
  have hsame := hdiscreet ρ _ htext
  rw [hother] at hsame
  revert hsame
  decide +kernel

end Placement
end Mullion
