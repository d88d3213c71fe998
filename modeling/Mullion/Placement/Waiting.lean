import Mullion.Placement.Optimal
import Mullion.Placement.Target

/-!
# Whether waiting can help

A refusal says whether it is transient. What is asked is whether that is right: whether the same
call may succeed once readings that are temporary have changed (`Changed`), which are all but those
a host has reported for good. `exists_changed_iff` answers it for any condition on the platform: a
change may help exactly if some candidate is capable and reports a platform that fits or none at
all. The flag of a refused target is then right unless the platform that is asked for and the flag
of the project clash, since the code holds such a call for a host that has not reported its platform
(`transient_iff`, `clash_is_held`). The flag of a refused automatic placement always is
(`flags_transient_iff`).
-/

namespace Mullion
namespace Placement

/-- `PLACEMENT_PLATFORMS`. -/
def placementPlatforms : List String := ["darwin", "linux", "win32"]

/-- The list of `parsePlacementConstraints`. -/
def parsePlatforms (platform : List String) : List String :=
  placementPlatforms.filter (· ∈ platform)

theorem parsePlatforms_known (platform : List String) :
    ∀ allowed ∈ parsePlatforms platform, allowed ∈ placementPlatforms :=
  fun _ h => List.mem_of_mem_filter h

/-- What is used of `toLowerCase`: only the empty text becomes empty, and the platforms are in
lower case. -/
structure Outside.Lowers (js : Outside) : Prop where
  empty : js.toLowerCase "" = ""
  nonempty : ∀ s, js.toLowerCase s = "" → s = ""
  platforms : ∀ platform ∈ placementPlatforms, js.toLowerCase platform = platform

/-! ## Changes of temporary readings -/

/-- What is reported stays as it was. -/
def Kept {α : Type} (before after : Option α) : Prop := before = none ∨ after = before

/-- The same host, later: whether it is online or drained, its capacity, and what it had not
reported may have changed. -/
structure SameHost (before after : PlacementCandidate) : Prop where
  hostId : after.hostId = before.hostId
  isLocal : after.isLocal = before.isLocal
  projectCwd : after.projectCwd = before.projectCwd
  needsCheckout : after.needsCheckout = before.needsCheckout
  noProjectsRoots : after.noProjectsRoots = before.noProjectsRoots
  role : after.role = before.role
  mullionVersion : after.mullionVersion = before.mullionVersion
  protocol : after.protocol = before.protocol
  platform : reported before.platform = "" ∨ after.platform = before.platform
  agents : Kept before.agents after.agents
  capabilities : Kept before.capabilities after.capabilities

/-- A fleet after a change of temporary readings only. -/
def Changed (before after : CollectedCandidates) : Prop :=
  List.Forall₂ SameHost before.candidates after.candidates

/-- Every candidate of the later fleet was there before. -/
theorem Changed.before {before after : CollectedCandidates} (h : Changed before after)
    {candidate : PlacementCandidate} (hmem : candidate ∈ after.candidates) :
    ∃ earlier ∈ before.candidates, SameHost earlier candidate := by
  obtain ⟨capacity, later⟩ := after
  obtain ⟨capacity', candidates⟩ := before
  unfold Changed at h
  dsimp only at h hmem ⊢
  induction h with
  | nil => cases hmem
  | cons hsame _ ih =>
    rcases List.mem_cons.1 hmem with rfl | hmem
    · exact ⟨_, List.mem_cons_self, hsame⟩
    · obtain ⟨earlier, hearlier, hsame⟩ := ih hmem
      exact ⟨earlier, List.mem_cons_of_mem _ hearlier, hsame⟩

/-- Nothing is known against a launch on the candidate: it has the project and lacks nothing. -/
def Capable (needs : Needs) (candidate : PlacementCandidate) : Prop :=
  (candidate.projectCwd ≠ none ∨ candidate.needsCheckout = true) ∧
    missingAgent candidate needs = none ∧ missingCapability candidate needs = none ∧
    unsupportedBy candidate needs = none

instance (needs : Needs) (candidate : PlacementCandidate) :
    Decidable (Capable needs candidate) := by
  unfold Capable
  infer_instance

theorem firstMissing_kept {before after : Option (List String)} {required : List String}
    (h : Kept before after) (hafter : firstMissing after required = none) :
    firstMissing before required = none := by
  rcases h with rfl | rfl
  · rfl
  · exact hafter

/-- What is capable after a change was capable before. -/
theorem SameHost.capable {before after : PlacementCandidate} {needs : Needs}
    (h : SameHost before after) (hafter : Capable needs after) : Capable needs before := by
  obtain ⟨hproject, hagent, hcapability, hprotocol⟩ := hafter
  refine ⟨?_, firstMissing_kept h.agents hagent, firstMissing_kept h.capabilities hcapability, ?_⟩
  · rwa [h.projectCwd, h.needsCheckout] at hproject
  · unfold unsupportedBy at hprotocol ⊢
    rwa [h.protocol] at hprotocol

/-- The candidate when all temporary readings turn out well, on the given platform. -/
def PlacementCandidate.ready (candidate : PlacementCandidate) (platform : Option String) :
    PlacementCandidate :=
  { candidate with
    online := true, drained := false, capacity := some default, platform := platform }

/-- The fleet when all temporary readings turn out well; the unreported platforms are as given. -/
def CollectedCandidates.ready (collected : CollectedCandidates) (platform : Option String) :
    CollectedCandidates where
  localCapacity := some default
  candidates := collected.candidates.map fun candidate =>
    candidate.ready (if reported candidate.platform = "" then platform else candidate.platform)

theorem changed_ready (collected : CollectedCandidates) (platform : Option String) :
    Changed collected (collected.ready platform) := by
  unfold Changed CollectedCandidates.ready
  rw [List.forall₂_map_right_iff]
  refine List.forall₂_same.2 ?_
  intro candidate _
  refine ⟨rfl, rfl, rfl, rfl, rfl, rfl, rfl, rfl, ?_, Or.inr rfl, Or.inr rfl⟩
  by_cases h : reported candidate.platform = ""
  · exact Or.inl h
  · exact Or.inr (if_neg h)

/-! ## Eligibility -/

/-- A candidate is eligible for a named target exactly when it is capable and its temporary
readings are good. -/
theorem eligible_iff {js : Outside} {context : PlacementContext} {candidate : PlacementCandidate} :
    exclusionReason js candidate context = none ↔
      (candidate.role = .burst → context.allowBurst = true) ∧
      platformFlagState js candidate.platform context.platforms = .ok ∧
      candidate.online = true ∧ candidate.drained = false ∧
      reading context.localCapacity candidate ≠ none ∧ Capable context.toNeeds candidate := by
  rw [exclusionReason]
  by_cases hrole : candidate.role = .burst ∧ context.allowBurst = false
  · simp [hrole]
  have hrole' : candidate.role = .burst → context.allowBurst = true := by
    intro hburst
    by_contra hallow
    exact hrole ⟨hburst, by simpa using hallow⟩
  rw [if_neg hrole]
  cases hflag : platformFlagState js candidate.platform context.platforms with
  | unknown => simp
  | forbidden => simp
  | ok =>
    simp only [true_and]
    by_cases honline : candidate.online = false
    · simp [honline]
    rw [if_neg honline]
    by_cases hdrained : candidate.drained = true
    · simp [hdrained]
    rw [if_neg hdrained]
    by_cases hreading : reading context.localCapacity candidate = none
    · simp [hreading]
    rw [if_neg hreading]
    by_cases hproject : candidate.projectCwd = none ∧ candidate.needsCheckout = false
    · rw [if_pos hproject]
      simp only [Capable, hproject.1, hproject.2]
      split <;> simp
    rw [if_neg hproject]
    have hproject' : candidate.projectCwd ≠ none ∨ candidate.needsCheckout = true := by
      by_contra h
      rw [not_or] at h
      exact hproject ⟨not_not.1 h.1, by simpa using h.2⟩
    cases hagent : missingAgent candidate context.toNeeds with
    | some missing => simp [Capable, hagent]
    | none =>
      cases hcapability : missingCapability candidate context.toNeeds with
      | some lacking => simp [Capable, hagent, hcapability]
      | none =>
        simp only [Capable, hagent, hcapability, Option.map_eq_none_iff,
          Bool.eq_true_of_not_eq_false honline, Bool.eq_false_of_not_eq_true hdrained, ne_eq,
          hreading, not_false_eq_true, true_and]
        exact ⟨fun h => ⟨hrole', hproject', h⟩, fun h => h.2.2⟩

/-! ## Platforms that a host may turn out to have -/

/-- The host may turn out to have a platform that meets a condition. -/
def MayBe (candidate : PlacementCandidate) (p : Option String → Prop) : Prop :=
  if reported candidate.platform = "" then ∃ platform, p platform else p candidate.platform

/-- A change of readings that makes some capable candidate eligible, under a condition on its
platform, exists exactly when the platform of a capable candidate may turn out to meet it. -/
theorem exists_changed_iff {collected : CollectedCandidates} {needs : Needs}
    {keeps : PlacementCandidate → Prop} {p : Option String → Prop}
    (hkeeps : ∀ before after, SameHost before after → (keeps before ↔ keeps after)) :
    (∃ later, Changed collected later ∧ ∃ candidate ∈ later.candidates, keeps candidate ∧
      p candidate.platform ∧ candidate.online = true ∧ candidate.drained = false ∧
      reading later.localCapacity candidate ≠ none ∧ Capable needs candidate) ↔
    ∃ candidate ∈ collected.candidates, keeps candidate ∧ MayBe candidate p ∧
      Capable needs candidate := by
  constructor
  · rintro ⟨later, hchanged, after, hafter, hkeep, hp, -, -, -, hcapable⟩
    obtain ⟨before, hbefore, hsame⟩ := hchanged.before hafter
    refine ⟨before, hbefore, (hkeeps before after hsame).2 hkeep, ?_, hsame.capable hcapable⟩
    unfold MayBe
    split
    · exact ⟨after.platform, hp⟩
    next hreported =>
      rwa [← hsame.platform.resolve_left hreported]
  · rintro ⟨before, hbefore, hkeep, hmay, hcapable⟩
    obtain ⟨platform, hplatform⟩ : ∃ platform,
        p (if reported before.platform = "" then platform else before.platform) := by
      unfold MayBe at hmay
      split at hmay
      next hreported =>
        obtain ⟨platform, hp⟩ := hmay
        exact ⟨platform, by rwa [if_pos hreported]⟩
      next hreported => exact ⟨none, by rwa [if_neg hreported]⟩
    have hmem := List.mem_map_of_mem (f := fun candidate => candidate.ready
      (if reported candidate.platform = "" then platform else candidate.platform)) hbefore
    refine ⟨collected.ready platform, changed_ready collected platform, _, hmem, ?_, hplatform,
      rfl, rfl, ?_, hcapable⟩
    · refine (hkeeps before _ ?_).1 hkeep
      refine ⟨rfl, rfl, rfl, rfl, rfl, rfl, rfl, rfl, ?_, Or.inr rfl, Or.inr rfl⟩
      by_cases h : reported before.platform = ""
      · exact Or.inl h
      · exact Or.inr (if_neg h)
    · unfold reading CollectedCandidates.ready PlacementCandidate.ready
      split <;> simp

variable {js : Outside}

/-- A platform that is reported is listed or forbidden. -/
theorem platformFlagState_reported (hjs : js.Lowers) {platform : Option String}
    (h : reported platform ≠ "") (allowed : List String) :
    platformFlagState js platform allowed ≠ .forbidden ↔
      platformFlagState js platform allowed = .ok := by
  have hlower : js.toLowerCase (reported platform) ≠ "" := fun he => h (hjs.nonempty _ he)
  unfold platformFlagState
  simp only [hlower, if_false]
  split_ifs <;> simp

/-- A platform that is not reported is not forbidden. -/
theorem platformFlagState_unreported (hjs : js.Lowers) {platform : Option String}
    (h : reported platform = "") (allowed : List String) :
    platformFlagState js platform allowed ≠ .forbidden := by
  unfold platformFlagState
  simp only [h, hjs.empty, if_true]
  split_ifs <;> simp

/-- A platform is fine exactly when there is no list or the list has it. -/
theorem platformFlagState_eq_ok_iff {platform : Option String} {allowed : List String}
    (hallowed : "" ∉ allowed) :
    platformFlagState js platform allowed = .ok ↔
      allowed = [] ∨ js.toLowerCase (reported platform) ∈ allowed := by
  unfold platformFlagState
  by_cases hnil : allowed = []
  · simp [hnil]
  by_cases hempty : js.toLowerCase (reported platform) = ""
  · simp [hnil, hempty, hallowed]
  by_cases hmem : js.toLowerCase (reported platform) ∈ allowed <;> simp [hnil, hempty, hmem]

/-! ## A refused target -/

section Target

variable {collected : CollectedCandidates} {request : TargetRequest}

/-- A call succeeds exactly when a candidate that fits the target is capable and its temporary
readings are good. -/
theorem succeeds_iff : (∃ decision, resolveTargetHost js (some collected) request = .ok decision) ↔
    ∃ candidate ∈ collected.candidates, request.onHost candidate = true ∧
      ((request.wantedPlatform js).all (js.toLowerCase (reported candidate.platform) = ·) = true ∧
        platformFlagState js candidate.platform request.flagPlatforms = .ok) ∧
      candidate.online = true ∧ candidate.drained = false ∧
      reading collected.localCapacity candidate ≠ none ∧ Capable request.needs candidate := by
  have hok : (∃ decision, resolveTargetHost js (some collected) request = .ok decision) ↔
      (request.matching js collected).any (eligible js (request.context collected)) = true := by
    unfold resolveTargetHost
    simp only [chooseHost_fellBack]
    cases (request.matching js collected).any (eligible js (request.context collected)) <;> simp
  rw [hok, List.any_eq_true]
  have helig : ∀ candidate, eligible js (request.context collected) candidate = true ↔
      candidate.online = true ∧ candidate.drained = false ∧
        reading collected.localCapacity candidate ≠ none ∧ Capable request.needs candidate := by
    intro candidate
    rw [eligible, Option.isNone_iff_eq_none, eligible_iff]
    simp [TargetRequest.context, platformFlagState]
  simp only [helig, TargetRequest.matching, TargetRequest.targeted, List.mem_filter,
    TargetRequest.onPlatform, Bool.and_eq_true, decide_eq_true_eq]
  constructor
  · rintro ⟨candidate, ⟨⟨hmem, hhost, hplatform⟩, hflag⟩, hready⟩
    exact ⟨candidate, hmem, hhost, ⟨hplatform, hflag⟩, hready⟩
  · rintro ⟨candidate, hmem, hhost, ⟨hplatform, hflag⟩, hready⟩
    exact ⟨candidate, ⟨⟨hmem, hhost, hplatform⟩, hflag⟩, hready⟩

/-- `mightMatch`, candidate by candidate. -/
theorem mightMatch_iff : request.mightMatch js collected = true ↔
    ∃ candidate ∈ collected.candidates, request.onHost candidate = true ∧
      (platformFlagState js candidate.platform request.flagPlatforms ≠ .forbidden ∧
        (request.onPlatform js candidate = true ∨ reported candidate.platform = "")) ∧
      Capable request.needs candidate := by
  simp only [TargetRequest.mightMatch, List.any_eq_true, Bool.and_eq_true, Bool.or_eq_true,
    decide_eq_true_eq, Capable]
  constructor
  · rintro ⟨candidate, hmem, ⟨⟨⟨⟨⟨hproject, hflag⟩, hagent⟩, hcapability⟩, hprotocol⟩, hhost⟩,
      hplatform⟩
    exact ⟨candidate, hmem, hhost, ⟨hflag, hplatform⟩, hproject, hagent, hcapability, hprotocol⟩
  · rintro ⟨candidate, hmem, hhost, ⟨hflag, hplatform⟩, hproject, hagent, hcapability, hprotocol⟩
    exact ⟨candidate, hmem, ⟨⟨⟨⟨⟨hproject, hflag⟩, hagent⟩, hcapability⟩, hprotocol⟩, hhost⟩,
      hplatform⟩

/-- Another platform is wanted than the flag of the project allows, and a capable host that
may be named has not reported its platform. -/
def Clashes (js : Outside) (collected : CollectedCandidates) (request : TargetRequest) : Prop :=
  (∃ wanted, request.wantedPlatform js = some wanted ∧ request.flagPlatforms ≠ [] ∧
    wanted ∉ request.flagPlatforms) ∧
  ∃ candidate ∈ collected.candidates, reported candidate.platform = "" ∧
    request.onHost candidate = true ∧ Capable request.needs candidate

/-- What the target and the flag ask of a platform. -/
def Fits (js : Outside) (request : TargetRequest) (platform : Option String) : Prop :=
  (request.wantedPlatform js).all (js.toLowerCase (reported platform) = ·) = true ∧
    platformFlagState js platform request.flagPlatforms = .ok

theorem flagPlatforms_known (hflag : ∀ platform ∈ request.platformFlag, platform ∈
    placementPlatforms) : ∀ platform ∈ request.flagPlatforms, platform ∈ placementPlatforms := by
  unfold TargetRequest.flagPlatforms
  split
  · exact hflag
  · simp

theorem empty_not_mem_of_known {allowed : List String}
    (h : ∀ platform ∈ allowed, platform ∈ placementPlatforms) : "" ∉ allowed :=
  fun hmem => absurd (h "" hmem) (by decide)

/-- A platform that fits exists exactly when the flag allows the wanted one. -/
theorem exists_fits_iff (hjs : js.Lowers)
    (hflag : ∀ platform ∈ request.platformFlag, platform ∈ placementPlatforms) :
    (∃ platform, Fits js request platform) ↔
      ¬ ∃ wanted, request.wantedPlatform js = some wanted ∧ request.flagPlatforms ≠ [] ∧
        wanted ∉ request.flagPlatforms := by
  have hknown := flagPlatforms_known hflag
  have hempty := empty_not_mem_of_known hknown
  simp only [Fits, platformFlagState_eq_ok_iff hempty]
  constructor
  · rintro ⟨platform, hwanted, hallowed⟩ ⟨wanted, hsome, hne, hnot⟩
    rw [hsome] at hwanted
    simp only [Option.all_some, decide_eq_true_eq] at hwanted
    rw [hwanted] at hallowed
    exact hnot (hallowed.resolve_left hne)
  · intro hno
    cases htarget : request.target.wantedPlatform with
    | none =>
      cases hallowed : request.flagPlatforms with
      | nil => exact ⟨none, by simp [TargetRequest.wantedPlatform, htarget]⟩
      | cons first rest =>
        have hfirst := hjs.platforms first (hknown first (by simp [hallowed]))
        exact ⟨some first, by simp [TargetRequest.wantedPlatform, htarget, reported, hfirst]⟩
    | some wanted =>
      have hwanted : request.wantedPlatform js = some (js.toLowerCase wanted) := by
        simp [TargetRequest.wantedPlatform, htarget]
      refine ⟨some wanted, by simp [hwanted, reported], ?_⟩
      by_contra hnot
      rw [not_or] at hnot
      exact hno ⟨_, hwanted, hnot⟩

/-- **Hold or fail.** The flag of a refusal says rightly whether a change of temporary readings
may let the same call succeed, exactly when the call does not clash. -/
theorem transient_iff (js : Outside) (hjs : js.Lowers) (collected : CollectedCandidates)
    (request : TargetRequest)
    (hflag : ∀ platform ∈ request.platformFlag, platform ∈ placementPlatforms)
    {detail : String} {isTransient unreadable : Bool}
    (h : resolveTargetHost js (some collected) request = .refused detail isTransient unreadable) :
    (isTransient = true ↔ ∃ later, Changed collected later ∧
      ∃ decision, resolveTargetHost js (some later) request = .ok decision) ↔
    ¬ Clashes js collected request := by
  have htransient : isTransient = request.mightMatch js collected := by
    unfold resolveTargetHost at h
    dsimp only at h
    split at h
    · cases h
      rfl
    · cases h
  have hkeeps : ∀ before after, SameHost before after →
      (request.onHost before = true ↔ request.onHost after = true) := by
    intro before after hsame
    unfold TargetRequest.onHost
    rw [hsame.hostId]
  have hcan : (∃ later, Changed collected later ∧
      ∃ decision, resolveTargetHost js (some later) request = .ok decision) ↔
      ∃ candidate ∈ collected.candidates, request.onHost candidate = true ∧
        MayBe candidate (Fits js request) ∧ Capable request.needs candidate := by
    rw [← exists_changed_iff hkeeps]
    simp only [succeeds_iff, Fits]
  rw [htransient, hcan, mightMatch_iff]
  have hreported : ∀ candidate : PlacementCandidate, reported candidate.platform ≠ "" →
      ((platformFlagState js candidate.platform request.flagPlatforms ≠ .forbidden ∧
        (request.onPlatform js candidate = true ∨ reported candidate.platform = "")) ↔
        Fits js request candidate.platform) := by
    intro candidate hne
    rw [platformFlagState_reported hjs hne, or_iff_left hne, and_comm]
    rfl
  have hunreported : ∀ candidate : PlacementCandidate, reported candidate.platform = "" →
      (platformFlagState js candidate.platform request.flagPlatforms ≠ .forbidden ∧
        (request.onPlatform js candidate = true ∨ reported candidate.platform = "")) :=
    fun candidate heq => ⟨platformFlagState_unreported hjs heq _, Or.inr heq⟩
  by_cases hfits : ∃ platform, Fits js request platform
  · -- the target and the flag agree, so an unreported platform may turn out to fit
    have hnot : ¬ Clashes js collected request :=
      fun hclash => (exists_fits_iff hjs hflag).1 hfits hclash.1
    refine iff_of_true ?_ hnot
    refine exists_congr fun candidate => and_congr_right fun _ => and_congr_right fun _ =>
      and_congr_left fun _ => ?_
    unfold MayBe
    split
    next heq => exact iff_of_true (hunreported candidate heq) hfits
    next hne => exact hreported candidate hne
  · -- no platform fits, so nothing can ever succeed
    have hnever : ¬ ∃ candidate ∈ collected.candidates, request.onHost candidate = true ∧
        MayBe candidate (Fits js request) ∧ Capable request.needs candidate := by
      rintro ⟨candidate, -, -, hmay, -⟩
      unfold MayBe at hmay
      split at hmay
      · exact hfits hmay
      · exact hfits ⟨_, hmay⟩
    rw [iff_false_right hnever]
    refine not_congr ⟨?_, ?_⟩
    · rintro ⟨candidate, hmem, hhost, hfit, hcapable⟩
      refine ⟨not_not.1 (mt (exists_fits_iff hjs hflag).2 hfits), candidate, hmem, ?_, hhost,
        hcapable⟩
      by_contra hne
      exact hfits ⟨_, (hreported candidate hne).1 hfit⟩
    · rintro ⟨-, candidate, hmem, heq, hhost, hcapable⟩
      exact ⟨candidate, hmem, hhost, hunreported candidate heq, hcapable⟩

/-! ### A call that clashes -/

theorem lowers_plainOutside : plainOutside.Lowers := ⟨rfl, fun _ h => h, fun _ _ => rfl⟩

/-- A host that has the project and has not come online yet. -/
def silentFleet : CollectedCandidates where
  localCapacity := none
  candidates := [{
    hostId := "a", isLocal := false, online := false, drained := false, capacity := none,
    projectCwd := some "/p" }]

/-- A launch on a Windows host, of a project that allows the given platforms. -/
def windowsRequest (allowed : List String) : TargetRequest :=
  { pinnedHostId := "a", platformFlag := parsePlatforms allowed, target := .platform "win32",
    checkProjectFlags := true }

/-- A launch on Windows of a project that allows only macOS is held for a host that has not
reported its platform. -/
theorem clash_is_held :
    ¬ ∀ (js : Outside), js.Lowers → ∀ (collected : CollectedCandidates) (request : TargetRequest),
      (∀ platform ∈ request.platformFlag, platform ∈ placementPlatforms) →
      ∀ (detail : String) (isTransient unreadable : Bool),
        resolveTargetHost js (some collected) request = .refused detail isTransient unreadable →
        (isTransient = true ↔ ∃ later, Changed collected later ∧
          ∃ decision, resolveTargetHost js (some later) request = .ok decision) := by
  intro h
  obtain ⟨later, hchanged, hsucceeds⟩ := (h plainOutside lowers_plainOutside silentFleet
    (windowsRequest ["darwin"]) (parsePlatforms_known ["darwin"]) _ true false rfl).1 rfl
  rw [succeeds_iff] at hsucceeds
  obtain ⟨candidate, -, -, ⟨hwanted, hallowed⟩, -⟩ := hsucceeds
  rw [platformFlagState_eq_ok_iff (by decide)] at hallowed
  have hwin : plainOutside.toLowerCase (reported candidate.platform) = "win32" :=
    of_decide_eq_true hwanted
  rw [hwin] at hallowed
  exact absurd hallowed (by decide)

/-- The same launch of a project that allows Windows is rightly held. -/
theorem windows_is_held :
    (true = true ↔ ∃ later, Changed silentFleet later ∧
      ∃ decision, resolveTargetHost plainOutside (some later) (windowsRequest ["win32"]) =
        .ok decision) ↔
    ¬ Clashes plainOutside silentFleet (windowsRequest ["win32"]) :=
  transient_iff plainOutside lowers_plainOutside silentFleet (windowsRequest ["win32"])
    (parsePlatforms_known ["win32"]) (show resolveTargetHost plainOutside (some silentFleet)
      (windowsRequest ["win32"]) = .refused _ true false from rfl)

end Target

/-! ## A refused automatic placement -/

section Flags

/-- `describeCapabilityFlag`. -/
def describeCapabilityFlag (capabilities : List String) : String :=
  "project requires " ++ Text.join " and " capabilities

/-- `describeFlags`. -/
def describeFlags (platforms capabilities : List String) : String :=
  Text.join "; " ((if platforms = [] then [] else [describePlatformFlag platforms]) ++
    if capabilities = [] then [] else [describeCapabilityFlag capabilities])

variable (js : Outside) (collected : CollectedCandidates) (context : PlacementContext)

/-- `byPlatform` of `refuseForFlags`. -/
def byPlatform : List PlacementCandidate :=
  collected.candidates.filter fun candidate =>
    platformFlagState js candidate.platform context.platforms ≠ .forbidden

/-- `passing` of `refuseForFlags`. -/
def passing : List PlacementCandidate :=
  (byPlatform js collected context).filter fun candidate =>
    candidate.role ≠ .burst || context.allowBurst

/-- What `refuseForFlags` says of a passing candidate. -/
def passingReasons (candidate : PlacementCandidate) : List String :=
  (if platformFlagState js candidate.platform context.platforms = .unknown then
    ["a host that has not reported its platform yet may match once it is online"] else []) ++
  TargetRequest.stateReasons collected.localCapacity candidate ++
  ((missingAgent candidate context.toNeeds).map fun bin =>
    s!"a matching host has no {bin} CLI").toList ++
  ((missingCapability candidate context.toNeeds).map fun lacking =>
    s!"a matching host lacks {lacking}").toList ++
  if unsupportedBy candidate context.toNeeds ≠ none then
    ["a matching host's agent does not support what this launch needs (update it)"] else []

/-- `detail` of `refuseForFlags`. -/
def flagDetail : String :=
  let byPlatform := byPlatform js collected context
  let passing := passing js collected context
  let why := (passing.flatMap (passingReasons js collected context) ++
    (if passing.length < byPlatform.length then
      ["a matching host is a burst host (this project does not allow burst hosts)"] else []) ++
    if byPlatform = [] then ["no host reports a matching platform"] else []).eraseDups
  let flag := describeFlags context.platforms context.requiredCapabilities
  s!"no eligible host satisfies this project's placement flags ({flag}; " ++
    Text.join "; " why ++ ")"

/-- `transient` of `refuseForFlags`. -/
def flagTransient : Bool :=
  (passing js collected context).any fun candidate => decide (Capable context.toNeeds candidate)

/-- `refuseForFlags`: the detail of the refusal and whether it is transient. -/
def refuseForFlags : String × Bool :=
  (flagDetail js collected context, flagTransient js collected context)

variable {js collected context}

/-- The choice does not fall back exactly when a capable candidate has good readings. -/
theorem chooses_iff {candidates : List PlacementCandidate} :
    (chooseHost js candidates context).fellBack = false ↔
      ∃ candidate ∈ candidates, (candidate.role = .burst → context.allowBurst = true) ∧
        platformFlagState js candidate.platform context.platforms = .ok ∧
        candidate.online = true ∧ candidate.drained = false ∧
        reading context.localCapacity candidate ≠ none ∧ Capable context.toNeeds candidate := by
  rw [chooseHost_fellBack, Bool.not_eq_false', List.any_eq_true]
  simp only [eligible, Option.isNone_iff_eq_none, eligible_iff]

/-- The refusal is transient when a passing candidate is capable. -/
theorem refuseForFlags_transient : (refuseForFlags js collected context).2 = true ↔
    ∃ candidate ∈ passing js collected context, Capable context.toNeeds candidate := by
  simp only [refuseForFlags, flagTransient, List.any_eq_true, decide_eq_true_eq]

/-- **Hold or fail, on the flags.** A refused automatic placement is marked transient exactly
when a change of temporary readings may make a host eligible. -/
theorem flags_transient_iff (hjs : js.Lowers)
    (hknown : ∀ platform ∈ context.platforms, platform ∈ placementPlatforms) :
    (refuseForFlags js collected context).2 = true ↔ ∃ later, Changed collected later ∧
      (chooseHost js later.candidates
        { context with localCapacity := later.localCapacity }).fellBack = false := by
  have hkeeps : ∀ before after, SameHost before after →
      ((before.role = .burst → context.allowBurst = true) ↔
        (after.role = .burst → context.allowBurst = true)) := by
    intro before after hsame
    rw [hsame.role]
  simp only [chooses_iff]
  rw [refuseForFlags_transient, exists_changed_iff (p := fun platform =>
    platformFlagState js platform context.platforms = .ok) hkeeps]
  have hempty := empty_not_mem_of_known hknown
  have hfits : ∃ platform, platformFlagState js platform context.platforms = .ok := by
    simp only [platformFlagState_eq_ok_iff hempty]
    cases hallowed : context.platforms with
    | nil => exact ⟨none, Or.inl rfl⟩
    | cons first rest =>
      have hfirst := hjs.platforms first (hknown first (by simp [hallowed]))
      exact ⟨some first, Or.inr (by simp [reported, hfirst])⟩
  simp only [passing, byPlatform, List.mem_filter, Bool.or_eq_true, decide_eq_true_eq]
  refine ⟨?_, ?_⟩
  · rintro ⟨candidate, ⟨⟨hmem, hallowed⟩, hrole⟩, hcapable⟩
    refine ⟨candidate, hmem, fun hburst => hrole.resolve_left (not_not.2 hburst), ?_, hcapable⟩
    unfold MayBe
    split
    · exact hfits
    next hne => exact (platformFlagState_reported hjs hne _).1 hallowed
  · rintro ⟨candidate, hmem, hrole, hmay, hcapable⟩
    refine ⟨candidate, ⟨⟨hmem, ?_⟩, ?_⟩, hcapable⟩
    · unfold MayBe at hmay
      split at hmay
      next heq => exact platformFlagState_unreported hjs heq _
      next hne => exact (platformFlagState_reported hjs hne _).2 hmay
    · by_cases hburst : candidate.role = .burst
      · exact Or.inr (hrole hburst)
      · exact Or.inl hburst

/-- A session of a project that allows only Windows. -/
def windowsContext : PlacementContext :=
  { pinnedHostId := "a", unattended := true, localCapacity := none, platforms := ["win32"] }

/-- It waits for the host that has not reported its platform. -/
theorem flags_transient_iff_of_silent : ∃ later, Changed silentFleet later ∧
    (chooseHost plainOutside later.candidates
      { windowsContext with localCapacity := later.localCapacity }).fellBack = false :=
  (@flags_transient_iff plainOutside silentFleet windowsContext lowers_plainOutside
    (by decide)).1 (by decide)

end Flags

end Placement
end Mullion
