import Mullion.Lib.OrderedMap
import Mullion.Lib.Run
import Mullion.Text

/-!
# Quarantined agents

`services/runway-quarantine.ts` over `services/runway-client.ts`: a task is not claimed while the
quota of a provider that its agent spends is used up. A reading of the quota names providers, the
operator's map names the agents that spend each of them, and a claim names the agents it spends. The
question is what the quarantine holds after any run of polls that wait for their answers, of checks
and of changes of the settings.

The code keeps one entry for each agent and prunes it as it looks. Over it, `Reading` is the reading
that was applied last and the checks made since, and `Quarantined` is what that says of a target at
a time, without any table. First the lookups of the source are shown to be what they stand for
(`mem_targetsFromMap`, `mem_claimTargets`), then what a snapshot writes for each agent
(`lookup_applyRunwaySnapshot`), and what a check removes (`isAgentQuarantined_spec`). `Inv` has
every entry accounted for by the reading, and each step keeps it. `quarantine_law` reads off that
the two agree after every run. A target that a check has released stays so until the next reading
(`released_stays_released`).

Times are numbers of milliseconds.
-/

namespace Mullion
namespace Runway

open Run

/-! ## The settings -/

/-- A value of the stored provider map; the items of a list that are no strings are `none`. -/
inductive RawTargets
  | target (target : String)
  | list (targets : List (Option String))
  | other
  deriving DecidableEq, Repr

inductive Targets
  | target (target : String)
  | list (targets : List String)
  deriving DecidableEq, Repr

def Targets.toList : Targets → List String
  | .target t => [t]
  | .list ts => ts

abbrev ProviderMap := OrderedMap String Targets

/-- The stored settings; a map that is no object and an interval that is no number are `none`. -/
structure Stored where
  apiUrl : String
  providerMap : Option (List (String × RawTargets))
  pollSeconds : Option ℚ
  deriving DecidableEq, Repr

structure Settings where
  apiUrl : String
  providerMap : ProviderMap
  pollSeconds : ℚ

/-- `DEFAULT_SETTINGS.runway.providerMap`. -/
def defaultProviderMap : ProviderMap :=
  ((((OrderedMap.empty.set "anthropic" (.target "claude")).set
    "opencode" (.target "opencode/opencode-go")).set
    "chatgpt" (.target "codex")).set
    "antigravity" (.target "agy")).set
    "minimax" (.target "mcode")

/-- One value of the map. -/
def sanitizeTargets : RawTargets → Option Targets
  | .target target => if Text.trim target ≠ "" then some (.target (Text.trim target)) else none
  | .list targets =>
    let list := (((targets.filterMap id).map Text.trim).filter (· ≠ "")).eraseDups
    if list ≠ [] then some (.list list) else none
  | .other => none

def sanitizeProviderMap : Option (List (String × RawTargets)) → ProviderMap
  | none => defaultProviderMap
  | some entries =>
    entries.foldl (fun out entry =>
      if Text.trim entry.1 = "" then out
      else
        match sanitizeTargets entry.2 with
        | none => out
        | some clean => out.set (Text.trim entry.1) clean) OrderedMap.empty

def safeNumber (value : Option ℚ) (min max fallback : ℚ) : ℚ :=
  match value with
  | some value => if min ≤ value ∧ value ≤ max then value else fallback
  | none => fallback

/-- The `runway` group of `getStoredSettings`. -/
def getStoredSettings (stored : Stored) : Settings where
  apiUrl := Text.trim stored.apiUrl
  providerMap := sanitizeProviderMap stored.providerMap
  pollSeconds := safeNumber stored.pollSeconds 0 3600 60

/-! ## The lookups -/

def targetsFromMap (map : ProviderMap) (providerId : String) : List String :=
  let list := ((map.lookup providerId).map Targets.toList).getD []
  (list.filter (Text.trim · ≠ "")).map Text.trim

/-- All targets of the map, as they stand there. -/
def mappedAgents (map : ProviderMap) : List String :=
  map.entries.rows.flatMap fun row => row.2.toList

/-- `model.split("/")[0]`. -/
def modelProvider (model : String) : String :=
  String.ofList (model.toList.takeWhile (· ≠ '/'))

def claimTargets (map : ProviderMap) (agent : String) (model : Option String) : List String :=
  if agent ≠ "opencode" then [agent]
  else
    match model.filter (· ≠ "") with
    | some model =>
      let provider := modelProvider model
      if provider = "" then [agent] else [agent, "opencode/" ++ provider]
    | none =>
      let named := (mappedAgents map).filter fun target => "opencode/".toList <+: target.toList
      agent :: (named.map Text.trim).eraseDups

/-! ## The readings -/

structure RunwayLimitCard where
  providerId : String
  pctUsed : Option ℚ
  usedValue : Option ℚ
  limitValue : Option ℚ
  isUnlimited : Bool
  resetAt : Option ℚ
  stale : Bool
  deriving DecidableEq, Repr

structure RunwayLimits where
  fetchedAt : ℚ
  cards : List RunwayLimitCard
  deriving DecidableEq, Repr

def isCardExhausted (card : RunwayLimitCard) : Bool :=
  if card.stale then false
  else if card.isUnlimited then false
  else
    match card.pctUsed, card.limitValue, card.usedValue with
    | some pctUsed, _, _ => 100 ≤ pctUsed
    | none, some limitValue, some usedValue => 0 < limitValue && limitValue ≤ usedValue
    | none, _, _ => false

def isCardWindowReset (card : RunwayLimitCard) (now : ℚ) : Bool := card.resetAt.any (· ≤ now)

/-! ## The quarantine -/

structure AgentQuarantine where
  reason : String
  resetAt : Option ℚ
  since : ℚ
  confirmedAt : ℚ
  deriving DecidableEq, Repr

/-- A check of a target, or of all targets that are held, and the ceiling in force. -/
structure Check where
  target : Option String
  now : ℚ
  ceiling : ℚ
  deriving DecidableEq, Repr

/-- The reading applied last: with which map and when, whether every poll since found the
integration configured, and the checks since. -/
structure Reading where
  limits : RunwayLimits
  providerMap : ProviderMap
  appliedAt : ℚ
  configured : Bool
  checks : List Check

structure State where
  stored : Stored
  /-- `getRunwayKey`; an error is a key that cannot be decrypted. -/
  runwayKey : Except Unit (Option String)
  quarantined : OrderedMap String AgentQuarantine := OrderedMap.empty
  lastPolledAt : Option ℚ := none
  staleCeiling : Option ℚ := none
  /-- The polls that wait for an answer, each with the agents held before it. -/
  fetching : List (List String) := []
  clock : ℚ := 0
  reading : Option Reading := none
  /-- The interval that the last poll read. -/
  polled : ℚ := 0

def MAX_STALE_QUARANTINE_MS : ℚ := 30 * 60000

def ceilingFor (pollSeconds : ℚ) : ℚ := max MAX_STALE_QUARANTINE_MS (pollSeconds * 2 * 1000)

structure PollResult where
  changed : Bool
  quarantinedAgents : List String
  deriving DecidableEq, Repr

/-- What the first loop of `applyRunwaySnapshot` keeps for an agent. -/
structure Exhausted where
  reason : String
  resetAt : Option ℚ
  deriving DecidableEq, Repr

/-- The later of two resets; no reset is later than any. -/
def laterReset (existing : Option Exhausted) (resetAt : Option ℚ) : Option ℚ :=
  match existing with
  | none => resetAt
  | some existing =>
    match existing.resetAt, resetAt with
    | some a, some b => some (max a b)
    | _, _ => none

def exhaust (providerId : String) (resetAt : Option ℚ) (exhaustedFor : OrderedMap String Exhausted)
    (agent : String) : OrderedMap String Exhausted :=
  exhaustedFor.set agent
    ⟨providerId ++ " quota exhausted", laterReset (exhaustedFor.lookup agent) resetAt⟩

def exhaustedFor (map : ProviderMap) (limits : RunwayLimits) (now : ℚ) :
    OrderedMap String Exhausted :=
  limits.cards.foldl (fun found card =>
    if isCardExhausted card && !isCardWindowReset card now then
      (targetsFromMap map card.providerId).foldl (exhaust card.providerId card.resetAt) found
    else found) OrderedMap.empty

/-- Quarantine an agent anew, or again. -/
def confirm (fetchedAt now : ℚ) (quarantined : OrderedMap String AgentQuarantine)
    (entry : String × Exhausted) : OrderedMap String AgentQuarantine :=
  quarantined.set entry.1
    { reason := entry.2.reason
      resetAt := entry.2.resetAt
      since := ((quarantined.lookup entry.1).map AgentQuarantine.since).getD now
      confirmedAt := fetchedAt }

namespace State

def settings (s : State) : Settings := getStoredSettings s.stored

def isRunwayConfigured (s : State) : Bool :=
  s.settings.apiUrl ≠ "" &&
    match s.runwayKey with
    | .ok key => key.isSome
    | .error _ => false

def agents (s : State) : List String := s.quarantined.entries.keys

def release (s : State) (agent : String) : State :=
  { s with quarantined := s.quarantined.erase agent }

def staleCeilingMs (s : State) : ℚ × State :=
  match s.staleCeiling with
  | some ceiling => (ceiling, s)
  | none =>
    let ceiling := ceilingFor s.settings.pollSeconds
    (ceiling, { s with staleCeiling := some ceiling })

def isStale (s : State) (entry : AgentQuarantine) (now : ℚ) : Bool × State :=
  if entry.resetAt ≠ none then (false, s)
  else
    let (ceiling, s) := s.staleCeilingMs
    (ceiling ≤ now - entry.confirmedAt, s)

def isAgentQuarantined (s : State) (agent : String) (now : ℚ) : Bool × State :=
  match s.quarantined.lookup agent with
  | none => (false, s)
  | some entry =>
    if entry.resetAt.any (· ≤ now) then (false, s.release agent)
    else
      let (stale, s) := s.isStale entry now
      if stale then (false, s.release agent) else (true, s)

/-- `agentQuarantineInfo` of each target until one is quarantined. -/
def quarantinedTarget (s : State) : List String → ℚ → Option (String × Option String) × State
  | [], _ => (none, s)
  | target :: targets, now =>
    match s.isAgentQuarantined target now with
    | (true, s) => (some (target, (s.quarantined.lookup target).map AgentQuarantine.reason), s)
    | (false, s) => s.quarantinedTarget targets now

def applyRunwaySnapshot (s : State) (limits : RunwayLimits) (now : ℚ) : State :=
  let found := exhaustedFor s.settings.providerMap limits now
  let confirmed := found.entries.rows.foldl (confirm limits.fetchedAt now) s.quarantined
  let exhausted := confirmed.restrict fun agent => (found.lookup agent).isSome
  { s with
    quarantined := exhausted.restrict fun agent => agent ∈ mappedAgents s.settings.providerMap }

/-- `isAgentQuarantined` of every agent that is held, and whether one is not any more. -/
def prune (s : State) (now : ℚ) : Bool × State :=
  s.agents.foldl (fun acc agent =>
    let (held, s) := acc.2.isAgentQuarantined agent now
    (acc.1 || !held, s)) (false, s)

/-- `pollRunwayQuota` up to its fetch; no result is a fetch under way. -/
def poll (s : State) (now : ℚ) : Option PollResult × State :=
  let pollSeconds := s.settings.pollSeconds
  let s := { s with staleCeiling := some (ceilingFor pollSeconds) }
  if !s.isRunwayConfigured then
    if s.quarantined.size > 0 then
      (some ⟨true, []⟩, { s with quarantined := OrderedMap.empty })
    else (some ⟨false, []⟩, s)
  else if pollSeconds ≤ 0 then
    let (released, s) := s.prune now
    (some ⟨released, s.agents⟩, s)
  else if s.lastPolledAt.any (now - · < pollSeconds * 1000) then (some ⟨false, s.agents⟩, s)
  else (none, { s with lastPolledAt := some now, fetching := s.fetching ++ [s.agents] })

/-- The rest of `pollRunwayQuota`; no limits is a fetch that failed. -/
def answer (s : State) (limits : Option RunwayLimits) (now : ℚ) : Option (PollResult × State) :=
  match s.fetching with
  | [] => none
  | before :: fetching =>
    let s := { s with fetching := fetching }
    let s := match limits with
      | none => s
      | some limits => s.applyRunwaySnapshot limits now
    let s := (s.prune now).2
    some (⟨before.length ≠ s.agents.length || s.agents.any (· ∉ before), s.agents⟩, s)

/-- A check is noted with the reading. -/
def noted (s : State) (target : Option String) (now : ℚ) : State :=
  { s with
    clock := now
    reading := s.reading.map fun r =>
      { r with checks := r.checks ++ [⟨target, now, ceilingFor s.polled⟩] } }

/-- The settings that a poll found are noted. -/
def polledAt (s : State) (settings : Settings) (configured : Bool) (now : ℚ) : State :=
  { s with
    clock := now
    polled := settings.pollSeconds
    reading := s.reading.map fun r => { r with configured := r.configured && configured } }

/-- A reading that was applied is noted. -/
def readAt (s : State) (limits : Option RunwayLimits) (now : ℚ) : State :=
  match limits with
  | none => s
  | some limits =>
    { s with reading := some ⟨limits, s.settings.providerMap, now, true, []⟩ }

end State

/-- What happens: the settings or the key change, a poll begins, a poll gets its answer, a target
is checked. -/
inductive Label
  | configure (stored : Stored) (runwayKey : Except Unit (Option String))
  | poll (now : ℚ)
  | answer (limits : Option RunwayLimits) (now : ℚ)
  | check (target : String) (now : ℚ)

/-- One step, at a time that is not before the last one. -/
def step (s : State) : Label → Option State
  | .configure stored runwayKey => some { s with stored := stored, runwayKey := runwayKey }
  | .poll now =>
    if s.clock ≤ now then
      let s' := (s.poll now).2.polledAt s.settings s.isRunwayConfigured now
      some (if s.isRunwayConfigured && s.settings.pollSeconds ≤ 0 then s'.noted none now else s')
    else none
  | .answer limits now =>
    if s.clock ≤ now then
      (s.answer limits now).map fun result => (result.2.readAt limits now).noted none now
    else none
  | .check target now =>
    if s.clock ≤ now then some ((s.isAgentQuarantined target now).2.noted (some target) now)
    else none

/-- A server that was just started. -/
def boot (stored : Stored) (runwayKey : Except Unit (Option String)) : State where
  stored := stored
  runwayKey := runwayKey

/-! ## What a reading says -/

namespace Reading

/-- The cards that hold the target: exhausted, not yet reset, of a provider mapped to it. -/
def cards (r : Reading) (target : String) : List RunwayLimitCard :=
  r.limits.cards.filter fun card =>
    isCardExhausted card && !isCardWindowReset card r.appliedAt &&
      target ∈ targetsFromMap r.providerMap card.providerId

/-- All cards have a reset and the latest is after `t`, or one has none and `t` is not yet the
ceiling after the fetch. -/
def Holds (r : Reading) (target : String) (ceiling t : ℚ) : Prop :=
  ((∀ card ∈ r.cards target, card.resetAt ≠ none) ∧
      ∃ card ∈ r.cards target, ∃ resetAt, card.resetAt = some resetAt ∧ t < resetAt) ∨
    (∃ card ∈ r.cards target, card.resetAt = none) ∧ t - r.limits.fetchedAt < ceiling

/-- No check of a target with a card without reset came as late as the ceiling then in force. -/
def Unexpired (r : Reading) (target : String) : Prop :=
  (∃ card ∈ r.cards target, card.resetAt = none) →
    ∀ check ∈ r.checks, (check.target = none ∨ check.target = some target) →
      check.now - r.limits.fetchedAt < check.ceiling

end Reading

/-- The last reading holds the target at time `t`, and the integration was configured since. -/
def HeldByReading (s : State) (target : String) (t : ℚ) : Prop :=
  ∃ r, s.reading = some r ∧ r.configured = true ∧ r.Holds target (ceilingFor s.polled) t

/-- Moreover no check since has released the target. -/
def Quarantined (s : State) (target : String) (t : ℚ) : Prop :=
  ∃ r, s.reading = some r ∧ r.configured = true ∧ r.Holds target (ceilingFor s.polled) t ∧
    r.Unexpired target

/-- A claim spends its agent; for `opencode` also the provider of its model, or without a model
every provider of `opencode` that the map names. -/
def Spends (map : ProviderMap) (agent : String) (model : Option String) (target : String) : Prop :=
  target = agent ∨ agent = "opencode" ∧
    match model.filter (· ≠ "") with
    | some model => modelProvider model ≠ "" ∧ target = "opencode/" ++ modelProvider model
    | none => "opencode/".toList <+: target.toList ∧
        ∃ providerId, target ∈ targetsFromMap map providerId

/-! ## The lookups agree -/

/-- Every target of the map is trimmed and not empty. -/
def Clean (map : ProviderMap) : Prop :=
  ∀ providerId targets, map.lookup providerId = some targets → ∀ target ∈ targets.toList,
    Text.trim target = target ∧ target ≠ ""

theorem clean_of_sanitizeTargets {raw : RawTargets} {clean : Targets}
    (h : sanitizeTargets raw = some clean) :
    ∀ target ∈ clean.toList, Text.trim target = target ∧ target ≠ "" := by
  cases raw with
  | target t =>
    rw [sanitizeTargets, Option.ite_none_right_eq_some] at h
    obtain ⟨hne, hclean⟩ := h
    cases hclean
    intro target htarget
    obtain rfl := List.mem_singleton.1 htarget
    exact ⟨Text.trim_trim t, hne⟩
  | list ts =>
    rw [sanitizeTargets, Option.ite_none_right_eq_some] at h
    obtain ⟨-, hclean⟩ := h
    cases hclean
    intro target htarget
    rw [Targets.toList, List.mem_eraseDups, List.mem_filter, decide_eq_true_eq] at htarget
    obtain ⟨hmem, hne⟩ := htarget
    obtain ⟨t, -, rfl⟩ := List.mem_map.1 hmem
    exact ⟨Text.trim_trim t, hne⟩
  | other => cases h

theorem Clean.set {map : ProviderMap} (h : Clean map) (providerId : String) {targets : Targets}
    (htargets : ∀ target ∈ targets.toList, Text.trim target = target ∧ target ≠ "") :
    Clean (map.set providerId targets) := by
  intro p ts hlookup
  rw [OrderedMap.lookup_set] at hlookup
  split at hlookup
  case isTrue =>
    cases hlookup
    exact htargets
  case isFalse => exact h p ts hlookup

theorem clean_empty : Clean OrderedMap.empty := fun _ _ h => by cases h

theorem clean_defaultProviderMap : Clean defaultProviderMap := by
  have hone : ∀ t : String, Text.trim t = t ∧ t ≠ "" →
      ∀ target ∈ (Targets.target t).toList, Text.trim target = target ∧ target ≠ "" := by
    intro t ht target htarget
    obtain rfl := List.mem_singleton.1 htarget
    exact ht
  apply Clean.set _ _ (hone _ (by decide +kernel))
  apply Clean.set _ _ (hone _ (by decide +kernel))
  apply Clean.set _ _ (hone _ (by decide +kernel))
  apply Clean.set _ _ (hone _ (by decide +kernel))
  exact clean_empty.set _ (hone _ (by decide +kernel))

theorem clean_sanitizeProviderMap (raw : Option (List (String × RawTargets))) :
    Clean (sanitizeProviderMap raw) := by
  cases raw with
  | none => exact clean_defaultProviderMap
  | some entries =>
    rw [sanitizeProviderMap]
    apply List.foldlRecOn entries
    · exact clean_empty
    · intro map hmap entry _
      split
      case isTrue => exact hmap
      case isFalse =>
        split
        case h_1 => exact hmap
        case h_2 clean hclean => exact hmap.set _ (clean_of_sanitizeTargets hclean)

theorem mem_targetsFromMap {map : ProviderMap} (h : Clean map) {providerId target : String} :
    target ∈ targetsFromMap map providerId ↔
      ∃ targets, map.lookup providerId = some targets ∧ target ∈ targets.toList := by
  rw [targetsFromMap]
  cases hlookup : map.lookup providerId with
  | none => simp
  | some targets =>
    have hclean := h providerId targets hlookup
    simp only [Option.map_some, Option.getD_some, List.mem_map, List.mem_filter,
      decide_eq_true_eq, Option.some.injEq, exists_eq_left']
    constructor
    · rintro ⟨t, ⟨ht, -⟩, rfl⟩
      rw [(hclean t ht).1]
      exact ht
    · intro ht
      refine ⟨target, ⟨ht, ?_⟩, (hclean target ht).1⟩
      rw [(hclean target ht).1]
      exact (hclean target ht).2

/-- The targets of the snapshot and those of the sweep are the same. -/
theorem mem_mappedAgents {map : ProviderMap} (h : Clean map) {target : String} :
    target ∈ mappedAgents map ↔ ∃ providerId, target ∈ targetsFromMap map providerId := by
  simp only [mappedAgents, List.mem_flatMap, mem_targetsFromMap h, OrderedMap.lookup_eq_some_iff,
    Prod.exists]

/-- **The targets of a claim** are those it spends. -/
theorem mem_claimTargets {map : ProviderMap} (h : Clean map) {agent target : String}
    {model : Option String} :
    target ∈ claimTargets map agent model ↔ Spends map agent model target := by
  rw [claimTargets, Spends]
  by_cases hagent : agent = "opencode"
  case neg => simp [hagent]
  rw [if_neg (not_not.2 hagent)]
  cases model.filter (· ≠ "") with
  | some model =>
    by_cases hprovider : modelProvider model = "" <;> simp [hagent, hprovider]
  | none =>
    simp only [List.mem_cons, List.mem_eraseDups, List.mem_map, List.mem_filter,
      decide_eq_true_eq, hagent, true_and]
    apply or_congr Iff.rfl
    constructor
    · rintro ⟨t, ⟨ht, hopencode⟩, rfl⟩
      obtain ⟨p, hp⟩ := (mem_mappedAgents h).1 ht
      obtain ⟨targets, hlookup, hmem⟩ := (mem_targetsFromMap h).1 hp
      rw [(h p targets hlookup t hmem).1]
      exact ⟨hopencode, p, hp⟩
    · rintro ⟨hopencode, p, hp⟩
      obtain ⟨targets, hlookup, hmem⟩ := (mem_targetsFromMap h).1 hp
      exact ⟨target, ⟨(mem_mappedAgents h).2 ⟨p, hp⟩, hopencode⟩,
        (h p targets hlookup target hmem).1⟩

/-! ## The agents of a snapshot -/

/-- The reset to wait for among some cards: none of one without reset, else the latest. -/
def Latest (cards : RunwayLimitCard → Prop) : Option (Option ℚ) → Prop
  | none => ∀ card, ¬ cards card
  | some none => ∃ card, cards card ∧ card.resetAt = none
  | some (some reset) => (∃ card, cards card ∧ card.resetAt = some reset) ∧
      ∀ card, cards card → ∃ r ≤ reset, card.resetAt = some r

theorem Latest.congr {cards cards' : RunwayLimitCard → Prop} {reset : Option (Option ℚ)}
    (h : Latest cards reset) (hcards : ∀ card, cards card ↔ cards' card) :
    Latest cards' reset := by
  obtain rfl : cards = cards' := funext fun card => propext (hcards card)
  exact h

/-- **One card more.** -/
theorem Latest.later {cards : RunwayLimitCard → Prop} {existing : Option Exhausted}
    (h : Latest cards (existing.map Exhausted.resetAt)) (card : RunwayLimitCard) :
    Latest (fun c => cards c ∨ c = card) (some (laterReset existing card.resetAt)) := by
  cases existing with
  | none =>
    rw [laterReset]
    cases hreset : card.resetAt with
    | none => exact ⟨card, Or.inr rfl, hreset⟩
    | some reset =>
      refine ⟨⟨card, Or.inr rfl, hreset⟩, ?_⟩
      rintro c (hc | rfl)
      · exact absurd hc (h c)
      · exact ⟨reset, le_refl reset, hreset⟩
  | some existing =>
    obtain ⟨reason, existing⟩ := existing
    cases existing with
    | none =>
      obtain ⟨c, hc, hreset⟩ := h
      exact ⟨c, Or.inl hc, hreset⟩
    | some a =>
      cases hreset : card.resetAt with
      | none => exact ⟨card, Or.inr rfl, hreset⟩
      | some b =>
        obtain ⟨⟨first, hfirst, hfirstReset⟩, hall⟩ := h
        show Latest _ (some (some (max a b)))
        refine ⟨?_, ?_⟩
        · rcases le_total a b with hab | hab
          · exact ⟨card, Or.inr rfl, by rw [hreset, max_eq_right hab]⟩
          · exact ⟨first, Or.inl hfirst, by rw [hfirstReset, max_eq_left hab]⟩
        · rintro c (hc | rfl)
          · obtain ⟨r, hr, hcreset⟩ := hall c hc
            exact ⟨r, hr.trans (le_max_left a b), hcreset⟩
          · exact ⟨b, le_max_right a b, hreset⟩

/-- What the first loop knows of an agent. -/
def Exhausting (found : OrderedMap String Exhausted) (cards : String → RunwayLimitCard → Prop) :
    Prop :=
  ∀ agent, Latest (cards agent) ((found.lookup agent).map Exhausted.resetAt)

theorem Exhausting.exhaust {found : OrderedMap String Exhausted}
    {cards : String → RunwayLimitCard → Prop} (h : Exhausting found cards) (card : RunwayLimitCard)
    (agent : String) :
    Exhausting (Runway.exhaust card.providerId card.resetAt found agent)
      fun a c => cards a c ∨ a = agent ∧ c = card := by
  intro a
  rw [Runway.exhaust, OrderedMap.lookup_set]
  by_cases ha : a = agent
  · subst ha
    rw [if_pos rfl]
    exact ((h a).later card).congr fun c => by simp
  · rw [if_neg ha]
    exact (h a).congr fun c => by simp [ha]

/-- The targets of one card. -/
theorem Exhausting.targets {found : OrderedMap String Exhausted}
    {cards : String → RunwayLimitCard → Prop} (h : Exhausting found cards) (card : RunwayLimitCard)
    (targets : List String) :
    Exhausting (targets.foldl (Runway.exhaust card.providerId card.resetAt) found)
      fun a c => cards a c ∨ a ∈ targets ∧ c = card := by
  induction targets generalizing found cards with
  | nil => exact fun a => (h a).congr fun c => by simp
  | cons agent targets ih =>
    intro a
    refine (ih (h.exhaust card agent) a).congr fun c => ?_
    dsimp only
    rw [List.mem_cons, or_and_right, or_assoc]

/-- A card of a snapshot holds the agent. -/
def Holding (map : ProviderMap) (limits : RunwayLimits) (now : ℚ) (agent : String)
    (card : RunwayLimitCard) : Prop :=
  card ∈ limits.cards ∧ (isCardExhausted card && !isCardWindowReset card now) = true ∧
    agent ∈ targetsFromMap map card.providerId

/-- **The agents of a snapshot** and the reset each waits for. -/
theorem exhaustedFor_spec (map : ProviderMap) (limits : RunwayLimits) (now : ℚ) :
    Exhausting (exhaustedFor map limits now) (Holding map limits now) := by
  have hloop : ∀ (cards : List RunwayLimitCard) (found : OrderedMap String Exhausted)
      (seen : String → RunwayLimitCard → Prop), Exhausting found seen →
      Exhausting (cards.foldl (fun found card =>
        if isCardExhausted card && !isCardWindowReset card now then
          (targetsFromMap map card.providerId).foldl (exhaust card.providerId card.resetAt) found
        else found) found) fun agent card => seen agent card ∨
          card ∈ cards ∧ (isCardExhausted card && !isCardWindowReset card now) = true ∧
            agent ∈ targetsFromMap map card.providerId := by
    intro cards
    induction cards with
    | nil =>
      intro found seen h a
      exact (h a).congr fun c => by simp
    | cons card cards ih =>
      intro found seen h a
      rw [List.foldl_cons]
      by_cases hcard : (isCardExhausted card && !isCardWindowReset card now) = true
      · rw [if_pos hcard]
        refine (ih _ _ (h.targets card _) a).congr fun c => ?_
        dsimp only
        rw [List.mem_cons, or_and_right, or_assoc]
        apply or_congr Iff.rfl
        apply or_congr _ Iff.rfl
        constructor
        · rintro ⟨ha, rfl⟩
          exact ⟨rfl, hcard, ha⟩
        · rintro ⟨rfl, -, ha⟩
          exact ⟨ha, rfl⟩
      · rw [if_neg hcard]
        refine (ih _ _ h a).congr fun c => ?_
        apply or_congr Iff.rfl
        rw [List.mem_cons, or_and_right]
        constructor
        · exact Or.inr
        · rintro (⟨rfl, hc, -⟩ | hrest)
          · exact absurd hc hcard
          · exact hrest
  intro agent
  refine (hloop limits.cards OrderedMap.empty (fun _ _ => False) (fun _ _ hc => hc) agent).congr
    fun card => iff_of_eq (false_or _)

/-- Agents that are not confirmed keep what they have. -/
theorem lookup_confirm_of_not_mem {fetchedAt now : ℚ} {rows : List (String × Exhausted)}
    {held : OrderedMap String AgentQuarantine} {agent : String}
    (h : agent ∉ rows.map Prod.fst) :
    (rows.foldl (confirm fetchedAt now) held).lookup agent = held.lookup agent := by
  induction rows generalizing held with
  | nil => rfl
  | cons row rows ih =>
    rw [List.map_cons, List.mem_cons, not_or] at h
    rw [List.foldl_cons, ih h.2, confirm, OrderedMap.lookup_set_of_ne _ _ h.1]

/-- **The second loop**: an agent of the snapshot is confirmed at its fetch. -/
theorem lookup_confirm (fetchedAt now : ℚ) {rows : List (String × Exhausted)}
    (hnodup : (rows.map Prod.fst).Nodup) (held : OrderedMap String AgentQuarantine)
    {agent : String} {info : Exhausted} (h : (agent, info) ∈ rows) :
    ∃ entry, (rows.foldl (confirm fetchedAt now) held).lookup agent = some entry ∧
      entry.resetAt = info.resetAt ∧ entry.confirmedAt = fetchedAt := by
  induction rows generalizing held with
  | nil => exact absurd h List.not_mem_nil
  | cons row rows ih =>
    rw [List.map_cons, List.nodup_cons] at hnodup
    rw [List.foldl_cons]
    rcases List.mem_cons.1 h with rfl | hmem
    · rw [lookup_confirm_of_not_mem hnodup.1, confirm, OrderedMap.lookup_set_self]
      exact ⟨_, rfl, rfl, rfl⟩
    · exact ih hnodup.2 _ hmem

/-- An agent with a reset to wait for has a card that holds it. -/
theorem Latest.exists {cards : RunwayLimitCard → Prop} {reset : Option ℚ}
    (h : Latest cards (some reset)) : ∃ card, cards card := by
  cases reset with
  | none =>
    obtain ⟨card, hcard, -⟩ := h
    exact ⟨card, hcard⟩
  | some reset =>
    obtain ⟨⟨card, hcard, -⟩, -⟩ := h
    exact ⟨card, hcard⟩

/-- **What is held after a snapshot**: the agents its cards hold, confirmed at its fetch. -/
theorem lookup_applyRunwaySnapshot (s : State) (limits : RunwayLimits) (now : ℚ) (agent : String) :
    let held := (s.applyRunwaySnapshot limits now).quarantined
    Latest (Holding s.settings.providerMap limits now agent)
        ((held.lookup agent).map AgentQuarantine.resetAt) ∧
      ∀ entry, held.lookup agent = some entry → entry.confirmedAt = limits.fetchedAt := by
  have hlatest := exhaustedFor_spec s.settings.providerMap limits now agent
  simp only [State.applyRunwaySnapshot, OrderedMap.lookup_restrict, decide_eq_true_eq]
  generalize exhaustedFor s.settings.providerMap limits now = found at *
  cases hfound : found.lookup agent with
  | none =>
    rw [hfound] at hlatest
    simp only [Option.isSome_none, Bool.false_eq_true, if_false, ite_self, Option.map_none]
    exact ⟨hlatest, fun _ h => by cases h⟩
  | some info =>
    rw [hfound, Option.map_some] at hlatest
    obtain ⟨card, -, -, htarget⟩ := hlatest.exists
    have hmapped : agent ∈ mappedAgents s.settings.providerMap :=
      (mem_mappedAgents (clean_sanitizeProviderMap _)).2 ⟨card.providerId, htarget⟩
    obtain ⟨entry, hentry, hreset, hconfirmed⟩ := lookup_confirm limits.fetchedAt now
      found.entries.nodup s.quarantined (OrderedMap.lookup_eq_some_iff.1 hfound)
    rw [if_pos hmapped, if_pos Option.isSome_some, hentry, Option.map_some, hreset]
    refine ⟨hlatest, fun e he => ?_⟩
    cases he
    exact hconfirmed

/-! ## Checks -/

/-- An entry that a check keeps. -/
def live (ceiling now : ℚ) (entry : AgentQuarantine) : Bool :=
  match entry.resetAt with
  | some resetAt => now < resetAt
  | none => now - entry.confirmedAt < ceiling

/-- What is held after the agents that meet `P` were checked. -/
def Rechecked (ceiling now : ℚ) (P : String → Prop)
    (held held' : OrderedMap String AgentQuarantine) : Prop :=
  ∀ agent, (P agent → held'.lookup agent = (held.lookup agent).filter (live ceiling now)) ∧
    (¬ P agent → held'.lookup agent = held.lookup agent)

theorem Rechecked.congr {ceiling now : ℚ} {P Q : String → Prop}
    {held held' : OrderedMap String AgentQuarantine} (h : Rechecked ceiling now P held held')
    (hPQ : ∀ x, P x ↔ Q x) : Rechecked ceiling now Q held held' := by
  obtain rfl : P = Q := funext fun x => propext (hPQ x)
  exact h

/-- Nothing is held, nothing changes. -/
theorem Rechecked.of_none (ceiling now : ℚ) (P : String → Prop)
    {held : OrderedMap String AgentQuarantine} (h : ∀ x, held.lookup x = none) :
    Rechecked ceiling now P held held :=
  fun x => ⟨fun _ => by rw [h x]; rfl, fun _ => rfl⟩

theorem Rechecked.trans {ceiling now : ℚ} {P Q : String → Prop}
    {a b c : OrderedMap String AgentQuarantine} (hab : Rechecked ceiling now P a b)
    (hbc : Rechecked ceiling now Q b c) : Rechecked ceiling now (fun x => P x ∨ Q x) a c := by
  intro x
  by_cases hP : P x
  · refine ⟨fun _ => ?_, fun h => absurd (Or.inl hP) h⟩
    by_cases hQ : Q x
    · rw [(hbc x).1 hQ, (hab x).1 hP, Option.filter_filter]
      simp
    · rw [(hbc x).2 hQ, (hab x).1 hP]
  · by_cases hQ : Q x
    · exact ⟨fun _ => by rw [(hbc x).1 hQ, (hab x).2 hP], fun h => absurd (Or.inr hQ) h⟩
    · exact ⟨fun h => absurd h (not_or.2 ⟨hP, hQ⟩), fun _ => by rw [(hbc x).2 hQ, (hab x).2 hP]⟩

/-- A check of an agent that is held, with the ceiling computed. -/
theorem isAgentQuarantined_of_some {s : State} {ceiling : ℚ} (hc : s.staleCeiling = some ceiling)
    {agent : String} {entry : AgentQuarantine} (h : s.quarantined.lookup agent = some entry)
    (now : ℚ) :
    s.isAgentQuarantined agent now =
      if live ceiling now entry then (true, s) else (false, s.release agent) := by
  rw [State.isAgentQuarantined, h, live]
  dsimp only
  rw [State.isStale, State.staleCeilingMs, hc]
  cases entry.resetAt with
  | some resetAt =>
    by_cases hnow : resetAt ≤ now
    · simp [hnow, not_lt.2 hnow]
    · simp [hnow, not_le.1 hnow]
  | none =>
    by_cases hnow : ceiling ≤ now - entry.confirmedAt
    · simp [hnow, not_lt.2 hnow]
    · simp [hnow, not_le.1 hnow]

/-- **One check.** -/
theorem isAgentQuarantined_spec {s : State} {ceiling : ℚ} (hc : s.staleCeiling = some ceiling)
    (agent : String) (now : ℚ) :
    ∃ held, s.isAgentQuarantined agent now =
        ((s.quarantined.lookup agent).any (live ceiling now), { s with quarantined := held }) ∧
      Rechecked ceiling now (· = agent) s.quarantined held := by
  cases hlookup : s.quarantined.lookup agent with
  | none =>
    refine ⟨s.quarantined, ?_, fun x => ⟨?_, fun _ => rfl⟩⟩
    · rw [State.isAgentQuarantined, hlookup]
      rfl
    · rintro rfl
      rw [hlookup]
      rfl
  | some entry =>
    rw [isAgentQuarantined_of_some hc hlookup, Option.any_some]
    cases hlive : live ceiling now entry with
    | true =>
      refine ⟨s.quarantined, by rw [if_pos rfl], fun x => ⟨?_, fun _ => rfl⟩⟩
      rintro rfl
      rw [hlookup, Option.filter_some_pos hlive]
    | false =>
      refine ⟨s.quarantined.erase agent, by rw [if_neg Bool.false_ne_true]; rfl, fun x => ?_⟩
      constructor
      · rintro rfl
        rw [OrderedMap.lookup_erase, if_pos rfl, hlookup, Option.filter_some_neg hlive]
      · intro hx
        rw [OrderedMap.lookup_erase, if_neg hx]

/-- **The sweep** checks every agent. -/
theorem prune_spec {s : State} {ceiling : ℚ} (hc : s.staleCeiling = some ceiling) (now : ℚ) :
    ∃ held, (s.prune now).2 = { s with quarantined := held } ∧
      Rechecked ceiling now (fun _ => True) s.quarantined held := by
  have hloop : ∀ (agents : List String) (released : Bool) (s : State),
      s.staleCeiling = some ceiling →
      ∃ held, (agents.foldl (fun acc agent =>
          let (held, s) := acc.2.isAgentQuarantined agent now
          (acc.1 || !held, s)) (released, s)).2 = { s with quarantined := held } ∧
        Rechecked ceiling now (· ∈ agents) s.quarantined held := by
    intro agents
    induction agents with
    | nil =>
      intro released s _
      exact ⟨s.quarantined, rfl, fun x => ⟨fun h => absurd h List.not_mem_nil, fun _ => rfl⟩⟩
    | cons agent agents ih =>
      intro released s hc
      obtain ⟨held, hcheck, hheld⟩ := isAgentQuarantined_spec hc agent now
      rw [List.foldl_cons, hcheck]
      obtain ⟨held', hrest, hheld'⟩ := ih _ { s with quarantined := held } hc
      refine ⟨held', hrest, ?_⟩
      have := hheld.trans hheld'
      simpa only [List.mem_cons] using this
  obtain ⟨held, hprune, hheld⟩ := hloop s.agents false s hc
  refine ⟨held, hprune, fun x => ⟨fun _ => ?_, fun h => absurd trivial h⟩⟩
  by_cases hx : x ∈ s.agents
  · exact (hheld x).1 hx
  · rw [(hheld x).2 hx]
    have hnone : s.quarantined.lookup x = none := by
      rw [← Option.not_isSome_iff_eq_none, OrderedMap.lookup_isSome_iff]
      exact hx
    rw [hnone]
    rfl

/-- **A claim** is refused when one of its targets would be kept by a check. -/
theorem quarantinedTarget_spec {s : State} {ceiling : ℚ} (hc : s.staleCeiling = some ceiling)
    (targets : List String) (now : ℚ) :
    (s.quarantinedTarget targets now).1.isSome ↔
      ∃ target ∈ targets, (s.quarantined.lookup target).any (live ceiling now) = true := by
  induction targets generalizing s with
  | nil => simp [State.quarantinedTarget]
  | cons target targets ih =>
    obtain ⟨held, hcheck, hheld⟩ := isAgentQuarantined_spec hc target now
    rw [State.quarantinedTarget, hcheck]
    cases hlive : (s.quarantined.lookup target).any (live ceiling now) with
    | true =>
      simp only [Option.isSome_some, true_iff]
      exact ⟨target, List.mem_cons_self, hlive⟩
    | false =>
      rw [ih (s := { s with quarantined := held }) hc]
      simp only [List.mem_cons, exists_eq_or_imp, hlive, Bool.false_eq_true, false_or]
      refine exists_congr fun t => and_congr_right fun _ => ?_
      by_cases ht : t = target
      · rw [(hheld t).1 ht]
        cases s.quarantined.lookup t with
        | none => rfl
        | some entry => cases hentry : live ceiling now entry <;> simp [Option.filter, hentry]
      · rw [(hheld t).2 ht]

/-! ## The invariant -/

/-- What is held of a target accounts for the reading: an entry waits for the reset of the cards
and was not found expired; without an entry the reading holds the target at no time to come. -/
def Accounts (r : Reading) (clock : ℚ) (target : String) : Option AgentQuarantine → Prop
  | some entry => entry.confirmedAt = r.limits.fetchedAt ∧
      Latest (· ∈ r.cards target) (some entry.resetAt) ∧ r.Unexpired target
  | none => ∀ ceiling t, clock ≤ t → r.Holds target ceiling t → ¬ r.Unexpired target

/-- Nothing is held without a reading, or once the integration was found unconfigured. -/
def Held (reading : Option Reading) (clock : ℚ) (held : OrderedMap String AgentQuarantine) : Prop :=
  match reading with
  | none => ∀ target, held.lookup target = none
  | some r =>
    if r.configured then ∀ target, Accounts r clock target (held.lookup target)
    else ∀ target, held.lookup target = none

structure Inv (s : State) : Prop where
  /-- The ceiling is that of the interval polled last; before any poll nothing is held. -/
  ceiling : s.staleCeiling = some (ceilingFor s.polled) ∨
    s.fetching = [] ∧ s.reading = none
  held : Held s.reading s.clock s.quarantined

/-- A target with an entry is held by its reading exactly as long as a check keeps the entry. -/
theorem holds_iff_live {r : Reading} {target : String} {entry : AgentQuarantine}
    (hconfirmed : entry.confirmedAt = r.limits.fetchedAt)
    (hlatest : Latest (· ∈ r.cards target) (some entry.resetAt)) (ceiling t : ℚ) :
    r.Holds target ceiling t ↔ live ceiling t entry = true := by
  rw [live]
  cases hreset : entry.resetAt with
  | some resetAt =>
    rw [hreset] at hlatest
    obtain ⟨⟨last, hlast, hlastReset⟩, hall⟩ := hlatest
    rw [decide_eq_true_eq]
    constructor
    · rintro (⟨-, card, hcard, r', hr', hlt⟩ | ⟨⟨card, hcard, hnone⟩, -⟩)
      · obtain ⟨r'', hle, hr''⟩ := hall card hcard
        cases hr'.symm.trans hr''
        exact hlt.trans_le hle
      · obtain ⟨r', -, hr'⟩ := hall card hcard
        cases hnone.symm.trans hr'
    · intro hlt
      refine Or.inl ⟨fun card hcard hnone => ?_, last, hlast, resetAt, hlastReset, hlt⟩
      obtain ⟨r', -, hr'⟩ := hall card hcard
      cases hnone.symm.trans hr'
  | none =>
    rw [hreset] at hlatest
    rw [decide_eq_true_eq, hconfirmed]
    constructor
    · rintro (⟨hall, -⟩ | ⟨-, hlt⟩)
      · obtain ⟨card, hcard, hnone⟩ := hlatest
        exact absurd hnone (hall card hcard)
      · exact hlt
    · exact fun hlt => Or.inr ⟨hlatest, hlt⟩

theorem Accounts.mono {r : Reading} {clock now : ℚ} {target : String}
    {entry : Option AgentQuarantine} (h : Accounts r clock target entry) (hle : clock ≤ now) :
    Accounts r now target entry := by
  cases entry with
  | some entry => exact h
  | none => exact fun ceiling t ht => h ceiling t (hle.trans ht)

theorem Held.mono {reading : Option Reading} {clock now : ℚ}
    {held : OrderedMap String AgentQuarantine} (h : Held reading clock held) (hle : clock ≤ now) :
    Held reading now held := by
  cases reading with
  | none => exact h
  | some r =>
    rw [Held] at h ⊢
    split
    case isTrue hcfg =>
      rw [if_pos hcfg] at h
      exact fun target => (h target).mono hle
    case isFalse hcfg =>
      rw [if_neg hcfg] at h
      exact h

/-- The reading with one more check. -/
def Reading.note (r : Reading) (check : Check) : Reading := { r with checks := r.checks ++ [check] }

theorem Reading.unexpired_note {r : Reading} {check : Check} {target : String} :
    (r.note check).Unexpired target ↔ r.Unexpired target ∧
      ((∃ card ∈ r.cards target, card.resetAt = none) →
        (check.target = none ∨ check.target = some target) →
          check.now - r.limits.fetchedAt < check.ceiling) := by
  constructor
  · intro h
    exact ⟨fun hcard c hc => h hcard c (List.mem_append_left _ hc),
      fun hcard => h hcard check (List.mem_append_right _ (List.mem_singleton.2 rfl))⟩
  · rintro ⟨h, hcheck⟩ hcard c hc
    rcases List.mem_append.1 hc with hc | hc
    · exact h hcard c hc
    · cases List.mem_singleton.1 hc
      exact hcheck hcard

/-- A check of other targets. -/
theorem Accounts.note_of_not {r : Reading} {now : ℚ} {target : String}
    {entry : Option AgentQuarantine} (h : Accounts r now target entry) {check : Check}
    (hcheck : ¬ (check.target = none ∨ check.target = some target)) :
    Accounts (r.note check) now target entry := by
  cases entry with
  | some entry =>
    exact ⟨h.1, h.2.1, Reading.unexpired_note.2 ⟨h.2.2, fun _ hc => absurd hc hcheck⟩⟩
  | none =>
    exact fun ceiling t ht hholds hun =>
      h ceiling t ht hholds (Reading.unexpired_note.1 hun).1

/-- **A check of the target** keeps its entry or finds it expired. -/
theorem Accounts.note {r : Reading} {target : String} {entry : Option AgentQuarantine}
    {check : Check} (h : Accounts r check.now target entry)
    (hcheck : check.target = none ∨ check.target = some target) :
    Accounts (r.note check) check.now target (entry.filter (live check.ceiling check.now)) := by
  cases entry with
  | none =>
    exact fun ceiling t ht hholds hun =>
      h ceiling t ht hholds (Reading.unexpired_note.1 hun).1
  | some entry =>
    obtain ⟨hconfirmed, hlatest, hun⟩ := h
    cases hlive : live check.ceiling check.now entry with
    | true =>
      rw [Option.filter_some_pos hlive]
      refine ⟨hconfirmed, hlatest, Reading.unexpired_note.2 ⟨hun, fun hcard _ => ?_⟩⟩
      rcases (holds_iff_live hconfirmed hlatest check.ceiling check.now).2 hlive with
        ⟨hall, -⟩ | ⟨-, hlt⟩
      · obtain ⟨card, hcard, hnone⟩ := hcard
        exact absurd hnone (hall card hcard)
      · exact hlt
    | false =>
      rw [Option.filter_some_neg hlive]
      intro ceiling t ht hholds hunNote
      have hcheckLive := (Reading.unexpired_note.1 hunNote).2
      have hheld := (holds_iff_live hconfirmed hlatest ceiling t).1 hholds
      rw [live] at hheld hlive
      cases hreset : entry.resetAt with
      | some resetAt =>
        rw [hreset] at hheld hlive
        exact absurd (ht.trans_lt (of_decide_eq_true hheld)) (of_decide_eq_false hlive)
      | none =>
        rw [hreset] at hheld hlive hlatest
        have hlt := hcheckLive hlatest hcheck
        rw [← hconfirmed] at hlt
        exact absurd hlt (of_decide_eq_false hlive)

/-- **Checks** keep the account. -/
theorem Held.note {reading : Option Reading} {clock : ℚ}
    {held held' : OrderedMap String AgentQuarantine} (h : Held reading clock held) (check : Check)
    (hle : clock ≤ check.now) (hchecked : Rechecked check.ceiling check.now
      (fun target => check.target = none ∨ check.target = some target) held held') :
    Held (reading.map fun r => r.note check) check.now held' := by
  have hnone : (∀ target, held.lookup target = none) → ∀ target, held'.lookup target = none := by
    intro hall target
    by_cases ht : check.target = none ∨ check.target = some target
    · rw [(hchecked target).1 ht, hall target]
      rfl
    · rw [(hchecked target).2 ht, hall target]
  cases reading with
  | none => exact hnone h
  | some r =>
    rw [Option.map_some]
    rw [Held] at h ⊢
    by_cases hcfg : r.configured = true
    · rw [if_pos hcfg] at h
      rw [if_pos (show (r.note check).configured = true from hcfg)]
      intro target
      by_cases ht : check.target = none ∨ check.target = some target
      · rw [(hchecked target).1 ht]
        exact ((h target).mono hle).note ht
      · rw [(hchecked target).2 ht]
        exact ((h target).mono hle).note_of_not ht
    · rw [if_neg hcfg] at h
      rw [if_neg (show ¬ (r.note check).configured = true from hcfg)]
      exact hnone h

/-! ## The steps -/

namespace Inv

variable {s s' : State}

/-- Before the first poll nothing is held. -/
theorem lookup_none (h : Inv s) (hr : s.reading = none) (target : String) :
    s.quarantined.lookup target = none := by
  have hheld := h.held
  rw [hr] at hheld
  exact hheld target

theorem isAgentQuarantined (h : Inv s) (target : String) (now : ℚ) :
    ∃ held, s.isAgentQuarantined target now =
        ((s.quarantined.lookup target).any (live (ceilingFor s.polled) now),
          { s with quarantined := held }) ∧
      Rechecked (ceilingFor s.polled) now (· = target) s.quarantined held := by
  rcases h.ceiling with hc | ⟨-, hr⟩
  · exact isAgentQuarantined_spec hc target now
  · refine ⟨s.quarantined, ?_, Rechecked.of_none _ _ _ (h.lookup_none hr)⟩
    rw [State.isAgentQuarantined, h.lookup_none hr]
    rfl

theorem quarantinedTarget (h : Inv s) (targets : List String) (now : ℚ) :
    (s.quarantinedTarget targets now).1.isSome ↔ ∃ target ∈ targets,
      (s.quarantined.lookup target).any (live (ceilingFor s.polled) now) = true := by
  rcases h.ceiling with hc | ⟨-, hr⟩
  · exact quarantinedTarget_spec hc targets now
  · have hnone := h.lookup_none hr
    simp only [hnone, Option.any_none, Bool.false_eq_true, and_false, exists_false, iff_false]
    induction targets with
    | nil => simp [State.quarantinedTarget]
    | cons target targets ih =>
      rw [State.quarantinedTarget, State.isAgentQuarantined, hnone]
      exact ih

/-- A state whose agents were checked, with the check noted. -/
theorem noted (h : Inv s) {now : ℚ} (hle : s.clock ≤ now) {target : Option String}
    {held : OrderedMap String AgentQuarantine}
    (hchecked : Rechecked (ceilingFor s.polled) now (fun x => target = none ∨ target = some x)
      s.quarantined held) : Inv (({ s with quarantined := held } : State).noted target now) where
  ceiling := by
    rcases h.ceiling with hc | ⟨hf, hr⟩
    · exact Or.inl hc
    · exact Or.inr ⟨hf, by rw [State.noted, hr, Option.map_none]⟩
  held := h.held.note ⟨target, now, ceilingFor s.polled⟩ hle hchecked

/-- A sweep, with the check noted. -/
theorem noted_prune (h : Inv s) (hc : s.staleCeiling = some (ceilingFor s.polled)) {now : ℚ}
    (hle : s.clock ≤ now) : Inv ((s.prune now).2.noted none now) := by
  obtain ⟨held, hprune, hchecked⟩ := prune_spec hc now
  rw [hprune]
  exact h.noted hle (hchecked.congr fun x => by simp)

theorem check (h : Inv s) {target : String} {now : ℚ} (hs : step s (.check target now) = some s') :
    Inv s' := by
  rw [step, Option.ite_none_right_eq_some] at hs
  obtain ⟨hle, hs⟩ := hs
  obtain ⟨held, hcheck, hchecked⟩ := h.isAgentQuarantined target now
  rw [hcheck] at hs
  obtain rfl := Option.some.inj hs
  exact h.noted hle (hchecked.congr fun x => by simp [eq_comm])

/-- A poll that found the integration configured. -/
theorem polledAt (h : Inv s) {now : ℚ} (hle : s.clock ≤ now) (lastPolledAt : Option ℚ)
    (fetching : List (List String)) :
    Inv (({ s with
      staleCeiling := some (ceilingFor s.settings.pollSeconds)
      lastPolledAt := lastPolledAt
      fetching := fetching } : State).polledAt s.settings true now) where
  ceiling := Or.inl rfl
  held := by
    have hheld := h.held.mono hle
    rw [State.polledAt]
    cases hr : s.reading with
    | none =>
      rw [hr] at hheld
      exact hheld
    | some r =>
      rw [hr] at hheld
      simpa only [Option.map_some, Bool.and_true] using hheld

/-- A poll that found it unconfigured. -/
theorem unconfigured {settings : Settings} {now : ℚ}
    (hnone : ∀ target, s.quarantined.lookup target = none)
    (hc : s.staleCeiling = some (ceilingFor settings.pollSeconds)) :
    Inv (s.polledAt settings false now) where
  ceiling := Or.inl hc
  held := by
    rw [State.polledAt]
    cases s.reading with
    | none => exact hnone
    | some r =>
      simp only [Option.map_some, Bool.and_false, Held, Bool.false_eq_true, if_false]
      exact hnone

theorem poll (h : Inv s) {now : ℚ} (hs : step s (.poll now) = some s') : Inv s' := by
  rw [step, Option.ite_none_right_eq_some] at hs
  obtain ⟨hle, hs⟩ := hs
  obtain rfl := Option.some.inj hs
  have hconfigured : ({ s with
    staleCeiling := some (ceilingFor s.settings.pollSeconds) } : State).isRunwayConfigured =
      s.isRunwayConfigured := rfl
  rw [State.poll]
  dsimp only
  rw [hconfigured]
  cases hcfg : s.isRunwayConfigured with
  | false =>
    rw [Bool.false_and, if_neg Bool.false_ne_true, Bool.not_false, if_pos rfl]
    split
    case isTrue => exact unconfigured (fun target => rfl) rfl
    case isFalse hsize =>
      refine unconfigured (fun target => ?_) rfl
      rw [← Option.not_isSome_iff_eq_none, OrderedMap.lookup_isSome_iff]
      intro hmem
      obtain ⟨entry, hentry, -⟩ := List.mem_map.1 hmem
      exact hsize (List.length_pos_of_mem hentry)
  | true =>
    rw [Bool.true_and, Bool.not_true, if_neg Bool.false_ne_true]
    have hbase := h.polledAt hle s.lastPolledAt s.fetching
    by_cases hoff : s.settings.pollSeconds ≤ 0
    · rw [if_pos hoff, if_pos (decide_eq_true hoff)]
      obtain ⟨held, hprune, hchecked⟩ := prune_spec (s := { s with
        staleCeiling := some (ceilingFor s.settings.pollSeconds) }) rfl now
      rw [hprune]
      exact hbase.noted (le_refl now) (hchecked.congr fun x => by simp)
    · rw [if_neg hoff, if_neg (by simpa using hoff)]
      split
      case isTrue => exact hbase
      case isFalse => exact h.polledAt hle (some now) _

/-- A reading that is applied. -/
theorem readAt (h : Inv s) (hc : s.staleCeiling = some (ceilingFor s.polled)) (now : ℚ)
    (limits : Option RunwayLimits) :
    Inv ((match limits with
      | none => s
      | some limits => s.applyRunwaySnapshot limits now).readAt limits now) := by
  cases limits with
  | none => exact h
  | some limits =>
    refine ⟨Or.inl hc, ?_⟩
    show Held (some _) _ _
    rw [Held, if_pos rfl]
    intro target
    obtain ⟨hlatest, hconfirmed⟩ := lookup_applyRunwaySnapshot s limits now target
    have hcards : ∀ card, Holding s.settings.providerMap limits now target card ↔
        card ∈ Reading.cards ⟨limits, s.settings.providerMap, now, true, []⟩ target := by
      intro card
      rw [Holding, Reading.cards, List.mem_filter]
      simp [and_assoc]
    have hlatest := hlatest.congr hcards
    show Accounts _ _ _ ((s.applyRunwaySnapshot limits now).quarantined.lookup target)
    cases hentry : (s.applyRunwaySnapshot limits now).quarantined.lookup target with
    | none =>
      rw [hentry] at hlatest
      rintro ceiling t - (⟨-, card, hcard, -⟩ | ⟨⟨card, hcard, -⟩, -⟩)
      · exact absurd hcard (hlatest card)
      · exact absurd hcard (hlatest card)
    | some entry =>
      rw [hentry] at hlatest
      exact ⟨hconfirmed entry hentry, hlatest, fun _ check hcheck => absurd hcheck List.not_mem_nil⟩

theorem answer (h : Inv s) {limits : Option RunwayLimits} {now : ℚ}
    (hs : step s (.answer limits now) = some s') : Inv s' := by
  rw [step, Option.ite_none_right_eq_some] at hs
  obtain ⟨hle, hs⟩ := hs
  rw [State.answer] at hs
  split at hs
  case h_1 => cases hs
  case h_2 before fetching hfetching =>
    have hc : s.staleCeiling = some (ceilingFor s.polled) := by
      rcases h.ceiling with hc | ⟨hf, -⟩
      · exact hc
      · cases hf.symm.trans hfetching
    have hwait : Inv ({ s with fetching := fetching } : State) := ⟨Or.inl hc, h.held⟩
    have hread := hwait.readAt hc now limits
    cases hs
    cases limits with
    | none => exact hwait.noted_prune hc hle
    | some limits =>
      obtain ⟨held, hprune, hchecked⟩ := prune_spec (s := State.applyRunwaySnapshot
        { s with fetching := fetching } limits now) hc now
      rw [hprune]
      exact hread.noted hle (hchecked.congr fun x => by simp)

theorem step (h : Inv s) {a : Label} (hs : Runway.step s a = some s') : Inv s' := by
  cases a with
  | configure stored runwayKey =>
    cases hs
    exact ⟨h.ceiling, h.held⟩
  | poll now => exact h.poll hs
  | answer limits now => exact h.answer hs
  | check target now => exact h.check hs

end Inv

theorem inv_boot (stored : Stored) (runwayKey : Except Unit (Option String)) :
    Inv (boot stored runwayKey) where
  ceiling := Or.inr ⟨rfl, rfl⟩
  held := fun _ => rfl

/-! ## The result -/

/-- What is held of a target after a run is what the reading says of it. -/
theorem Inv.live_iff {s : State} (h : Inv s) (target : String) {t : ℚ} (ht : s.clock ≤ t) :
    (s.quarantined.lookup target).any (live (ceilingFor s.polled) t) = true ↔
      Quarantined s target t := by
  have hheld := h.held
  rw [Quarantined]
  cases hr : s.reading with
  | none => simp [h.lookup_none hr]
  | some r =>
    rw [hr, Held] at hheld
    simp only [Option.some.injEq, exists_eq_left']
    by_cases hcfg : r.configured = true
    · rw [if_pos hcfg] at hheld
      have haccounts := hheld target
      cases hentry : s.quarantined.lookup target with
      | none =>
        rw [hentry] at haccounts
        simp only [Option.any_none, Bool.false_eq_true, false_iff]
        rintro ⟨-, hholds, hun⟩
        exact haccounts _ t ht hholds hun
      | some entry =>
        rw [hentry] at haccounts
        obtain ⟨hconfirmed, hlatest, hun⟩ := haccounts
        rw [Option.any_some, ← holds_iff_live hconfirmed hlatest]
        exact ⟨fun hholds => ⟨hcfg, hholds, hun⟩, fun hq => hq.2.1⟩
    · rw [if_neg hcfg] at hheld
      simp [hheld target, hcfg]

/-- **A target is quarantined as long as the last reading says**, and a claim is refused when a
target it spends is quarantined. -/
theorem quarantine_law (stored : Stored) (runwayKey : Except Unit (Option String))
    (labels : List Label) (s : State) (hrun : play step (boot stored runwayKey) labels = some s)
    (t : ℚ) (ht : s.clock ≤ t) :
    (∀ target, (s.isAgentQuarantined target t).1 = true ↔ Quarantined s target t) ∧
    ∀ agent model,
      (s.quarantinedTarget (claimTargets s.settings.providerMap agent model) t).1.isSome ↔
        ∃ target, Spends s.settings.providerMap agent model target ∧ Quarantined s target t := by
  have h : Inv s := play_invariant (fun _ _ _ hI hs => hI.step hs) (inv_boot stored runwayKey) hrun
  constructor
  · intro target
    obtain ⟨held, hcheck, -⟩ := h.isAgentQuarantined target t
    rw [hcheck]
    exact h.live_iff target ht
  · intro agent model
    rw [h.quarantinedTarget]
    refine exists_congr fun target => ?_
    have hclean : Clean s.settings.providerMap := clean_sanitizeProviderMap _
    rw [mem_claimTargets hclean, h.live_iff target ht]

/-- A configured integration with the default map. -/
def polling (pollSeconds : ℚ) : Stored := ⟨"http://runway", none, some pollSeconds⟩

/-- A card of `claude`'s provider: exhausted, with no reset. -/
def exhaustedCard : RunwayLimitCard := ⟨"anthropic", some 100, none, none, false, none, false⟩

/-- The server after some labels that can be played. -/
def after (labels : List Label) : State :=
  (play step (boot (polling 60) (.ok (some "key"))) labels).getD (boot (polling 60) (.error ()))

theorem play_after {labels : List Label}
    (h : (play step (boot (polling 60) (.ok (some "key"))) labels).isSome = true) :
    play step (boot (polling 60) (.ok (some "key"))) labels = some (after labels) := by
  obtain ⟨s, hs⟩ := Option.isSome_iff_exists.1 h
  rw [after, hs, Option.getD_some]

/-- An exhausted card is read. -/
def reading : List Label := [.poll 0, .answer (some ⟨0, [exhaustedCard]⟩) 0]

/-- Half an hour later it cannot be refreshed, and then the interval grows to an hour. -/
def growing : List Label :=
  reading ++ [.poll 1800000, .answer none 1800000,
    .configure (polling 3600) (.ok (some "key")), .poll 1800001]

/-- A minute after the reading. -/
theorem quarantine_law_of_reading :
    ((after reading).isAgentQuarantined "claude" 60000).1 = true ↔
      Quarantined (after reading) "claude" 60000 :=
  (quarantine_law (polling 60) (.ok (some "key")) reading (after reading)
    (play_after (by decide +kernel)) 60000 (by decide +kernel)).1 "claude"

/-- **A target that was released stays released** when the ceiling grows over the age of the
reading. -/
theorem released_stays_released :
    ¬ ∀ (stored : Stored) (runwayKey : Except Unit (Option String)) (labels : List Label)
      (s : State), play step (boot stored runwayKey) labels = some s →
      ∀ t, s.clock ≤ t → ∀ target,
        ((s.isAgentQuarantined target t).1 = true ↔ HeldByReading s target t) := by
  intro h
  have hlaw := h (polling 60) (.ok (some "key")) growing (after growing)
    (play_after (by decide +kernel)) 1800001 (by decide +kernel) "claude"
  have hheld : HeldByReading (after growing) "claude" 1800001 :=
    ⟨(after growing).reading.get (by decide +kernel), (Option.some_get _).symm, by decide +kernel,
      Or.inr ⟨by decide +kernel, by decide +kernel⟩⟩
  exact absurd (hlaw.2 hheld) (by decide +kernel)

end Runway
end Mullion
