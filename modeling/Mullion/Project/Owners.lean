import Mullion.Lib.OrderedMap
import Mullion.Text

/-!
# Which project owns a repository

`repo-key.ts`: what each project's repository is, as far as its host answers, and which
project imports the issues of a repository.

`resolveRepoKeys` is one run: the resolution map and what is remembered for the next run. From the
map `pickRepoOwners` names the owner of each key, where 0 is nobody. What is asked is that only the
oldest project on a key is ever named, though some projects have no entry yet. Those may turn out to
be anything (`Completes`), so a younger project must wait for them. `ownerOf` follows the loop for
one key, and an induction on the rows gives `owner_is_oldest` and from it `owners_fail_closed`: a
key has one owner, a real one is the oldest, and two runs agree.

A project that stays without an answer beyond the deferral window gets an entry without a key, and
then the law fails (`expired_row_loses_repo`). Over runs that meet no such row it holds with the
remembered keys too, because they stay right from run to run (`runs_name_oldest`).
-/

namespace Mullion
namespace RepoKey

/-- `GitHubRepoRef`. -/
structure RepoRef where
  owner : String
  repo : String
  deriving DecidableEq

/-- `ResolvedRepo`. -/
structure ResolvedRepo where
  ref : Option RepoRef
  key : Option String
  unresolved : Bool := false
  deriving DecidableEq

/-- `ProjectRef`. -/
structure ProjectRef where
  id : ℕ
  cwd : String
  hostId : Option String
  deriving DecidableEq

/-- A resolution map. -/
abbrev Resolved := OrderedMap ℕ ResolvedRepo

/-- What is remembered between runs. -/
structure Memory where
  lastKnownKeys : OrderedMap ℕ String := OrderedMap.empty
  unresolvedSince : OrderedMap ℕ ℤ := OrderedMap.empty

/-- `MAX_UNRESOLVED_MS`. -/
def maxUnresolvedMs : ℤ := 30 * 60 * 1000

/-- `LOCAL_HOST_ID`. -/
def localHostId : String := "local"

/-- The host a row is on; a legacy empty host is the local one. -/
def ProjectRef.host (row : ProjectRef) : String :=
  (row.hostId.bind Text.truthy).getD localHostId

section Resolve

-- `toLowerCase`
variable (lower : String → String)

/-- `repoKey`. -/
def repoKey (ref : RepoRef) : String := lower (ref.owner ++ "/" ++ ref.repo)

-- `resolveRepoRefResult` of a directory and a host; `none` is a host that does not answer
variable (answer : String → String → Option (Option RepoRef))

/-- The body of the loop of `resolveRepoKeys`, for one row at the time `now`. -/
def resolveRow (now : ℤ) (memory : Memory) (out : Resolved) (row : ProjectRef) :
    Memory × Resolved :=
  match answer row.cwd row.host with
  | some value =>
    let key := value.map (repoKey lower)
    let lastKnownKeys :=
      match key.bind Text.truthy with
      | some key => memory.lastKnownKeys.set row.id key
      | none => memory.lastKnownKeys.erase row.id
    (⟨lastKnownKeys, memory.unresolvedSince.erase row.id⟩, out.set row.id ⟨value, key, false⟩)
  | none =>
    match (memory.lastKnownKeys.lookup row.id).bind Text.truthy with
    | some known => (memory, out.set row.id ⟨none, some known, false⟩)
    | none =>
      let since := (memory.unresolvedSince.lookup row.id).getD now
      let memory := { memory with unresolvedSince := memory.unresolvedSince.set row.id since }
      if now - since > maxUnresolvedMs then (memory, out.set row.id ⟨none, none, true⟩)
      else (memory, out)

/-- The rows one after the other. -/
def resolveRows (now : ℤ) : Memory → Resolved → List ProjectRef → Memory × Resolved
  | memory, out, [] => (memory, out)
  | memory, out, row :: rest =>
    let next := resolveRow lower answer now memory out row
    resolveRows now next.1 next.2 rest

/-- `resolveRepoKeys`. -/
def resolveRepoKeys (now : ℤ) (memory : Memory) (rows : List ProjectRef) : Memory × Resolved :=
  resolveRows lower answer now memory OrderedMap.empty rows

end Resolve

/-- `entry.key`, where it counts as one. -/
def ResolvedRepo.counted (entry : ResolvedRepo) : Option String := entry.key.bind Text.truthy

/-- The loop of `pickRepoOwners`. -/
def pickFrom (resolved : Resolved) :
    OrderedMap String ℕ → Bool → List ProjectRef → OrderedMap String ℕ
  | owners, _, [] => owners
  | owners, unknownSeen, row :: rest =>
    match resolved.lookup row.id with
    | none => pickFrom resolved owners true rest
    | some entry =>
      match entry.counted with
      | none => pickFrom resolved owners unknownSeen rest
      | some key =>
        if (owners.lookup key).isSome then pickFrom resolved owners unknownSeen rest
        else pickFrom resolved (owners.set key (if unknownSeen then 0 else row.id)) unknownSeen rest

/-- `pickRepoOwners`. -/
def pickRepoOwners (rows : List ProjectRef) (resolved : Resolved) : OrderedMap String ℕ :=
  pickFrom resolved OrderedMap.empty false rows

/-! ## The owner of one key -/

/-- The owner of a key, read off the rows. -/
def ownerOf (resolved : Resolved) (key : String) : Bool → List ProjectRef → Option ℕ
  | _, [] => none
  | unknownSeen, row :: rest =>
    match resolved.lookup row.id with
    | none => ownerOf resolved key true rest
    | some entry =>
      if entry.counted = some key then some (if unknownSeen then 0 else row.id)
      else ownerOf resolved key unknownSeen rest

theorem lookup_pickFrom (resolved : Resolved) (owners : OrderedMap String ℕ) (unknownSeen : Bool)
    (rows : List ProjectRef) (key : String) :
    (pickFrom resolved owners unknownSeen rows).lookup key =
      (owners.lookup key).or (ownerOf resolved key unknownSeen rows) := by
  induction rows generalizing owners unknownSeen with
  | nil => simp [pickFrom, ownerOf]
  | cons row rest ih =>
    rw [pickFrom, ownerOf]
    cases hentry : resolved.lookup row.id with
    | none => exact ih owners true
    | some entry =>
      dsimp only
      cases hcounted : entry.counted with
      | none => simpa using ih owners unknownSeen
      | some first =>
        by_cases hsome : (owners.lookup first).isSome = true
        · simp only [hsome, if_true, ih, Option.some.injEq]
          by_cases hkey : first = key
          · subst hkey
            obtain ⟨owner, howner⟩ := Option.isSome_iff_exists.1 hsome
            simp [howner]
          · rw [if_neg hkey]
        · simp only [hsome, if_false, ih, Option.some.injEq, OrderedMap.lookup_set,
            Bool.false_eq_true]
          by_cases hkey : first = key
          · subst hkey
            simp only [Option.not_isSome_iff_eq_none] at hsome
            simp [hsome]
          · rw [if_neg (fun he => hkey he.symm), if_neg hkey]

theorem lookup_pickRepoOwners (rows : List ProjectRef) (resolved : Resolved) (key : String) :
    (pickRepoOwners rows resolved).lookup key = ownerOf resolved key false rows := by
  rw [pickRepoOwners, lookup_pickFrom]
  rfl

/-- After an unknown row nobody owns a key that was not seen before. -/
theorem ownerOf_unknown {resolved : Resolved} {key : String} {rows : List ProjectRef} {owner : ℕ}
    (h : ownerOf resolved key true rows = some owner) : owner = 0 := by
  induction rows with
  | nil => cases h
  | cons row rest ih =>
    rw [ownerOf] at h
    split at h
    · exact ih h
    · split at h
      · simpa using h.symm
      · exact ih h

/-! ## Completions -/

/-- The repository of every project, in agreement with the entries that a map has. -/
def Completes (resolved : Resolved) (repo : ℕ → Option String) : Prop :=
  ∀ id entry, resolved.lookup id = some entry → repo id = entry.counted

/-- The oldest project on a key. -/
def oldest (rows : List ProjectRef) (repo : ℕ → Option String) (key : String) : Option ℕ :=
  (rows.find? fun row => repo row.id = some key).map (·.id)

/-- A real owner is the oldest project on its key, whatever the unknown rows turn out to
be. -/
theorem owner_is_oldest {rows : List ProjectRef} {resolved : Resolved} {key : String} {owner : ℕ}
    (h : (pickRepoOwners rows resolved).lookup key = some owner) (hreal : owner ≠ 0)
    {repo : ℕ → Option String} (hrepo : Completes resolved repo) :
    oldest rows repo key = some owner := by
  rw [lookup_pickRepoOwners] at h
  induction rows with
  | nil => cases h
  | cons row rest ih =>
    rw [ownerOf] at h
    rw [oldest, List.find?_cons]
    split at h
    · exact absurd (ownerOf_unknown h) hreal
    next entry hentry =>
      rw [hrepo row.id entry hentry]
      split at h
      next hkey => simpa [hkey] using h
      next hkey =>
        rw [decide_eq_false hkey]
        exact ih h

/-- Two maps agree where both have an entry. -/
def Agree (resolved resolved' : Resolved) : Prop :=
  ∀ id entry entry', resolved.lookup id = some entry → resolved'.lookup id = some entry' →
    entry = entry'

/-- Maps that agree have a common completion. -/
theorem Agree.completes {resolved resolved' : Resolved} (h : Agree resolved resolved') :
    ∃ repo, Completes resolved repo ∧ Completes resolved' repo := by
  refine ⟨fun id => ((resolved.lookup id).or (resolved'.lookup id)).bind (·.counted), ?_, ?_⟩
  · intro id entry hentry
    simp [hentry]
  · intro id entry' hentry'
    cases hentry : resolved.lookup id with
    | none => simp [hentry, hentry']
    | some entry => simp [hentry, h id entry entry' hentry hentry']

/-- **One owner, fail-closed.** A key has at most one owner; a real owner is the oldest
project on the key under every completion of the rows without an entry; and two runs that
differ only in which rows have an entry never name two different real owners. -/
theorem owners_fail_closed (rows : List ProjectRef) (resolved : Resolved) :
    ((pickRepoOwners rows resolved).entries.rows.map Prod.fst).Nodup ∧
    (∀ key owner, (pickRepoOwners rows resolved).lookup key = some owner → owner ≠ 0 →
      ∀ repo, Completes resolved repo → oldest rows repo key = some owner) ∧
    ∀ resolved', Agree resolved resolved' → ∀ key owner owner',
      (pickRepoOwners rows resolved).lookup key = some owner → owner ≠ 0 →
      (pickRepoOwners rows resolved').lookup key = some owner' → owner' ≠ 0 → owner = owner' := by
  refine ⟨(pickRepoOwners rows resolved).entries.nodup, ?_, ?_⟩
  · intro key owner howner hreal repo hrepo
    exact owner_is_oldest howner hreal hrepo
  · intro resolved' hagree key owner owner' howner hreal howner' hreal'
    obtain ⟨repo, hrepo, hrepo'⟩ := hagree.completes
    have h := owner_is_oldest howner hreal hrepo
    rw [owner_is_oldest howner' hreal' hrepo', Option.some.injEq] at h
    exact h.symm

/-- A map with an entry for the older of two projects only. -/
def oneEntry : Resolved := OrderedMap.empty.set 2 ⟨some ⟨"o", "r"⟩, some "o/r", false⟩

/-- The same map once the younger project has turned out to be on the same repository. -/
def twoEntries : Resolved := oneEntry.set 1 ⟨some ⟨"o", "r"⟩, some "o/r", false⟩

theorem agree_oneEntry : Agree oneEntry twoEntries := by
  intro id entry entry' hentry hentry'
  rw [twoEntries, OrderedMap.lookup_set] at hentry'
  split at hentry'
  next hid =>
    subst hid
    exact absurd hentry (by simp [oneEntry, OrderedMap.lookup_set])
  next =>
    rw [hentry, Option.some.injEq] at hentry'
    exact hentry'

/-- Both runs name the older project. -/
theorem older_project_stays_owner :
    oldest [⟨2, "/b", none⟩, ⟨1, "/a", some "away"⟩] (fun _ => some "o/r") "o/r" = some 2 ∧
      ∀ owner', (pickRepoOwners [⟨2, "/b", none⟩, ⟨1, "/a", some "away"⟩] twoEntries).lookup "o/r" =
        some owner' → owner' ≠ 0 → 2 = owner' := by
  obtain ⟨-, holdest, hsame⟩ :=
    owners_fail_closed [⟨2, "/b", none⟩, ⟨1, "/a", some "away"⟩] oneEntry
  refine ⟨holdest "o/r" 2 (by decide) (by decide) _ ?_, ?_⟩
  · intro id entry hentry
    rw [oneEntry, OrderedMap.lookup_set] at hentry
    split at hentry
    · rw [← Option.some.inj hentry]
      rfl
    · cases hentry
  · intro owner' howner' hreal'
    exact hsame twoEntries agree_oneEntry "o/r" 2 owner' (by decide) (by decide) howner' hreal'

/-! ## Rows whose window ran out -/

/-- Two projects on one repository; the host of the older one is away. -/
def twoRows : List ProjectRef := [⟨1, "/a", some "away"⟩, ⟨2, "/b", none⟩]

/-- What the hosts of `twoRows` answer. -/
def awayAnswer (_cwd host : String) : Option (Option RepoRef) :=
  if host = "away" then none else some (some ⟨"o", "r"⟩)

/-- A project whose host has not answered for longer than the window counts as having no
repository: the younger project then owns the key, though it may not be the oldest. -/
theorem expired_row_loses_repo :
    ¬ ∀ (lower : String → String) (answer : String → String → Option (Option RepoRef)) (now : ℤ)
      (memory : Memory) (rows : List ProjectRef) (key : String) (owner : ℕ),
      (pickRepoOwners rows (resolveRepoKeys lower answer now memory rows).2).lookup key =
        some owner → owner ≠ 0 →
      ∀ repo : ℕ → Option String,
        (∀ row ∈ rows, ∀ value, answer row.cwd row.host = some value →
          repo row.id = (value.map (repoKey lower)).bind Text.truthy) →
        oldest rows repo key = some owner := by
  intro h
  have := h id awayAnswer (maxUnresolvedMs + 1)
    (resolveRepoKeys id awayAnswer 0 {} twoRows).1 twoRows "o/r" 2 (by decide) (by decide)
    (fun _ => some "o/r") ?_
  · exact absurd this (by decide)
  · intro row hrow value hvalue
    simp only [twoRows, List.mem_cons, List.not_mem_nil, or_false] at hrow
    rcases hrow with rfl | rfl
    · have hnone : awayAnswer "/a" (ProjectRef.host ⟨1, "/a", some "away"⟩) = none := by decide
      rw [hnone] at hvalue
      cases hvalue
    · have hsome : awayAnswer "/b" (ProjectRef.host ⟨2, "/b", none⟩) = some (some ⟨"o", "r"⟩) := by
        decide
      rw [hsome, Option.some.injEq] at hvalue
      subst hvalue
      decide

/-! ## Runs -/

section Runs

variable {lower : String → String} {answer : String → String → Option (Option RepoRef)}
  {repo : ℕ → Option String}

/-- The hosts that answer say what the repositories are. -/
def Truthful (lower : String → String) (rows : List ProjectRef) (repo : ℕ → Option String)
    (answer : String → String → Option (Option RepoRef)) : Prop :=
  ∀ row ∈ rows, ∀ value, answer row.cwd row.host = some value →
    repo row.id = (value.map (repoKey lower)).bind Text.truthy

/-- The keys that are remembered are right. -/
def Memory.Right (repo : ℕ → Option String) (memory : Memory) : Prop :=
  ∀ id key, memory.lastKnownKeys.lookup id = some key → repo id = some key

/-- The entries that are not past the deferral window are right. -/
def RightEntries (repo : ℕ → Option String) (resolved : Resolved) : Prop :=
  ∀ id entry, resolved.lookup id = some entry → entry.unresolved = false →
    repo id = entry.counted

theorem RightEntries.set {out : Resolved} (h : RightEntries repo out) {id : ℕ}
    {entry : ResolvedRepo} (hentry : entry.unresolved = false → repo id = entry.counted) :
    RightEntries repo (out.set id entry) := by
  intro other found hfound hfresh
  rw [OrderedMap.lookup_set] at hfound
  split at hfound
  next hid =>
    cases hfound
    rw [hid]
    exact hentry hfresh
  next => exact h other found hfound hfresh

theorem eq_of_truthy {s t : String} (h : Text.truthy s = some t) : s = t := by
  unfold Text.truthy at h
  split at h
  · cases h
  · exact Option.some.inj h

/-- One row keeps what is remembered and what is resolved right. -/
theorem resolveRow_right (now : ℤ) {memory : Memory} {out : Resolved} {row : ProjectRef}
    (hrow : ∀ value, answer row.cwd row.host = some value →
      repo row.id = (value.map (repoKey lower)).bind Text.truthy)
    (hmemory : memory.Right repo) (hout : RightEntries repo out) :
    (resolveRow lower answer now memory out row).1.Right repo ∧
      RightEntries repo (resolveRow lower answer now memory out row).2 := by
  unfold resolveRow
  cases hanswer : answer row.cwd row.host with
  | some value =>
    have hrepo := hrow value hanswer
    refine ⟨?_, hout.set (fun _ => hrepo)⟩
    intro id key hkey
    dsimp only at hkey
    split at hkey
    next known hknown =>
      rw [OrderedMap.lookup_set] at hkey
      split at hkey
      next hid =>
        cases hkey
        rw [hid, hrepo, hknown]
      next => exact hmemory id key hkey
    next =>
      rw [OrderedMap.lookup_erase] at hkey
      split at hkey
      · cases hkey
      · exact hmemory id key hkey
  | none =>
    dsimp only
    split
    next known hknown =>
      refine ⟨hmemory, hout.set ?_⟩
      intro _
      obtain ⟨key, hkey, htruthy⟩ := Option.bind_eq_some_iff.1 hknown
      rw [hmemory row.id key hkey, ResolvedRepo.counted, Option.bind_some,
        ← eq_of_truthy htruthy]
      rw [← eq_of_truthy htruthy] at htruthy
      exact htruthy.symm
    next =>
      split
      · exact ⟨hmemory, hout.set (by simp)⟩
      · exact ⟨hmemory, hout⟩

theorem resolveRows_right (now : ℤ) {memory : Memory} {out : Resolved} {rows : List ProjectRef}
    (hrows : Truthful lower rows repo answer) (hmemory : memory.Right repo)
    (hout : RightEntries repo out) :
    (resolveRows lower answer now memory out rows).1.Right repo ∧
      RightEntries repo (resolveRows lower answer now memory out rows).2 := by
  induction rows generalizing memory out with
  | nil => exact ⟨hmemory, hout⟩
  | cons row rest ih =>
    obtain ⟨hmemory', hout'⟩ :=
      resolveRow_right now (hrows row List.mem_cons_self) hmemory hout
    exact ih (fun other hother => hrows other (List.mem_cons_of_mem row hother)) hmemory' hout'

/-- A run: when it is, the projects, and what their hosts answer. -/
structure Tick where
  now : ℤ
  rows : List ProjectRef
  answer : String → String → Option (Option RepoRef)

/-- The resolution maps of the runs. -/
def runs (lower : String → String) : Memory → List Tick → List (Tick × Resolved)
  | _, [] => []
  | memory, tick :: rest =>
    let result := resolveRepoKeys lower tick.answer tick.now memory tick.rows
    (tick, result.2) :: runs lower result.1 rest

theorem right_of_mem_runs {ticks : List Tick}
    (hticks : ∀ tick ∈ ticks, Truthful lower tick.rows repo tick.answer) {memory : Memory}
    (hmemory : memory.Right repo) {tick : Tick} {resolved : Resolved}
    (hresolved : (tick, resolved) ∈ runs lower memory ticks) : RightEntries repo resolved := by
  induction ticks generalizing memory with
  | nil => cases hresolved
  | cons first rest ih =>
    have hempty : RightEntries repo OrderedMap.empty := fun _ _ hentry => by cases hentry
    obtain ⟨hmemory', hout⟩ :=
      resolveRows_right first.now (hticks first List.mem_cons_self) hmemory hempty
    rcases List.mem_cons.1 hresolved with hfirst | hresolved
    · obtain ⟨rfl, rfl⟩ := Prod.mk.inj hfirst
      exact hout
    · exact ih (fun tick htick => hticks tick (List.mem_cons_of_mem _ htick)) hmemory' hresolved

/-- **Runs.** While the repositories stay what they are, every run in which no project is
past its deferral window names the oldest project of a key or nobody, however often hosts
were away, keys remembered and projects added or removed. -/
theorem runs_name_oldest {ticks : List Tick}
    (hticks : ∀ tick ∈ ticks, Truthful lower tick.rows repo tick.answer) {tick : Tick}
    {resolved : Resolved} (hresolved : (tick, resolved) ∈ runs lower {} ticks)
    (hfresh : ∀ id entry, resolved.lookup id = some entry → entry.unresolved = false)
    {key : String} {owner : ℕ} (h : (pickRepoOwners tick.rows resolved).lookup key = some owner)
    (hreal : owner ≠ 0) : oldest tick.rows repo key = some owner := by
  have hright := right_of_mem_runs hticks (fun _ _ hkey => by cases hkey) hresolved
  refine owner_is_oldest h hreal fun id entry hentry => ?_
  exact hright id entry hentry (hfresh id entry hentry)

end Runs

/-- Both hosts answer, then one of them is away. -/
def thenAway : List Tick :=
  [⟨0, twoRows, fun _ _ => some (some ⟨"o", "r"⟩)⟩, ⟨1, twoRows, awayAnswer⟩]

/-- The second run of `thenAway`, where the key of the project that is away is remembered. -/
def remembered : Resolved :=
  (OrderedMap.empty.set 1 ⟨none, some "o/r", false⟩).set 2 ⟨some ⟨"o", "r"⟩, some "o/r", false⟩

theorem remembered_mem : (⟨1, twoRows, awayAnswer⟩, remembered) ∈ runs id {} thenAway := by
  have hsecond : (resolveRepoKeys id awayAnswer 1
      (resolveRepoKeys id (fun _ _ => some (some ⟨"o", "r"⟩)) 0 {} twoRows).1 twoRows).2 =
        remembered := rfl
  rw [thenAway, runs, runs, runs, hsecond]
  exact List.mem_cons_of_mem _ List.mem_cons_self

theorem runs_name_oldest_of_away : oldest twoRows (fun _ => some "o/r") "o/r" = some 1 := by
  refine runs_name_oldest ?_ remembered_mem ?_ (by decide) (by decide)
  · intro tick htick row _ value hvalue
    have hsame : value = some ⟨"o", "r"⟩ := by
      simp only [thenAway, List.mem_cons, List.not_mem_nil, or_false] at htick
      rcases htick with rfl | rfl
      · exact (Option.some.inj hvalue).symm
      · simp only [awayAnswer] at hvalue
        split at hvalue
        · cases hvalue
        · exact (Option.some.inj hvalue).symm
    rw [hsame]
    change some "o/r" = (some (repoKey id ⟨"o", "r"⟩)).bind Text.truthy
    decide
  · intro id entry hentry
    simp only [remembered, OrderedMap.lookup_set] at hentry
    split_ifs at hentry
    · cases hentry
      rfl
    · cases hentry
      rfl
    · cases hentry

end RepoKey
end Mullion
