import Mathlib.Tactic
import Mullion.Lib.Run

/-!
# Cached readings of a checkout

`getGitStatus` (`git-status.ts`) and `getDiffStats` (`git-diff.ts`) run git for a checkout, keep
the last result for 5 s, and let a call that finds a run in flight share it. A status is one
process. A diff is two, one after the other: the first counts the changed lines, the second
lists the changed names, and the result is stored when the second has ended. How much of what
a caller hopes for survives when calls and processes interleave?

What is promised of a step is `Fresh` of a forced call, `Recent` of a cached result and `Newer`
of the cache. Three things break it, and `readings_iff` says that nothing else does: a forced
status shares a run that started before the call; a diff that ends late overwrites the result
of one that started after it; and the age of a cached diff is counted from its second process,
so that its numbers may be older than they seem (`Timely`).

The proof compares each step with the state before it (`status_kept_iff`, `diff_kept_iff`). The
invariant says that the cache holds the latest run that gave a result, and when each process
of it ended (`Inv`); of the status there is moreover one run at a time (`Single`).
-/

namespace Mullion
namespace GitReadings

/-- `CACHE_TTL_MS`, of either module. -/
def cacheTtl : ℕ := 5000

/-- A cached result: when it was stored, and the run it is from. -/
structure Entry where
  ts : ℕ
  run : ℕ
  deriving DecidableEq

/-- Where the result of a call comes from. -/
inductive Source where
  /-- not a repository -/
  | none
  | cache (entry : Entry)
  /-- the promise of a run -/
  | run (n : ℕ)
  deriving DecidableEq

/-- The cache, `inFlight`, and the runs on their way. -/
structure Readings where
  cache : Option Entry := none
  inFlight : Option ℕ := none
  /-- runs whose first process is running -/
  running : List ℕ := []
  /-- diffs that are listing the changed names -/
  listing : List ℕ := []
  /-- runs whose result is there and whose `finally` is not -/
  finishing : List ℕ := []
  /-- how many runs have started -/
  started : ℕ := 0
  /-- the runs whose first process gave output, with the times when it ended -/
  counted : List (ℕ × ℕ) := []
  /-- the runs that gave a result, with the times when their last process ended -/
  completed : List (ℕ × ℕ) := []
  /-- the forced and the other calls so far, with their sources -/
  answers : List (Bool × Source) := []
  deriving DecidableEq

variable {r r' : Readings} {now : ℕ}

/-- The cached result while it is not too old. -/
def Readings.cached (r : Readings) (now : ℕ) : Option Entry :=
  r.cache.filter fun entry => now - entry.ts < cacheTtl

def Readings.answer (r : Readings) (fresh : Bool) (source : Source) : Readings :=
  { r with answers := (fresh, source) :: r.answers }

/-- A run starts, and calls share it from now on. -/
def Readings.start (r : Readings) (fresh : Bool) : Readings :=
  { r with
    running := r.running ++ [r.started]
    inFlight := some r.started
    started := r.started + 1 }.answer fresh (.run r.started)

/-- `getGitStatus`. -/
def getGitStatus (r : Readings) (now : ℕ) (repo forceFresh : Bool) : Readings :=
  if !repo then r.answer forceFresh .none
  else
    match if forceFresh then none else r.cached now with
    | some entry => r.answer forceFresh (.cache entry)
    | none =>
      match r.inFlight with
      | some n => r.answer forceFresh (.run n)
      | none => r.start forceFresh

/-- `getDiffStats`. -/
def getDiffStats (r : Readings) (now : ℕ) (repo fresh : Bool) : Readings :=
  if !repo then r.answer fresh .none
  else if fresh then r.start fresh
  else
    match r.cached now with
    | some entry => r.answer fresh (.cache entry)
    | none =>
      match r.inFlight with
      | some n => r.answer fresh (.run n)
      | none => r.start fresh

/-- The result of a run is stored. -/
def Readings.store (r : Readings) (now n : ℕ) : Readings :=
  { r with
    finishing := r.finishing ++ [n]
    cache := some ⟨now, n⟩
    completed := (n, now) :: r.completed }

/-- The first process of a run has ended with output. -/
def Readings.count (r : Readings) (now n : ℕ) : Readings :=
  { r with running := r.running.erase n, counted := (n, now) :: r.counted }

/-- How many runs had been counted when `n` was, itself included: the second processes start in
this order. -/
def Readings.turn (r : Readings) (n : ℕ) : ℕ := (r.counted.dropWhile (·.1 ≠ n)).length

/-- The first process of a run has ended without. -/
def Readings.fail (r : Readings) (n : ℕ) : Readings :=
  { r with running := r.running.erase n, finishing := r.finishing ++ [n] }

/-- The process of a status has ended, with output or without. -/
def statusExited (r : Readings) (now n : ℕ) (output : Bool) : Option Readings :=
  if n ∈ r.running then some (if output then (r.count now n).store now n else r.fail n)
  else none

/-- The first process of a diff has ended, with output or without. -/
def diffExited (r : Readings) (now n : ℕ) (output : Bool) : Option Readings :=
  if n ∈ r.running then
    some (if output then { r.count now n with listing := r.listing ++ [n] } else r.fail n)
  else none

/-- The second process of a diff has ended, in whatever way. -/
def diffListed (r : Readings) (now n : ℕ) : Option Readings :=
  if n ∈ r.listing then some ({ r with listing := r.listing.erase n }.store now n) else none

/-- The `finally` of a run. -/
def released (r : Readings) (n : ℕ) : Option Readings :=
  if n ∈ r.finishing then some { r with finishing := r.finishing.erase n, inFlight := none }
  else none

/-- What happens to the readings of one kind. -/
inductive Op where
  | call (repo fresh : Bool)
  | exited (n : ℕ) (output : Bool)
  | listed (n : ℕ)
  | released (n : ℕ)
  deriving DecidableEq

/-- One step of the status. -/
def statusStep (r : Readings) (now : ℕ) : Op → Option Readings
  | .call repo forceFresh => some (getGitStatus r now repo forceFresh)
  | .exited n output => statusExited r now n output
  | .listed _ => none
  | .released n => released r n

/-- One step of a diff. -/
def diffStep (r : Readings) (now : ℕ) : Op → Option Readings
  | .call repo fresh => some (getDiffStats r now repo fresh)
  | .exited n output => diffExited r now n output
  | .listed n => diffListed r now n
  | .released n => released r n

/-- The readings of one checkout: its status, and its diffs by cache key. -/
structure Checkout where
  now : ℕ := 0
  status : Readings := {}
  diff : Option String → Readings := fun _ => {}

/-- The key of `getDiffStats`; an empty base is no base. -/
def cacheKey (baseRef : Option String) : Option String := baseRef.filter (· ≠ "")

/-- What can happen. -/
inductive Label where
  | pass (time : ℕ)
  | status (op : Op)
  | diff (baseRef : Option String) (op : Op)
  deriving DecidableEq

/-- One step. -/
def step (w : Checkout) : Label → Option Checkout
  | .pass time => some { w with now := w.now + time }
  | .status op => (statusStep w.status w.now op).map fun r => { w with status := r }
  | .diff baseRef op =>
    let key := cacheKey baseRef
    (diffStep (w.diff key) w.now op).map fun r => { w with diff := Function.update w.diff key r }

/-! ## What is promised -/

/-- A forced call is answered by a run that starts at the call or later. -/
def Fresh (r r' : Readings) : Prop :=
  ∀ source, r'.answers = (true, source) :: r.answers →
    source = .none ∨ ∃ n, source = .run n ∧ r.started ≤ n

/-- A cached result is from a run of which every process ended less than `CACHE_TTL_MS` ago: the
first one, whose numbers it has, and the last one after it. -/
def Recent (now : ℕ) (r r' : Readings) : Prop :=
  ∀ fresh entry, r'.answers = (fresh, .cache entry) :: r.answers →
    ∃ numbers ended, (entry.run, numbers) ∈ r.counted ∧ (entry.run, ended) ∈ r.completed ∧
      numbers ≤ ended ∧ ended ≤ now ∧ now < numbers + cacheTtl

/-- A cached result is only replaced by that of a run of which each process started later. -/
def Newer (r r' : Readings) : Prop :=
  ∀ entry, r.cache = some entry → ∃ entry', r'.cache = some entry' ∧ entry.run ≤ entry'.run ∧
    r'.turn entry.run ≤ r'.turn entry'.run

/-- What is promised of a step of the readings of one kind. -/
structure Kept (now : ℕ) (r r' : Readings) : Prop where
  fresh : Fresh r r'
  recent : Recent now r r'
  newer : Newer r r'

/-- What is promised of a step. -/
def Promised (w : Checkout) (_ : Label) (w' : Checkout) : Prop :=
  Kept w.now w.status w'.status ∧ ∀ key, Kept w.now (w.diff key) (w'.diff key)

/-- The first process of the run in the cache did not end `CACHE_TTL_MS` ago while the last one
did not. -/
def Timely (now : ℕ) (r : Readings) : Prop :=
  ∀ entry, r.cache = some entry → ∀ p ∈ r.counted, p.1 = entry.run →
    p.2 + cacheTtl ≤ now → entry.ts + cacheTtl ≤ now

/-- A run gives its result after those whose processes started before its own. -/
def Last (r : Readings) (n : ℕ) : Prop := ∀ p ∈ r.completed, p.1 < n ∧ r.turn p.1 ≤ r.turn n

/-- No status is forced while one is in flight, the diffs of one key that give a result end in
the order in which their processes started, and an unforced diff is timely. -/
def InOrder (w : Checkout) : Label → Prop
  | .status (.call true true) => w.status.inFlight = none
  | .diff baseRef (.call true false) => Timely w.now (w.diff (cacheKey baseRef))
  | .diff baseRef (.listed n) => Last (w.diff (cacheKey baseRef)) n
  | _ => True

/-! ## A call -/

/-- A call that does not start a run: what it may be answered with. -/
def Answers (r : Readings) (now : ℕ) (fresh : Bool) : Source → Prop
  | .none => True
  | .cache entry => fresh = false ∧ r.cached now = some entry
  | .run n => r.inFlight = some n

theorem getGitStatus_cases (r : Readings) (now : ℕ) (repo forceFresh : Bool) :
    (∃ source, getGitStatus r now repo forceFresh = r.answer forceFresh source ∧
        Answers r now forceFresh source ∧ (source = .none ↔ repo = false)) ∨
      getGitStatus r now repo forceFresh = r.start forceFresh ∧ r.inFlight = none := by
  cases repo with
  | false => exact Or.inl ⟨.none, rfl, trivial, iff_of_true rfl rfl⟩
  | true =>
    rw [getGitStatus, if_neg (by simp)]
    split
    · next entry hentry =>
      refine Or.inl ⟨.cache entry, rfl, ?_, by simp⟩
      split_ifs at hentry with hforce
      exact ⟨by simpa using hforce, hentry⟩
    · split
      · next n hn => exact Or.inl ⟨.run n, rfl, hn, by simp⟩
      · next hn => exact Or.inr ⟨rfl, hn⟩

theorem getDiffStats_cases (r : Readings) (now : ℕ) (repo fresh : Bool) :
    (∃ source, getDiffStats r now repo fresh = r.answer fresh source ∧
        Answers r now fresh source ∧ (fresh = true → source = .none) ∧
          (repo = true ∧ (∃ entry, source = .cache entry) ∨
            (∀ entry, source ≠ .cache entry) ∧ (repo = true → r.cached now = none))) ∨
      getDiffStats r now repo fresh = r.start fresh ∧ (fresh = true ∨ r.cached now = none) := by
  rw [getDiffStats]
  split_ifs with hrepo hfresh
  · exact Or.inl ⟨.none, rfl, trivial, fun _ => rfl, Or.inr ⟨by simp, by simp_all⟩⟩
  · exact Or.inr ⟨rfl, Or.inl hfresh⟩
  · split
    · next entry hentry =>
      exact Or.inl ⟨.cache entry, rfl, ⟨by simpa using hfresh, hentry⟩, fun h => absurd h hfresh,
        Or.inl ⟨by simpa using hrepo, entry, rfl⟩⟩
    · next hnone =>
      split
      · next n hn =>
        exact Or.inl ⟨.run n, rfl, hn, fun h => absurd h hfresh, Or.inr ⟨by simp, fun _ => hnone⟩⟩
      · exact Or.inr ⟨rfl, Or.inr hnone⟩

/-! ## What the readings keep -/

/-- The cache holds the latest run that gave a result, and no run ends twice. -/
structure Inv (now : ℕ) (r : Readings) : Prop where
  cached : ∀ entry, r.cache = some entry →
    (entry.run, entry.ts) ∈ r.completed ∧
      ∀ p ∈ r.completed, p.1 ≤ entry.run ∧ r.turn p.1 ≤ r.turn entry.run
  stored : ∀ p ∈ r.completed, ∃ entry, r.cache = some entry
  past : ∀ p ∈ r.completed, p.2 ≤ now ∧ p.1 < r.started
  live : ∀ n ∈ r.running ++ r.listing, n < r.started ∧ ∀ p ∈ r.completed, p.1 ≠ n
  nodup : (r.running ++ r.listing).Nodup
  counted : ∀ p ∈ r.counted, p.1 < r.started ∧ p.2 ≤ now ∧ p.1 ∉ r.running
  once : ∀ p ∈ r.counted, ∀ q ∈ r.counted, p.1 = q.1 → p = q
  listed : ∀ n ∈ r.listing, ∃ numbers ≤ now, (n, numbers) ∈ r.counted
  numbers : ∀ p ∈ r.completed, ∃ numbers ≤ p.2, (p.1, numbers) ∈ r.counted

/-- Of the status there is one run at a time, the last one started. -/
structure Single (r : Readings) : Prop where
  listing : r.listing = []
  counted : ∀ p ∈ r.completed, p ∈ r.counted
  idle : r.inFlight = none → r.running = [] ∧ r.finishing = []
  busy : ∀ n, r.inFlight = some n → n + 1 = r.started ∧
    (r.running = [n] ∧ r.finishing = [] ∨ r.running = [] ∧ r.finishing = [n])

theorem Inv.empty (now : ℕ) : Inv now {} :=
  ⟨by rintro _ ⟨⟩, by simp, by simp, by simp, List.nodup_nil, by simp, by simp, by simp, by simp⟩

theorem Single.empty : Single {} := ⟨rfl, by simp, fun _ => ⟨rfl, rfl⟩, by rintro _ ⟨⟩⟩

theorem Inv.later (h : Inv now r) (time : ℕ) : Inv (now + time) r :=
  { h with
    past := fun p hp => ⟨(h.past p hp).1.trans (Nat.le_add_right _ _), (h.past p hp).2⟩
    counted := fun p hp =>
      ⟨(h.counted p hp).1, (h.counted p hp).2.1.trans (Nat.le_add_right _ _), (h.counted p hp).2.2⟩
    listed := by
      intro n hn
      obtain ⟨numbers, hle, hmem⟩ := h.listed n hn
      exact ⟨numbers, hle.trans (Nat.le_add_right _ _), hmem⟩ }

theorem Inv.answer (h : Inv now r) (fresh : Bool) (source : Source) :
    Inv now (r.answer fresh source) := { h with }

theorem Inv.start (h : Inv now r) (fresh : Bool) : Inv now (r.start fresh) where
  cached := h.cached
  stored := h.stored
  past := fun p hp => ⟨(h.past p hp).1, (h.past p hp).2.trans (Nat.lt_succ_self _)⟩
  live := by
    intro n hn
    have hn' : n ∈ r.running ++ r.listing ∨ n = r.started := by
      simp only [Readings.start, Readings.answer, List.mem_append, List.mem_singleton] at hn ⊢
      tauto
    rcases hn' with hn | rfl
    · exact ⟨(h.live n hn).1.trans (Nat.lt_succ_self _), (h.live n hn).2⟩
    · exact ⟨Nat.lt_succ_self _, fun p hp => (h.past p hp).2.ne⟩
  nodup := by
    have hnew : r.started ∉ r.running ++ r.listing := fun hmem => (h.live _ hmem).1.false
    have hperm : (r.running ++ [r.started] ++ r.listing).Perm
        (r.started :: (r.running ++ r.listing)) := by
      rw [List.append_assoc]
      exact List.perm_middle
    exact hperm.nodup_iff.2 (List.nodup_cons.2 ⟨hnew, h.nodup⟩)
  counted := by
    intro p hp
    obtain ⟨hlt, hle, hout⟩ := h.counted p hp
    refine ⟨hlt.trans (Nat.lt_succ_self _), hle, fun hmem => ?_⟩
    rcases List.mem_append.1 hmem with hmem | hmem
    · exact hout hmem
    · exact hlt.ne (List.mem_singleton.1 hmem)
  once := h.once
  listed := h.listed
  numbers := h.numbers

/-- A run that is out of the lists and later than the ones before stores its result. -/
theorem Inv.store (h : Inv now r) {n : ℕ} (hn : n < r.started)
    (hout : n ∉ r.running ++ r.listing) (hlast : Last r n)
    (hnumbers : ∃ numbers ≤ now, (n, numbers) ∈ r.counted) : Inv now (r.store now n) where
  cached := by
    rintro _ ⟨⟩
    refine ⟨List.mem_cons_self, fun p hp => ?_⟩
    rcases List.mem_cons.1 hp with rfl | hp
    · exact ⟨le_rfl, le_rfl⟩
    · exact ⟨(hlast p hp).1.le, (hlast p hp).2⟩
  stored := fun p _ => ⟨_, rfl⟩
  past := by
    intro p hp
    rcases List.mem_cons.1 hp with rfl | hp
    · exact ⟨le_rfl, hn⟩
    · exact h.past p hp
  live := by
    intro m hm
    refine ⟨(h.live m hm).1, fun p hp => ?_⟩
    rcases List.mem_cons.1 hp with rfl | hp
    · rintro rfl
      exact hout hm
    · exact (h.live m hm).2 p hp
  nodup := h.nodup
  counted := h.counted
  once := h.once
  listed := h.listed
  numbers := by
    intro p hp
    rcases List.mem_cons.1 hp with rfl | hp
    · exact hnumbers
    · exact h.numbers p hp

/-- A run that is counted now is the last of those that have been. -/
theorem turn_count (r : Readings) (now : ℕ) {m n : ℕ} (h : m ≠ n) :
    (r.count now n).turn m = r.turn m ∧ (r.count now n).turn m ≤ (r.count now n).turn n := by
  have hm : (r.count now n).turn m = r.turn m := by
    simp only [Readings.turn, Readings.count]
    rw [List.dropWhile_cons_of_pos (by simpa using Ne.symm h)]
  have hn : (r.count now n).turn n = r.counted.length + 1 := by
    simp only [Readings.turn, Readings.count]
    rw [List.dropWhile_cons_of_neg (by simp), List.length_cons]
  refine ⟨hm, ?_⟩
  rw [hm, hn]
  exact ((List.dropWhile_sublist _).length_le).trans (Nat.le_succ _)

/-- The first process of a run ends, with output or without. -/
theorem Inv.exit (h : Inv now r) {n : ℕ} (hn : n ∈ r.running) :
    Inv now (r.count now n) ∧ Inv now (r.fail n) := by
  have hsub := (List.erase_sublist (a := n) (l := r.running)).append_right r.listing
  have hcounted : ∀ p ∈ r.counted, p.1 < r.started ∧ p.2 ≤ now ∧ p.1 ∉ r.running.erase n :=
    fun p hp => ⟨(h.counted p hp).1, (h.counted p hp).2.1,
      fun hmem => (h.counted p hp).2.2 (List.mem_of_mem_erase hmem)⟩
  have hfail : Inv now (r.fail n) :=
    { h with
      live := fun m hm => h.live m (hsub.mem hm)
      nodup := h.nodup.sublist hsub
      counted := hcounted }
  refine ⟨{ hfail with
    cached := ?_
    counted := ?_
    once := ?_
    listed := ?_
    numbers := ?_ }, hfail⟩
  · intro entry hentry
    obtain ⟨hmem, hlast⟩ := h.cached entry hentry
    have hne := (h.live n (List.mem_append_left _ hn)).2
    refine ⟨hmem, fun p hp => ⟨(hlast p hp).1, ?_⟩⟩
    rw [(turn_count r now (hne p hp)).1, (turn_count r now (hne _ hmem)).1]
    exact (hlast p hp).2
  · intro p hp
    rcases List.mem_cons.1 hp with rfl | hp
    · exact ⟨(h.live n (List.mem_append_left _ hn)).1, le_rfl,
        (List.Nodup.of_append_left h.nodup).not_mem_erase⟩
    · exact hcounted p hp
  · -- the run of a process that is running has not been counted
    have hnew : ∀ p ∈ r.counted, p.1 ≠ n := fun p hp heq => (h.counted p hp).2.2 (heq ▸ hn)
    intro p hp q hq heq
    rcases List.mem_cons.1 hp with rfl | hp <;> rcases List.mem_cons.1 hq with rfl | hq
    · rfl
    · exact absurd heq.symm (hnew q hq)
    · exact absurd heq (hnew p hp)
    · exact h.once p hp q hq heq
  · intro m hm
    obtain ⟨numbers, hle, hmem⟩ := h.listed m hm
    exact ⟨numbers, hle, List.mem_cons_of_mem _ hmem⟩
  · intro p hp
    obtain ⟨numbers, hle, hmem⟩ := h.numbers p hp
    exact ⟨numbers, hle, List.mem_cons_of_mem _ hmem⟩

/-- The second process of a diff ends. -/
theorem Inv.unlist (h : Inv now r) (n : ℕ) : Inv now { r with listing := r.listing.erase n } := by
  have hsub := (List.erase_sublist (a := n) (l := r.listing)).append_left r.running
  exact { h with
    live := fun m hm => h.live m (hsub.mem hm)
    nodup := h.nodup.sublist hsub
    listed := fun m hm => h.listed m (List.mem_of_mem_erase hm) }

/-! ## What is promised of one step -/

theorem Kept.refl (now : ℕ) (r : Readings) : Kept now r r where
  fresh := fun _ h => absurd h.symm (List.cons_ne_self _ _)
  recent := fun _ _ h => absurd h.symm (List.cons_ne_self _ _)
  newer := fun entry h => ⟨entry, h, le_rfl, le_rfl⟩

/-- A step that answers nobody and keeps the cache. -/
theorem Kept.silent (hanswers : r'.answers = r.answers) (hcache : r'.cache = r.cache) :
    Kept now r r' where
  fresh := fun _ h => absurd (hanswers.symm.trans h).symm (List.cons_ne_self _ _)
  recent := fun _ _ h => absurd (hanswers.symm.trans h).symm (List.cons_ne_self _ _)
  newer := fun entry h => ⟨entry, hcache.trans h, le_rfl, le_rfl⟩

theorem Kept.start (now : ℕ) (r : Readings) (fresh : Bool) : Kept now r (r.start fresh) where
  fresh := by
    intro source h
    cases h
    exact Or.inr ⟨_, rfl, le_rfl⟩
  recent := by
    intro _ entry h
    cases h
  newer := fun entry h => ⟨entry, h, le_rfl, le_rfl⟩

/-- The entry that `Timely` speaks of. -/
theorem Timely.of_cached (h : r.cached now = none) : Timely now r := by
  intro entry hentry p _ _ _
  by_contra hage
  rw [Readings.cached, hentry, Option.filter_eq_none_iff] at h
  have hold := h entry rfl
  rw [decide_eq_true_eq] at hold
  unfold cacheTtl at hold hage
  omega

/-- The answer of a call that starts no run is fresh unless a run is shared by force, and recent
unless it is a cached result whose first process ended long ago. -/
theorem Inv.kept_answer (h : Inv now r) {fresh : Bool} {source : Source}
    (hanswers : Answers r now fresh source) :
    Kept now r (r.answer fresh source) ↔
      (fresh = true → ∀ n, source = .run n → r.started ≤ n) ∧
        ∀ entry, source = .cache entry → Timely now r := by
  constructor
  · rintro ⟨hfresh, hrecent, -⟩
    constructor
    · rintro rfl n rfl
      rcases hfresh (.run n) rfl with hnone | ⟨m, hm, hle⟩
      · cases hnone
      · cases hm
        exact hle
    · rintro entry rfl entry' hentry' p hp hrun hold
      obtain ⟨numbers, ended, hnumbers, -, -, -, hyoung⟩ := hrecent fresh entry rfl
      obtain ⟨-, hcached⟩ := hanswers
      rw [Readings.cached, Option.filter_eq_some_iff, hentry'] at hcached
      cases hcached.1
      have heq := h.once p hp _ hnumbers hrun
      rw [heq] at hold
      omega
  · rintro ⟨hshared, htimely⟩
    refine ⟨fun source' heq => ?_, fun fresh' entry heq => ?_,
      fun entry h => ⟨entry, h, le_rfl, le_rfl⟩⟩
    · cases heq
      cases source with
      | none => exact Or.inl rfl
      | cache entry => cases hanswers.1
      | run n => exact Or.inr ⟨n, rfl, hshared rfl n rfl⟩
    · cases heq
      obtain ⟨-, hcached⟩ := hanswers
      rw [Readings.cached, Option.filter_eq_some_iff] at hcached
      obtain ⟨hentry, hage⟩ := hcached
      rw [decide_eq_true_eq] at hage
      have hcompleted := (h.cached entry hentry).1
      have hended := (h.past _ hcompleted).1
      obtain ⟨numbers, hle, hnumbers⟩ := h.numbers _ hcompleted
      refine ⟨numbers, entry.ts, hnumbers, hcompleted, hle, hended, ?_⟩
      by_contra hold
      have := htimely entry rfl entry hentry _ hnumbers rfl (by omega)
      omega

/-- A stored result replaces no later one exactly when no later run has given a result. -/
theorem Inv.kept_store (h : Inv now r) (r₀ : Readings) {n : ℕ} (hanswers : r.answers = r₀.answers)
    (hcache : r.cache = r₀.cache) (hout : ∀ p ∈ r.completed, p.1 ≠ n) :
    Kept now r₀ (r.store now n) ↔ Last r n := by
  constructor
  · rintro ⟨-, -, hnewer⟩ p hp
    obtain ⟨entry, hentry⟩ := h.stored p hp
    obtain ⟨entry', hentry', hle, hturn⟩ := hnewer entry (hcache.symm.trans hentry)
    cases hentry'
    obtain ⟨hrun, hturn'⟩ := (h.cached entry hentry).2 p hp
    exact ⟨lt_of_le_of_ne (hrun.trans hle) (hout p hp), hturn'.trans hturn⟩
  · intro hlast
    have hsilent : Kept now r₀ r := .silent hanswers hcache
    refine ⟨hsilent.fresh, hsilent.recent, fun entry hentry => ⟨_, rfl, ?_⟩⟩
    obtain ⟨hrun, hturn⟩ := hlast _ (h.cached entry (hcache.trans hentry)).1
    exact ⟨hrun.le, hturn⟩

/-! ## The status -/

theorem Single.start (h : Single r) (hidle : r.inFlight = none) (fresh : Bool) :
    Single (r.start fresh) where
  listing := h.listing
  counted := h.counted
  idle := by rintro ⟨⟩
  busy := by
    rintro n ⟨⟩
    obtain ⟨hrunning, hfinishing⟩ := h.idle hidle
    exact ⟨rfl, Or.inl ⟨congrArg (· ++ [r.started]) hrunning, hfinishing⟩⟩

/-- The one run that is on its way. -/
theorem Single.of_running (h : Single r) {n : ℕ} (hn : n ∈ r.running) :
    r.inFlight = some n ∧ n + 1 = r.started ∧ r.running = [n] ∧ r.finishing = [] := by
  cases hflight : r.inFlight with
  | none => rw [(h.idle hflight).1] at hn; cases hn
  | some m =>
    obtain ⟨hm, ⟨hrunning, hfinishing⟩ | ⟨hrunning, -⟩⟩ := h.busy m hflight
    · rw [hrunning, List.mem_singleton] at hn
      subst hn
      exact ⟨rfl, hm, hrunning, hfinishing⟩
    · rw [hrunning] at hn
      cases hn

theorem Single.of_finishing (h : Single r) {n : ℕ} (hn : n ∈ r.finishing) :
    r.running = [] ∧ r.finishing = [n] := by
  cases hflight : r.inFlight with
  | none => rw [(h.idle hflight).2] at hn; cases hn
  | some m =>
    obtain ⟨-, ⟨-, hfinishing⟩ | ⟨hrunning, hfinishing⟩⟩ := h.busy m hflight
    · rw [hfinishing] at hn
      cases hn
    · rw [hfinishing, List.mem_singleton] at hn
      exact ⟨hrunning, hn ▸ hfinishing⟩

/-- A status is as old as its only process. -/
theorem Single.timely (h : Single r) (hinv : Inv now r) : Timely now r := by
  intro entry hentry p hp hrun hold
  have hmem := h.counted _ (hinv.cached entry hentry).1
  rw [hinv.once p hp _ hmem hrun] at hold
  exact hold

/-- The run that is on its way started after all that gave a result, and is counted after
them. -/
theorem Inv.last_of_running (h : Inv now r) {n : ℕ} (hn : n ∈ r.running)
    (hlast : n + 1 = r.started) : Last (r.count now n) n := by
  intro p hp
  have hlt := (h.past p hp).2
  have hne := (h.live n (List.mem_append_left _ hn)).2 p hp
  exact ⟨by omega, (turn_count r now hne).2⟩

theorem statusExited_eq {n : ℕ} {output : Bool} (h : statusExited r now n output = some r') :
    n ∈ r.running ∧ r' = if output then (r.count now n).store now n else r.fail n := by
  rw [statusExited] at h
  by_cases hn : n ∈ r.running
  · rw [if_pos hn] at h
    exact ⟨hn, (Option.some.inj h).symm⟩
  · rw [if_neg hn] at h
    cases h

theorem status_keep (h : Inv now r ∧ Single r) {op : Op} (hstep : statusStep r now op = some r') :
    Inv now r' ∧ Single r' := by
  obtain ⟨hinv, hsingle⟩ := h
  cases op with
  | call repo forceFresh =>
    cases hstep
    rcases getGitStatus_cases r now repo forceFresh with ⟨source, heq, -⟩ | ⟨heq, hidle⟩
    · rw [heq]
      exact ⟨hinv.answer _ _, { hsingle with }⟩
    · rw [heq]
      exact ⟨hinv.start _, hsingle.start hidle _⟩
  | exited n output =>
    obtain ⟨hn, rfl⟩ := statusExited_eq hstep
    obtain ⟨hflight, hlast, hrunning, hfinishing⟩ := hsingle.of_running hn
    have herase : r.running.erase n = [] := by rw [hrunning, List.erase_cons_head]
    have hone : r.finishing ++ [n] = [n] := by rw [hfinishing, List.nil_append]
    have hbusy : ∀ m, r.inFlight = some m → m + 1 = r.started ∧
        (r.running.erase n = [m] ∧ r.finishing ++ [n] = [] ∨
          r.running.erase n = [] ∧ r.finishing ++ [n] = [m]) := by
      intro m hm
      cases hflight.symm.trans hm
      exact ⟨hlast, Or.inr ⟨herase, hone⟩⟩
    have hidle : r.inFlight ≠ none := fun hnone => by cases hflight.symm.trans hnone
    cases output with
    | true =>
      rw [if_pos rfl]
      constructor
      · refine (hinv.exit hn).1.store (hinv.live n (List.mem_append_left _ hn)).1 ?_
          (hinv.last_of_running hn hlast) ⟨now, le_rfl, List.mem_cons_self⟩
        show n ∉ r.running.erase n ++ r.listing
        rw [herase, hsingle.listing]
        exact List.not_mem_nil
      · refine ⟨hsingle.listing, fun p hp => ?_, fun hnone => absurd hnone hidle, hbusy⟩
        rcases List.mem_cons.1 hp with rfl | hp
        · exact List.mem_cons_self
        · exact List.mem_cons_of_mem _ (hsingle.counted p hp)
    | false =>
      rw [if_neg Bool.false_ne_true]
      exact ⟨(hinv.exit hn).2, hsingle.listing, hsingle.counted, fun hnone => absurd hnone hidle,
        hbusy⟩
  | listed n => cases hstep
  | released n =>
    rw [statusStep, released] at hstep
    split_ifs at hstep with hn
    cases hstep
    obtain ⟨hrunning, hfinishing⟩ := hsingle.of_finishing hn
    refine ⟨{ hinv with }, hsingle.listing, hsingle.counted, fun _ => ⟨hrunning, ?_⟩,
      by rintro n ⟨⟩⟩
    rw [hfinishing, List.erase_cons_head]

/-- A step of the status keeps the promises exactly when it shares no run by force. -/
theorem status_kept_iff (h : Inv now r ∧ Single r) {op : Op}
    (hstep : statusStep r now op = some r') :
    Kept now r r' ↔ (op = .call true true → r.inFlight = none) := by
  obtain ⟨hinv, hsingle⟩ := h
  cases op with
  | call repo forceFresh =>
    cases hstep
    rcases getGitStatus_cases r now repo forceFresh with
      ⟨source, heq, hanswers, hnone⟩ | ⟨heq, hidle⟩
    · rw [heq, hinv.kept_answer hanswers]
      constructor
      · rintro ⟨hshared, -⟩ ⟨⟩
        cases source with
        | none => cases hnone.1 rfl
        | cache entry => cases hanswers.1
        | run n =>
          have hlast := (hsingle.busy n hanswers).1
          have hle := hshared rfl n rfl
          omega
      · intro hidle
        refine ⟨?_, fun _ _ => hsingle.timely hinv⟩
        rintro rfl n rfl
        cases repo with
        | false => cases hnone.2 rfl
        | true =>
          have hflight : r.inFlight = some n := hanswers
          rw [hidle rfl] at hflight
          cases hflight
    · rw [heq]
      exact iff_of_true (.start now r forceFresh) fun _ => hidle
  | exited n output =>
    refine iff_of_true ?_ (by rintro ⟨⟩)
    obtain ⟨hn, rfl⟩ := statusExited_eq hstep
    obtain ⟨-, hlast, -⟩ := hsingle.of_running hn
    cases output with
    | true =>
      have hlive := (hinv.live n (List.mem_append_left _ hn)).2
      exact ((hinv.exit hn).1.kept_store r rfl rfl hlive).2 (hinv.last_of_running hn hlast)
    | false => exact .silent rfl rfl
  | listed n => cases hstep
  | released n =>
    refine iff_of_true ?_ (by rintro ⟨⟩)
    rw [statusStep, released] at hstep
    split_ifs at hstep
    cases hstep
    exact .silent rfl rfl

/-! ## The diffs -/

theorem diffExited_eq {n : ℕ} {output : Bool} (h : diffExited r now n output = some r') :
    n ∈ r.running ∧ r' =
      if output then { r.count now n with listing := r.listing ++ [n] } else r.fail n := by
  rw [diffExited] at h
  by_cases hn : n ∈ r.running
  · rw [if_pos hn] at h
    exact ⟨hn, (Option.some.inj h).symm⟩
  · rw [if_neg hn] at h
    cases h

theorem diffListed_eq {n : ℕ} (h : diffListed r now n = some r') :
    n ∈ r.listing ∧ r' = ({ r with listing := r.listing.erase n } : Readings).store now n := by
  rw [diffListed] at h
  split_ifs at h with hn
  cases h
  exact ⟨hn, rfl⟩

/-- A diff that goes on from its first process to the second. -/
theorem Inv.list (h : Inv now r) {n : ℕ} (hn : n ∈ r.running) :
    Inv now { r.count now n with listing := r.listing ++ [n] } := by
  have hperm : (r.running.erase n ++ (r.listing ++ [n])).Perm (r.running ++ r.listing) := by
    rw [← List.append_assoc]
    refine (List.perm_append_singleton n _).trans ?_
    exact (List.perm_cons_erase hn).symm.append_right r.listing
  have hcount := (h.exit hn).1
  refine { hcount with
    live := fun m hm => h.live m (hperm.mem_iff.1 hm)
    nodup := hperm.nodup_iff.2 h.nodup
    listed := fun m hm => ?_ }
  rcases List.mem_append.1 hm with hm | hm
  · exact hcount.listed m hm
  · cases List.mem_singleton.1 hm
    exact ⟨now, le_rfl, List.mem_cons_self⟩

theorem diff_keep (h : Inv now r) {op : Op}
    (hlast : ∀ n, op = .listed n → Last r n)
    (hstep : diffStep r now op = some r') : Inv now r' := by
  cases op with
  | call repo fresh =>
    cases hstep
    rcases getDiffStats_cases r now repo fresh with ⟨source, heq, -⟩ | ⟨heq, -⟩
    · rw [heq]
      exact h.answer _ _
    · rw [heq]
      exact h.start _
  | exited n output =>
    obtain ⟨hn, rfl⟩ := diffExited_eq hstep
    cases output with
    | true => exact h.list hn
    | false => exact (h.exit hn).2
  | listed n =>
    obtain ⟨hn, rfl⟩ := diffListed_eq hstep
    have hlive := h.live n (List.mem_append_right _ hn)
    refine (h.unlist n).store hlive.1 (fun hmem => ?_) (hlast n rfl) (h.listed n hn)
    obtain ⟨-, hlisting, hdisjoint⟩ := List.nodup_append.1 h.nodup
    rcases List.mem_append.1 hmem with hmem | hmem
    · exact hdisjoint n hmem n hn rfl
    · exact (hlisting.mem_erase_iff.1 hmem).1 rfl
  | released n =>
    rw [diffStep, released] at hstep
    split_ifs at hstep
    cases hstep
    exact { h with }

/-- A step of a diff keeps the promises exactly when no result comes after a later one and an
unforced call is timely. -/
theorem diff_kept_iff (h : Inv now r) {op : Op} (hstep : diffStep r now op = some r') :
    Kept now r r' ↔ (∀ n, op = .listed n → Last r n) ∧
      (op = .call true false → Timely now r) := by
  cases op with
  | call repo fresh =>
    cases hstep
    rcases getDiffStats_cases r now repo fresh with
      ⟨source, heq, hanswers, hnone, hsource⟩ | ⟨heq, hstart⟩
    · rw [heq, h.kept_answer hanswers]
      constructor
      · rintro ⟨-, htimely⟩
        refine ⟨by rintro n ⟨⟩, ?_⟩
        rintro ⟨⟩
        rcases hsource with ⟨-, entry, rfl⟩ | ⟨-, hcached⟩
        · exact htimely entry rfl
        · exact .of_cached (hcached rfl)
      · rintro ⟨-, htimely⟩
        constructor
        · rintro rfl n rfl
          cases hnone rfl
        · rintro entry rfl
          rcases hsource with ⟨rfl, -⟩ | ⟨hno, -⟩
          · cases hanswers.1
            exact htimely rfl
          · exact absurd rfl (hno entry)
    · rw [heq]
      refine iff_of_true (.start now r fresh) ⟨by rintro n ⟨⟩, ?_⟩
      rintro ⟨⟩
      exact .of_cached (hstart.resolve_left Bool.false_ne_true)
  | exited n output =>
    obtain ⟨-, rfl⟩ := diffExited_eq hstep
    refine iff_of_true ?_ ⟨by rintro n ⟨⟩, by rintro ⟨⟩⟩
    cases output <;> exact .silent rfl rfl
  | listed n =>
    obtain ⟨hn, rfl⟩ := diffListed_eq hstep
    have hlive := (h.live n (List.mem_append_right _ hn)).2
    rw [(h.unlist n).kept_store r rfl rfl hlive]
    constructor
    · intro hlast
      refine ⟨?_, by rintro ⟨⟩⟩
      rintro m ⟨⟩
      exact hlast
    · exact fun hlast => hlast.1 n rfl
  | released n =>
    refine iff_of_true ?_ ⟨by rintro n ⟨⟩, by rintro ⟨⟩⟩
    rw [diffStep, released] at hstep
    split_ifs at hstep
    cases hstep
    exact .silent rfl rfl

/-! ## Runs -/

/-- What a checkout keeps. -/
structure Checkout.Inv (w : Checkout) : Prop where
  status : GitReadings.Inv w.now w.status ∧ Single w.status
  diff : ∀ key, GitReadings.Inv w.now (w.diff key)

theorem Checkout.Inv.start : Checkout.Inv {} :=
  ⟨⟨.empty 0, .empty⟩, fun _ => .empty 0⟩

variable {w w' : Checkout} {label : Label}

theorem Checkout.Inv.step (h : w.Inv) (horder : InOrder w label)
    (hstep : GitReadings.step w label = some w') : w'.Inv := by
  cases label with
  | pass time =>
    cases hstep
    exact ⟨⟨h.status.1.later time, h.status.2⟩, fun key => (h.diff key).later time⟩
  | status op =>
    rw [GitReadings.step, Option.map_eq_some_iff] at hstep
    obtain ⟨r, hr, rfl⟩ := hstep
    exact ⟨status_keep h.status hr, h.diff⟩
  | diff baseRef op =>
    rw [GitReadings.step, Option.map_eq_some_iff] at hstep
    obtain ⟨r, hr, rfl⟩ := hstep
    refine ⟨h.status, fun key => ?_⟩
    dsimp only
    by_cases hkey : key = cacheKey baseRef
    · subst hkey
      rw [Function.update_self]
      refine diff_keep (h.diff _) ?_ hr
      rintro n rfl
      exact horder
    · rw [Function.update_of_ne hkey]
      exact h.diff key

theorem promised_iff (h : w.Inv) (hstep : step w label = some w') :
    Promised w label w' ↔ InOrder w label := by
  cases label with
  | pass time =>
    cases hstep
    exact iff_of_true ⟨.refl _ _, fun _ => .refl _ _⟩ trivial
  | status op =>
    rw [step, Option.map_eq_some_iff] at hstep
    obtain ⟨r, hr, rfl⟩ := hstep
    have hiff := status_kept_iff h.status hr
    constructor
    · intro hpromised
      have hidle := hiff.1 hpromised.1
      rw [InOrder.eq_def]
      split
      · next heq =>
        cases heq
        exact hidle rfl
      · next heq => cases heq
      · next heq => cases heq
      · trivial
    · intro horder
      refine ⟨hiff.2 ?_, fun _ => .refl _ _⟩
      rintro rfl
      exact horder
  | diff baseRef op =>
    rw [step, Option.map_eq_some_iff] at hstep
    obtain ⟨r, hr, rfl⟩ := hstep
    have hiff := diff_kept_iff (h.diff (cacheKey baseRef)) hr
    constructor
    · intro hpromised
      have hkept := hpromised.2 (cacheKey baseRef)
      dsimp only at hkept
      rw [Function.update_self, hiff] at hkept
      rw [InOrder.eq_def]
      split
      · next heq => cases heq
      · next heq =>
        cases heq
        exact hkept.2 rfl
      · next n heq =>
        cases heq
        exact hkept.1 n rfl
      · trivial
    · intro horder
      refine ⟨.refl _ _, fun key => ?_⟩
      dsimp only
      by_cases hkey : key = cacheKey baseRef
      · subst hkey
        rw [Function.update_self, hiff]
        constructor
        · rintro n rfl
          exact horder
        · rintro rfl
          exact horder
      · rw [Function.update_of_ne hkey]
        exact .refl _ _

/-- **Readings of a checkout.** However calls and runs interleave, forced calls are answered by
runs that start at the call or later, cached results are recent, and no result replaces that of a
later run, exactly when no status is forced while one is in flight, no diff gives a result after
a later one of its key, and no cached diff outlives the numbers in it. -/
theorem readings_iff (labels : List Label) :
    Run.AlongSteps step Promised {} labels ↔ Run.Meets step InOrder {} labels :=
  Run.alongSteps_iff_meets (I := Checkout.Inv) (Q := Promised) (C := InOrder)
    (fun _ _ _ h horder hs => h.step horder hs)
    (fun _ _ _ h hs => promised_iff h hs) .start

/-- A forced status that shares a run from before, two diffs that end in the wrong order, and
numbers that are 7.9 s old when they are served. -/
theorem shared_and_overtaken :
    ¬ Run.AlongSteps step Promised {}
      [.status (.call true false), .status (.call true true)] ∧
    ¬ Run.AlongSteps step Promised {}
      [.diff none (.call true true), .diff none (.call true true), .diff none (.exited 0 true),
        .diff none (.exited 1 true), .diff none (.listed 1), .diff none (.listed 0)] ∧
    ¬ Run.AlongSteps step Promised {}
      [.diff none (.call true false), .diff none (.exited 0 true), .pass 3000,
        .diff none (.listed 0), .pass 4900, .diff none (.call true false)] := by
  refine ⟨?_, ?_, ?_⟩
  · rintro ⟨-, ⟨⟨hfresh, -, -⟩, -⟩, -⟩
    rcases hfresh (.run 0) rfl with hnone | ⟨n, hn, hle⟩
    · cases hnone
    · cases hn
      exact absurd hle (by decide)
  · rintro ⟨-, -, -, -, -, ⟨-, hdiff⟩, -⟩
    obtain ⟨entry, hentry, hle, -⟩ := (hdiff none).newer ⟨0, 1⟩ rfl
    cases hentry
    exact absurd hle (by decide)
  · rintro ⟨-, -, -, -, -, ⟨-, hdiff⟩, -⟩
    obtain ⟨numbers, ended, hnumbers, -, -, -, hyoung⟩ := (hdiff none).recent false ⟨3000, 0⟩ rfl
    cases List.mem_singleton.1 hnumbers
    exact absurd hyoung (by decide)

end GitReadings
end Mullion
