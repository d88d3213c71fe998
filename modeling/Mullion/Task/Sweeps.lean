import Mullion.Lib.Run
import Mullion.Task.Dispatch

/-!
# What the dispatch sweeps owe

What the calls of `dispatchQueuedTasks` are owed, and how far apart the attempts on a task are. A
call that comes while a sweep is on its way starts none, but the sweep reads the queue once more for
it (`Followed`); and after a failed attempt a task is left alone for longer and longer (`Spaced`).
Both are about the log of the sweeps (`SweepMark`), which is kept beside a run of `step` and has the
calls, the snapshots of the queue, and what each attempt came to.

The log only grows at its end, so it is enough to say what one more mark does to either promise
(`FollowedIn.called`, `FollowedIn.snapshot`, `Spaced.concat`). What ties the log to the state is
`SweepInv`: there is one sweep at a time, a call that is not followed yet is one it will read the
queue for, and the map of the back-offs has for each task what the log says of its last attempts
(`BackoffInv`). A segment of a sweep is one lemma (`SweepInv.segment`). The map is bounded, so an
entry may be evicted and its waits are forgotten, which the statement leaves out.
`sweeps_followed_and_spaced` is the result along every run, and `slow_throwing_and_evicting_sweeps`
shows what does not hold.
-/

namespace Mullion
namespace Claim

/-! ## The log -/

inductive SweepMark
  /-- a call of `dispatchQueuedTasks`; the flag says that a sweep was in flight -/
  | called (during : Bool)
  /-- a sweep read the queue -/
  | snapshot
  /-- a sweep threw -/
  | threw
  /-- a sweep dispatched a task -/
  | attempted (taskId time : Nat)
  /-- that dispatch failed, in a sweep that read the clock at `sweptAt` -/
  | failed (taskId sweptAt time : Nat)
  /-- that dispatch succeeded, or the task was given up -/
  | cleared (taskId : Nat)
  /-- the entry of a task made room for another one -/
  | evicted (taskId : Nat)
  deriving DecidableEq, Repr

/-- A world and the log of its sweeps. -/
structure Watch where
  world : World
  log : List SweepMark

/-- The entry that `recordDispatchFailure` evicts. -/
def evictedBy (backoff : List Backoff) (taskId : Nat) : List Nat :=
  if backoff.any (fun b => b.taskId = taskId) ∨ backoff.length < dispatchBackoffMaxEntries then []
  else (backoff.head?.map Backoff.taskId).toList

/-- What a sweep does with the outcome of a dispatch. -/
def outcomeMarks (w : World) (taskId now : Nat) : DispatchTaskOutcome → List SweepMark
  | .ok => [.cleared taskId]
  | .worktreeFailed _ | .spawnFailed _ | .threw =>
    if (giveUpIfOverdue w.db taskId now).2 then [.cleared taskId]
    else (evictedBy w.backoff taskId).map .evicted ++ [.failed taskId now w.now]
  | .cap _ | .placementRefused _ | .notQueued | .blockedHeld _ | .placementHeld _ => []

/-- The dispatch that a segment of a sweep ends with. -/
def attemptMarks (time : Nat) : SweepPc → List SweepMark
  | .waiting _ taskId _ _ => [.attempted taskId time]
  | .starting | .walked | .finished => []

/-- What a segment of a sweep adds to the log. -/
def sweepMarks (w : World) (pc pc' : SweepPc) : List SweepMark :=
  match pc with
  | .starting => .snapshot :: attemptMarks w.now pc'
  | .waiting call taskId _ now =>
    match w.calls[call]? with
    | some (.dispatch (.finished .threw)) => [.threw]
    | some (.dispatch (.finished outcome)) =>
      outcomeMarks w taskId now outcome ++ attemptMarks w.now pc'
    | _ => []
  | .walked | .finished => []

/-- What a step adds to the log. -/
def stepMarks (w w' : World) : Label → List SweepMark
  | .sweep => [.called w.sweepInFlight]
  | .resume call _ =>
    match w.calls[call]?, w'.calls[call]? with
    | some (.sweep pc), some (.sweep pc') => sweepMarks w pc pc'
    | _, _ => []
  | .enqueue .. | .dispatch _ | .retry _ | .tick _ => []

/-- A step, with what it adds to the log. -/
def watch (cfg : Config) (v : Watch) (label : Label) : Option Watch :=
  (step cfg v.world label).map fun w => ⟨w, v.log ++ stepMarks v.world w label⟩

/-! ## What is owed -/

/-- A snapshot or a throw, whichever ends the wait of a call. -/
def SweepMark.ends : SweepMark → Bool
  | .snapshot | .threw => true
  | _ => false

/-- A sweep is in flight that will read the queue again: it is about to, or it will loop. -/
def WillRead (w : World) (during : Bool) : Prop :=
  ∃ (i : Nat) (pc : SweepPc), w.calls[i]? = some (.sweep pc) ∧
    (pc = .starting ∨ (pc ≠ .finished ∧ w.sweepPending = true ∧ during = true))

/-- Every call is followed by a snapshot of the queue. While the sweep it came to is still
in flight it may have to wait; and if it came during a sweep that threw, nothing follows. -/
def Followed (v : Watch) : Prop :=
  ∀ past during rest, v.log = past ++ .called during :: rest →
    rest.find? SweepMark.ends = some .snapshot ∨
    (rest.find? SweepMark.ends = some .threw ∧ during = true) ∨
    (rest.find? SweepMark.ends = none ∧ v.world.sweepInFlight = true ∧
      WillRead v.world during)

/-- One mark more: the failed dispatches of a task without a success, a give-up or an
eviction in between, and the clock of the sweep that recorded the last. -/
def streakStep (taskId : Nat) (acc : Nat × Nat) : SweepMark → Nat × Nat
  | .failed id sweptAt _ => if id = taskId then (acc.1 + 1, sweptAt) else acc
  | .cleared id | .evicted id => if id = taskId then (0, 0) else acc
  | .called _ | .snapshot | .threw | .attempted .. => acc

/-- The streak of failures of a task at the end of a log. -/
def streak (taskId : Nat) (log : List SweepMark) : Nat × Nat :=
  log.foldl (streakStep taskId) (0, 0)

/-- No sweep attempts a task again before the back-off of its streak has passed since the
sweep that recorded the last failure read the clock. -/
def Spaced (log : List SweepMark) : Prop :=
  ∀ past taskId time rest, log = past ++ .attempted taskId time :: rest →
    0 < (streak taskId past).1 →
      (streak taskId past).2 + dispatchBackoffMs (streak taskId past).1 ≤ time

/-! ## The back-off map against the log -/

theorem streak_append (taskId : Nat) (log marks : List SweepMark) :
    streak taskId (log ++ marks) = marks.foldl (streakStep taskId) (streak taskId log) := by
  simp [streak, List.foldl_append]

/-- The entry of a task. -/
def entryOf (backoff : List Backoff) (taskId : Nat) : Option Backoff :=
  backoff.find? fun b => b.taskId = taskId

/-- The map has one entry for each task with a streak, and it says when the streak's
back-off ends. -/
structure BackoffInv (backoff : List Backoff) (log : List SweepMark) : Prop where
  nodup : (backoff.map Backoff.taskId).Nodup
  absent : ∀ taskId, entryOf backoff taskId = none → (streak taskId log).1 = 0
  entry : ∀ taskId b, entryOf backoff taskId = some b → b.attempts = (streak taskId log).1 ∧
    0 < b.attempts ∧ b.nextAttemptAt = (streak taskId log).2 + dispatchBackoffMs b.attempts

theorem backoffInv_nil : BackoffInv [] [] where
  nodup := List.nodup_nil
  absent := by simp [streak]
  entry := by simp [entryOf]

/-- Marks that neither count a failure nor forget one. -/
theorem BackoffInv.frame {backoff : List Backoff} {log marks : List SweepMark}
    (h : BackoffInv backoff log)
    (hm : ∀ m ∈ marks, ∀ taskId acc, streakStep taskId acc m = acc) :
    BackoffInv backoff (log ++ marks) := by
  have hstreak : ∀ taskId, streak taskId (log ++ marks) = streak taskId log := by
    intro taskId
    rw [streak_append]
    generalize streak taskId log = acc
    induction marks with
    | nil => rfl
    | cons m marks ih =>
      rw [List.foldl_cons, hm m List.mem_cons_self]
      exact ih fun m' hm' => hm m' (List.mem_cons_of_mem _ hm')
  exact ⟨h.nodup, fun k hk => hstreak k ▸ h.absent k hk, fun k b hb => hstreak k ▸ h.entry k b hb⟩

theorem entryOf_taskId {backoff : List Backoff} {taskId : Nat} {b : Backoff}
    (h : entryOf backoff taskId = some b) : b.taskId = taskId := by
  simpa [entryOf] using List.find?_some h

theorem entryOf_eq_none_iff {backoff : List Backoff} {taskId : Nat} :
    entryOf backoff taskId = none ↔ taskId ∉ backoff.map Backoff.taskId := by
  simp [entryOf]

/-- A task that may be tried: its back-off is over at `now`. -/
theorem BackoffInv.due {backoff : List Backoff} {log : List SweepMark}
    (h : BackoffInv backoff log) {taskId now : Nat} (hnot : isBackedOff backoff taskId now = false)
    (hpos : 0 < (streak taskId log).1) :
    (streak taskId log).2 + dispatchBackoffMs (streak taskId log).1 ≤ now := by
  rcases Option.eq_none_or_eq_some (entryOf backoff taskId) with hn | ⟨b, hb⟩
  · have := h.absent taskId hn
    omega
  · obtain ⟨hatt, -, hnext⟩ := h.entry taskId b hb
    have hmem : b ∈ backoff := List.mem_of_find?_eq_some hb
    have hb' := List.any_eq_false.1 hnot b hmem
    simp only [entryOf_taskId hb, decide_true, Bool.true_and, decide_eq_true_eq, not_lt] at hb'
    rw [← hatt, ← hnext]
    exact hb'

theorem entryOf_clear (backoff : List Backoff) (taskId id : Nat) :
    entryOf (clearDispatchBackoff backoff taskId) id =
      if id = taskId then none else entryOf backoff id := by
  unfold entryOf clearDispatchBackoff
  induction backoff with
  | nil => simp
  | cons b backoff ih =>
    by_cases hb : b.taskId = taskId
    · rw [List.filter_cons_of_neg (by simpa using hb), ih]
      by_cases hid : id = taskId
      · simp [hid]
      · have : b.taskId ≠ id := fun h => hid (h.symm.trans hb)
        simp [hid, this]
    · rw [List.filter_cons_of_pos (by simpa using hb), List.find?_cons, ih]
      by_cases hid : id = taskId
      · subst hid
        simp [hb]
      · simp [hid, List.find?_cons]

/-- A success, or a give-up. -/
theorem BackoffInv.clear {backoff : List Backoff} {log : List SweepMark}
    (h : BackoffInv backoff log) (taskId : Nat) :
    BackoffInv (clearDispatchBackoff backoff taskId) (log ++ [.cleared taskId]) := by
  refine ⟨?_, fun id hid => ?_, fun id b hb => ?_⟩
  · exact h.nodup.sublist (List.filter_sublist.map _)
  · rw [streak_append]
    by_cases hk : id = taskId
    · simp [streakStep, hk]
    · rw [entryOf_clear, if_neg hk] at hid
      simpa [streakStep, Ne.symm hk] using h.absent id hid
  · rw [entryOf_clear] at hb
    split at hb
    · cases hb
    · rename_i hk
      rw [streak_append]
      simpa [streakStep, Ne.symm hk] using h.entry id b hb

/-- The entry of another task, when one is evicted. -/
theorem entryOf_tail {b : Backoff} {backoff : List Backoff}
    (hnodup : ((b :: backoff).map Backoff.taskId).Nodup) (id : Nat) :
    entryOf backoff id = if id = b.taskId then none else entryOf (b :: backoff) id := by
  rw [List.map_cons, List.nodup_cons] at hnodup
  split
  · rename_i hid
    rw [entryOf_eq_none_iff, hid]
    exact hnodup.1
  · rename_i hid
    simp [entryOf, Ne.symm hid]

/-- An eviction. -/
theorem BackoffInv.evict {b : Backoff} {backoff : List Backoff} {log : List SweepMark}
    (h : BackoffInv (b :: backoff) log) : BackoffInv backoff (log ++ [.evicted b.taskId]) := by
  refine ⟨?_, fun id hid => ?_, fun id e he => ?_⟩
  · exact (List.nodup_cons.1 h.nodup).2
  · rw [streak_append]
    by_cases hk : id = b.taskId
    · simp [streakStep, hk]
    · rw [entryOf_tail h.nodup, if_neg hk] at hid
      simpa [streakStep, Ne.symm hk] using h.absent id hid
  · rw [entryOf_tail h.nodup] at he
    split at he
    · cases he
    · rename_i hk
      rw [streak_append]
      simpa [streakStep, Ne.symm hk] using h.entry id e he

theorem entryOf_concat {backoff : List Backoff} {e : Backoff}
    (hnew : entryOf backoff e.taskId = none) (id : Nat) :
    entryOf (backoff ++ [e]) id = if id = e.taskId then some e else entryOf backoff id := by
  unfold entryOf at hnew ⊢
  rw [List.find?_append]
  by_cases hk : id = e.taskId
  · rw [hk, hnew]
    simp
  · simp [hk, Ne.symm hk]

theorem entryOf_map {backoff : List Backoff} {e prior : Backoff} (he : e.taskId = prior.taskId)
    (hprior : entryOf backoff prior.taskId = some prior) (id : Nat) :
    entryOf (backoff.map fun b => if b.taskId = prior.taskId then e else b) id =
      if id = prior.taskId then some e else entryOf backoff id := by
  have hkey : ∀ b : Backoff, (if b.taskId = prior.taskId then e else b).taskId = b.taskId := by
    intro b
    split
    · rename_i hb
      exact he.trans hb.symm
    · rfl
  have hmap : entryOf (backoff.map fun b => if b.taskId = prior.taskId then e else b) id =
      (entryOf backoff id).map fun b => if b.taskId = prior.taskId then e else b := by
    simp only [entryOf, List.find?_map, Function.comp_def, hkey]
  rw [hmap]
  split
  · rename_i hid
    rw [hid, hprior]
    simp
  · rename_i hid
    rcases Option.eq_none_or_eq_some (entryOf backoff id) with hn | ⟨b, hb⟩
    · rw [hn, Option.map_none]
    · rw [hb, Option.map_some, if_neg]
      rw [entryOf_taskId hb]
      exact hid

/-- A failure, when there is room. -/
theorem BackoffInv.fail {backoff : List Backoff} {log : List SweepMark}
    (h : BackoffInv backoff log) {taskId : Nat} (now time : Nat)
    (hnew : entryOf backoff taskId = none) :
    BackoffInv (backoff ++ [{ taskId, nextAttemptAt := now + dispatchBackoffMs 1, attempts := 1 }])
      (log ++ [.failed taskId now time]) := by
  have hfind := entryOf_concat
    (e := { taskId, nextAttemptAt := now + dispatchBackoffMs 1, attempts := 1 }) hnew
  have hzero := h.absent taskId hnew
  refine ⟨?_, fun id hid => ?_, fun id b hb => ?_⟩
  · rw [List.map_append, List.map_singleton, ← List.concat_eq_append]
    exact List.Nodup.concat (entryOf_eq_none_iff.1 hnew) h.nodup
  · rw [hfind] at hid
    split at hid
    · cases hid
    · rename_i hk
      rw [streak_append]
      simpa [streakStep, Ne.symm hk] using h.absent id hid
  · rw [hfind] at hb
    rw [streak_append]
    split at hb
    · rename_i hk
      cases hb
      simp [streakStep, hk, hzero]
    · rename_i hk
      simpa [streakStep, Ne.symm hk] using h.entry id b hb

/-- One failure more. -/
theorem BackoffInv.failAgain {backoff : List Backoff} {log : List SweepMark}
    (h : BackoffInv backoff log) {prior : Backoff} (now time : Nat)
    (hprior : entryOf backoff prior.taskId = some prior) :
    BackoffInv
      (backoff.map fun b => if b.taskId = prior.taskId then
        { prior with
          nextAttemptAt := now + dispatchBackoffMs (prior.attempts + 1)
          attempts := prior.attempts + 1 } else b)
      (log ++ [.failed prior.taskId now time]) := by
  have hfind := @entryOf_map backoff { prior with
    nextAttemptAt := now + dispatchBackoffMs (prior.attempts + 1)
    attempts := prior.attempts + 1 } prior rfl hprior
  obtain ⟨hatt, -, -⟩ := h.entry _ _ hprior
  refine ⟨?_, fun id hid => ?_, fun id b hb => ?_⟩
  · rw [List.map_map]
    have hsame : backoff.map (Backoff.taskId ∘ fun b => if b.taskId = prior.taskId then
        { prior with
          nextAttemptAt := now + dispatchBackoffMs (prior.attempts + 1)
          attempts := prior.attempts + 1 } else b) = backoff.map Backoff.taskId := by
      refine List.map_congr_left fun b _ => ?_
      rw [Function.comp_apply]
      split
      · rename_i hb
        exact hb.symm
      · rfl
    rw [hsame]
    exact h.nodup
  · rw [hfind] at hid
    split at hid
    · cases hid
    · rename_i hk
      rw [streak_append]
      simpa [streakStep, Ne.symm hk] using h.absent id hid
  · rw [hfind] at hb
    rw [streak_append]
    split at hb
    · rename_i hk
      cases hb
      simp [streakStep, hk, hatt]
    · rename_i hk
      simpa [streakStep, Ne.symm hk] using h.entry id b hb

/-- **`recordDispatchFailure` does what the log says**, its eviction included. -/
theorem BackoffInv.record {backoff : List Backoff} {log : List SweepMark}
    (h : BackoffInv backoff log) (taskId now time : Nat) :
    BackoffInv (recordDispatchFailure backoff taskId now)
      (log ++ ((evictedBy backoff taskId).map .evicted ++ [.failed taskId now time])) := by
  rw [← List.append_assoc]
  unfold recordDispatchFailure evictedBy
  rcases Option.eq_none_or_eq_some (entryOf backoff taskId) with hn | ⟨prior, hp⟩
  · have hany : backoff.any (fun b => b.taskId = taskId) = false := by
      simpa [entryOf] using hn
    have hfind : backoff.find? (fun b => b.taskId = taskId) = none := hn
    simp only [hfind, hany, Bool.false_eq_true, false_or]
    by_cases hfull : backoff.length < dispatchBackoffMaxEntries
    · rw [if_pos hfull, if_neg (by omega)]
      simpa using h.fail now time hn
    · rw [if_neg hfull, if_pos (by omega)]
      cases backoff with
      | nil => simp [dispatchBackoffMaxEntries] at hfull
      | cons b backoff =>
        simp only [List.tail_cons, List.head?_cons, Option.map_some, Option.toList_some,
          List.map_singleton]
        refine h.evict.fail now time ?_
        rw [entryOf_tail h.nodup, hn]
        simp
  · have hany : backoff.any (fun b => b.taskId = taskId) = true :=
      List.any_eq_true.2 ⟨prior, List.mem_of_find?_eq_some hp, by simp [entryOf_taskId hp]⟩
    have hfind : backoff.find? (fun b => b.taskId = taskId) = some prior := hp
    obtain rfl := entryOf_taskId hp
    simp only [hfind, hany, true_or, if_true, List.map_nil, List.append_nil]
    exact h.failAgain now time hp

/-- The map after the outcome of a dispatch. -/
theorem BackoffInv.outcome {w : World} {log : List SweepMark} (h : BackoffInv w.backoff log)
    (taskId now : Nat) (outcome : DispatchTaskOutcome) :
    BackoffInv (sweepOutcome w taskId now outcome).1.backoff
      (log ++ outcomeMarks w taskId now outcome) := by
  cases outcome with
  | ok => exact h.clear taskId
  | notQueued | cap | placementRefused | blockedHeld | placementHeld =>
    simpa [sweepOutcome, outcomeMarks] using h
  | worktreeFailed | spawnFailed | threw =>
    rcases hg : giveUpIfOverdue w.db taskId now with ⟨db, gaveUp⟩
    cases gaveUp with
    | true => simpa [sweepOutcome, outcomeMarks, hg] using h.clear taskId
    | false => simpa [sweepOutcome, outcomeMarks, hg] using h.record taskId now w.now

/-! ## One more mark -/

/-- Where the last mark of a log stands. -/
theorem concat_split {log past rest : List SweepMark} {m x : SweepMark}
    (h : log ++ [m] = past ++ x :: rest) :
    (rest = [] ∧ past = log ∧ x = m) ∨
      ∃ rest', rest = rest' ++ [m] ∧ log = past ++ x :: rest' := by
  rcases List.eq_nil_or_concat rest with rfl | ⟨rest', m', rfl⟩
  · obtain ⟨hlog, hm⟩ := List.append_inj' h rfl
    exact .inl ⟨rfl, hlog.symm, (List.singleton_inj.1 hm).symm⟩
  · rw [List.concat_eq_append, ← List.cons_append, ← List.append_assoc] at h
    obtain ⟨hlog, hm⟩ := List.append_inj' h rfl
    exact .inr ⟨rest', by rw [List.concat_eq_append, List.singleton_inj.1 hm], hlog⟩

theorem spaced_nil : Spaced [] := by
  intro past taskId time rest h
  simp at h

theorem Spaced.concat {log : List SweepMark} (h : Spaced log) {m : SweepMark}
    (hm : ∀ taskId time, m = .attempted taskId time → 0 < (streak taskId log).1 →
      (streak taskId log).2 + dispatchBackoffMs (streak taskId log).1 ≤ time) :
    Spaced (log ++ [m]) := by
  intro past taskId time rest heq hpos
  rcases concat_split heq with ⟨-, rfl, hx⟩ | ⟨rest', -, hlog⟩
  · exact hm taskId time hx.symm hpos
  · exact h past taskId time rest' hlog hpos

theorem Spaced.append {log marks : List SweepMark} (h : Spaced log)
    (hm : ∀ m ∈ marks, ∀ taskId time, m ≠ .attempted taskId time) : Spaced (log ++ marks) := by
  induction marks generalizing log with
  | nil => simpa using h
  | cons m marks ih =>
    rw [← List.singleton_append, ← List.append_assoc]
    refine ih (h.concat fun taskId time heq => ?_) fun m' hm' => hm m' (List.mem_cons_of_mem _ hm')
    exact absurd heq (hm m List.mem_cons_self taskId time)

/-- The calls of a log, when a call that still waits satisfies `wait`. -/
def FollowedIn (log : List SweepMark) (wait : Bool → Prop) : Prop :=
  ∀ past during rest, log = past ++ .called during :: rest →
    rest.find? SweepMark.ends = some .snapshot ∨
    (rest.find? SweepMark.ends = some .threw ∧ during = true) ∨
    (rest.find? SweepMark.ends = none ∧ wait during)

theorem followedIn_nil (wait : Bool → Prop) : FollowedIn [] wait := by
  intro past during rest h
  simp at h

theorem FollowedIn.mono {log : List SweepMark} {wait wait' : Bool → Prop}
    (h : FollowedIn log wait) (hw : ∀ d, wait d → wait' d) : FollowedIn log wait' := by
  intro past during rest heq
  rcases h past during rest heq with h | h | ⟨h, hd⟩
  · exact .inl h
  · exact .inr (.inl h)
  · exact .inr (.inr ⟨h, hw during hd⟩)

/-- A mark that ends no wait and is no call. -/
theorem FollowedIn.quiet {log : List SweepMark} {wait : Bool → Prop} (h : FollowedIn log wait)
    {m : SweepMark} (hends : m.ends = false) (hcall : ∀ d, m ≠ .called d) :
    FollowedIn (log ++ [m]) wait := by
  intro past during rest heq
  rcases concat_split heq with ⟨-, -, hx⟩ | ⟨rest', rfl, hlog⟩
  · exact absurd hx.symm (hcall during)
  · rw [List.find?_append]
    simpa [hends] using h past during rest' hlog

theorem FollowedIn.append {log marks : List SweepMark} {wait : Bool → Prop}
    (h : FollowedIn log wait)
    (hm : ∀ m ∈ marks, m.ends = false ∧ ∀ d, m ≠ .called d) : FollowedIn (log ++ marks) wait := by
  induction marks generalizing log with
  | nil => simpa using h
  | cons m marks ih =>
    obtain ⟨hends, hcall⟩ := hm m List.mem_cons_self
    rw [← List.singleton_append, ← List.append_assoc]
    exact ih (h.quiet hends hcall) fun m' hm' => hm m' (List.mem_cons_of_mem _ hm')

/-- A snapshot ends every wait. -/
theorem FollowedIn.snapshot {log : List SweepMark} {wait : Bool → Prop}
    (h : FollowedIn log wait) (wait' : Bool → Prop) : FollowedIn (log ++ [.snapshot]) wait' := by
  intro past during rest heq
  rcases concat_split heq with ⟨-, -, hx⟩ | ⟨rest', rfl, hlog⟩
  · cases hx
  · rw [List.find?_append]
    rcases h past during rest' hlog with h | ⟨h, hd⟩ | ⟨h, -⟩
    · simp [h]
    · simp [h, hd]
    · simp [h, SweepMark.ends]

/-- A throw ends the wait of those who came during the sweep. -/
theorem FollowedIn.threw {log : List SweepMark} {wait : Bool → Prop} (h : FollowedIn log wait)
    (hd : ∀ d, wait d → d = true) (wait' : Bool → Prop) : FollowedIn (log ++ [.threw]) wait' := by
  intro past during rest heq
  rcases concat_split heq with ⟨-, -, hx⟩ | ⟨rest', rfl, hlog⟩
  · cases hx
  · rw [List.find?_append]
    rcases h past during rest' hlog with h | ⟨h, hd'⟩ | ⟨h, hwait⟩
    · simp [h]
    · simp [h, hd']
    · simp [h, SweepMark.ends, hd during hwait]

/-- A call that may wait. -/
theorem FollowedIn.called {log : List SweepMark} {wait : Bool → Prop} (h : FollowedIn log wait)
    {d : Bool} (hd : wait d) : FollowedIn (log ++ [.called d]) wait := by
  intro past during rest heq
  rcases concat_split heq with ⟨rfl, -, hx⟩ | ⟨rest', rfl, hlog⟩
  · cases hx
    exact .inr (.inr ⟨rfl, hd⟩)
  · rw [List.find?_append]
    simpa [SweepMark.ends] using h past during rest' hlog

/-! ## Segments of a sweep -/

/-- How a stretch of the loop ends: the queue is walked, or a task is dispatched whose
back-off was over when the sweep read the clock. -/
def LoopEnd (backoff : List Backoff) (now : Nat) (pc : SweepPc) : Prop :=
  pc = .walked ∨ ∃ call taskId queue, pc = .waiting call taskId queue now ∧
    isBackedOff backoff taskId now = false

theorem sweepLoop_end {cfg : Config} {w w' : World} {now : Nat} {queue : List Nat}
    {pc : SweepPc} (h : sweepLoop cfg w now queue = (w', pc)) :
    w'.now = w.now ∧ w'.sweepInFlight = w.sweepInFlight ∧ w'.sweepPending = w.sweepPending ∧
      w'.backoff = w.backoff ∧ LoopEnd w.backoff now pc := by
  induction queue with
  | nil =>
    cases h
    exact ⟨rfl, rfl, rfl, rfl, .inl rfl⟩
  | cons taskId queue ih =>
    rw [sweepLoop] at h
    split at h
    · exact ih h
    · rename_i hnot
      split at h
      · cases h
        exact ⟨rfl, rfl, rfl, rfl, .inl rfl⟩
      · cases h
        exact ⟨rfl, rfl, rfl, rfl, .inr ⟨_, _, _, rfl, by simpa using hnot⟩⟩

/-- The outcome of a dispatch touches neither the flags nor the clock. -/
theorem sweepOutcome_frame (w : World) (taskId now : Nat) (outcome : DispatchTaskOutcome) :
    (sweepOutcome w taskId now outcome).1.sweepInFlight = w.sweepInFlight ∧
      (sweepOutcome w taskId now outcome).1.sweepPending = w.sweepPending ∧
      (sweepOutcome w taskId now outcome).1.now = w.now := by
  cases outcome with
  | worktreeFailed | spawnFailed | threw =>
    simp only [sweepOutcome]
    rcases giveUpIfOverdue w.db taskId now with ⟨db, gaveUp⟩
    cases gaveUp <;> exact ⟨rfl, rfl, rfl⟩
  | ok | notQueued | cap | placementRefused | blockedHeld | placementHeld => exact ⟨rfl, rfl, rfl⟩

/-- What a segment of a sweep does to the flags, the clock, the back-offs and the log. -/
structure Segment (w w' : World) (pc pc' : SweepPc) : Prop where
  now : w'.now = w.now
  kind :
    (pc = .starting ∧ w'.sweepInFlight = w.sweepInFlight ∧ w'.sweepPending = false ∧
      w'.backoff = w.backoff ∧ LoopEnd w.backoff w.now pc' ∧
      sweepMarks w pc pc' = .snapshot :: attemptMarks w.now pc') ∨
    (∃ call taskId queue now, pc = .waiting call taskId queue now ∧ pc' = .finished ∧
      w'.sweepInFlight = false ∧ w'.backoff = w.backoff ∧ sweepMarks w pc pc' = [.threw]) ∨
    (∃ call taskId queue now outcome, pc = .waiting call taskId queue now ∧
      w'.sweepInFlight = w.sweepInFlight ∧ w'.sweepPending = w.sweepPending ∧
      w'.backoff = (sweepOutcome w taskId now outcome).1.backoff ∧
      LoopEnd w'.backoff now pc' ∧
      sweepMarks w pc pc' = outcomeMarks w taskId now outcome ++ attemptMarks w.now pc') ∨
    (pc = .walked ∧ pc' = .starting ∧ w.sweepPending = true ∧ w'.backoff = w.backoff ∧
      w'.sweepInFlight = w.sweepInFlight ∧ sweepMarks w pc pc' = []) ∨
    (pc = .walked ∧ pc' = .finished ∧ w.sweepPending = false ∧ w'.backoff = w.backoff ∧
      w'.sweepInFlight = false ∧ sweepMarks w pc pc' = [])

theorem sweepResume_segment {cfg : Config} {w w' : World} {pc pc' : SweepPc} {a : Answer}
    (h : sweepResume cfg w pc a = some (w', pc')) : Segment w w' pc pc' := by
  unfold sweepResume at h
  split at h
  · simp only [Option.some.injEq] at h
    obtain ⟨hnow, hin, hpend, hbk, hend⟩ := sweepLoop_end h
    exact ⟨hnow, .inl ⟨rfl, hin, hpend, hbk, hend, rfl⟩⟩
  · rename_i call taskId queue now
    split at h
    · rename_i hcall
      cases h
      exact ⟨rfl, .inr (.inl ⟨call, taskId, queue, now, rfl, rfl, rfl, rfl,
        by simp [sweepMarks, hcall]⟩)⟩
    · rename_i outcome hne hcall
      obtain ⟨hin, hpend, hnow⟩ := sweepOutcome_frame w taskId now outcome
      have hmarks : ∀ p, sweepMarks w (.waiting call taskId queue now) p =
          outcomeMarks w taskId now outcome ++ attemptMarks w.now p := by
        intro p
        cases outcome with
        | threw => exact absurd rfl hne
        | _ => simp [sweepMarks, hcall]
      split at h
      · rename_i w₁ hw₁
        rw [hw₁] at hin hpend hnow
        simp only [Option.some.injEq] at h
        obtain ⟨hnow', hin', hpend', hbk, hend⟩ := sweepLoop_end h
        exact ⟨hnow'.trans hnow, .inr (.inr (.inl ⟨call, taskId, queue, now, outcome, rfl,
          hin'.trans hin, hpend'.trans hpend, by rw [hbk, hw₁], hbk ▸ hend, hmarks pc'⟩))⟩
      · rename_i w₁ hw₁
        rw [hw₁] at hin hpend hnow
        cases h
        exact ⟨hnow, .inr (.inr (.inl ⟨call, taskId, queue, now, outcome, rfl, hin, hpend,
          by rw [hw₁], .inl rfl, hmarks _⟩))⟩
    · cases h
  · split at h
    · rename_i hp
      cases h
      exact ⟨rfl, .inr (.inr (.inr (.inl ⟨rfl, rfl, hp, rfl, rfl, rfl⟩)))⟩
    · rename_i hp
      cases h
      exact ⟨rfl, .inr (.inr (.inr (.inr ⟨rfl, rfl, by simpa using hp, rfl, rfl, rfl⟩)))⟩
  · cases h

/-! ## The invariant -/

/-- One sweep at a time; what it waits for; and what the log is owed. -/
structure SweepInv (v : Watch) : Prop where
  idle : v.world.sweepInFlight = false →
    ∀ (i : Nat) pc, v.world.calls[i]? = some (.sweep pc) → pc = .finished
  busy : v.world.sweepInFlight = true → ∃ (i : Nat) (pc : SweepPc),
    v.world.calls[i]? = some (.sweep pc) ∧ pc ≠ .finished ∧
      ∀ (j : Nat) pc', v.world.calls[j]? = some (.sweep pc') → pc' ≠ .finished → j = i
  clock : ∀ (i : Nat) call taskId queue now,
    v.world.calls[i]? = some (.sweep (.waiting call taskId queue now)) → now ≤ v.world.now
  backoff : BackoffInv v.world.backoff v.log
  followed : FollowedIn v.log (WillRead v.world)
  spaced : Spaced v.log

theorem sweepInv_start {w : World} (hcalls : w.calls = []) (hflight : w.sweepInFlight = false)
    (hbackoff : w.backoff = []) : SweepInv ⟨w, []⟩ where
  idle := by simp [hcalls]
  busy := by simp [hflight]
  clock := by simp [hcalls]
  backoff := hbackoff ▸ backoffInv_nil
  followed := followedIn_nil _
  spaced := spaced_nil

theorem SweepInv.owed {v : Watch} (h : SweepInv v) : Followed v := by
  refine FollowedIn.mono h.followed fun d hd => ⟨?_, hd⟩
  obtain ⟨i, pc, hi, hpc⟩ := hd
  by_contra hflight
  have hfin := h.idle (by simpa using hflight) i pc hi
  rcases hpc with rfl | ⟨hne, -⟩
  · cases hfin
  · exact hne hfin

/-- A step that leaves the sweeps, their memory and the log alone. -/
theorem SweepInv.frame {v : Watch} (h : SweepInv v) {w : World}
    (hcalls : ∀ (i : Nat) pc, w.calls[i]? = some (.sweep pc) ↔
      v.world.calls[i]? = some (.sweep pc))
    (hflight : w.sweepInFlight = v.world.sweepInFlight)
    (hpending : w.sweepPending = v.world.sweepPending) (hbackoff : w.backoff = v.world.backoff)
    (hnow : v.world.now ≤ w.now) : SweepInv ⟨w, v.log⟩ where
  idle := by
    intro hf i pc hi
    exact h.idle (hflight ▸ hf) i pc ((hcalls i pc).1 hi)
  busy := by
    intro hf
    obtain ⟨i, pc, hi, hne, huniq⟩ := h.busy (hflight ▸ hf)
    exact ⟨i, pc, (hcalls i pc).2 hi, hne, fun j pc' hj => huniq j pc' ((hcalls j pc').1 hj)⟩
  clock := by
    intro i call taskId queue now hi
    exact (h.clock i call taskId queue now ((hcalls i _).1 hi)).trans hnow
  backoff := by
    change BackoffInv w.backoff v.log
    rw [hbackoff]
    exact h.backoff
  followed := by
    refine h.followed.mono fun d ⟨i, pc, hi, hpc⟩ => ⟨i, pc, (hcalls i pc).2 hi, ?_⟩
    rw [hpending]
    exact hpc
  spaced := h.spaced

/-- Another kind of call was added. -/
theorem sweep_getElem?_append {calls : List Call} {c : Call} (hc : ∀ pc, c ≠ .sweep pc) (i : Nat)
    (pc : SweepPc) : (calls ++ [c])[i]? = some (.sweep pc) ↔ calls[i]? = some (.sweep pc) := by
  rcases Nat.lt_or_ge i calls.length with hi | hi
  · rw [List.getElem?_append_left hi]
  · rw [List.getElem?_append_right hi]
    constructor
    · intro h
      have := List.mem_of_getElem? h
      exact absurd (List.mem_singleton.1 this).symm (hc pc)
    · intro h
      rw [List.getElem?_eq_none hi] at h
      cases h

/-- A call of another kind moved on. -/
theorem sweep_getElem?_set {calls : List Call} {c c' : Call} {k : Nat} (hk : calls[k]? = some c)
    (hc : ∀ pc, c ≠ .sweep pc) (hc' : ∀ pc, c' ≠ .sweep pc) (i : Nat) (pc : SweepPc) :
    (calls.set k c')[i]? = some (.sweep pc) ↔ calls[i]? = some (.sweep pc) := by
  by_cases hik : k = i
  · subst hik
    obtain ⟨hlt, -⟩ := List.getElem?_eq_some_iff.1 hk
    rw [List.getElem?_set_self hlt, hk, Option.some.injEq, Option.some.injEq]
    exact iff_of_false (hc' pc) (hc pc)
  · rw [List.getElem?_set_ne hik]

/-- A sweep moved on, and may have started a dispatch. -/
theorem sweep_getElem?_resume {calls calls' : List Call} {pc : SweepPc} (pc' : SweepPc) {k : Nat}
    (hk : calls[k]? = some (.sweep pc))
    (hcalls : calls' = calls ∨ ∃ d, calls' = calls ++ [.dispatch d]) (i : Nat) (p : SweepPc) :
    (calls'.set k (.sweep pc'))[i]? = some (.sweep p) ↔
      (i = k ∧ p = pc') ∨ (i ≠ k ∧ calls[i]? = some (.sweep p)) := by
  obtain ⟨hlt, -⟩ := List.getElem?_eq_some_iff.1 hk
  have hlt' : k < calls'.length := by
    rcases hcalls with rfl | ⟨d, rfl⟩
    · exact hlt
    · rw [List.length_append]
      omega
  by_cases hik : i = k
  · subst hik
    rw [List.getElem?_set_self hlt']
    simp [eq_comm]
  · rw [List.getElem?_set_ne (Ne.symm hik)]
    have hsame : calls'[i]? = some (.sweep p) ↔ calls[i]? = some (.sweep p) := by
      rcases hcalls with rfl | ⟨d, rfl⟩
      · exact Iff.rfl
      · exact sweep_getElem?_append (by simp) i p
    simp [hik, hsame]

/-- The marks of an outcome are about the streaks only. -/
theorem outcomeMarks_quiet (w : World) (taskId now : Nat) (outcome : DispatchTaskOutcome) :
    ∀ m ∈ outcomeMarks w taskId now outcome, m.ends = false ∧ (∀ d, m ≠ .called d) ∧
      ∀ id time, m ≠ .attempted id time := by
  intro m hm
  cases outcome with
  | notQueued | cap | placementRefused | blockedHeld | placementHeld =>
    simp [outcomeMarks] at hm
  | ok =>
    simp only [outcomeMarks, List.mem_singleton] at hm
    subst hm
    simp [SweepMark.ends]
  | worktreeFailed | spawnFailed | threw =>
    simp only [outcomeMarks] at hm
    split at hm
    · rw [List.mem_singleton.1 hm]
      simp [SweepMark.ends]
    · simp only [List.mem_append, List.mem_map, List.mem_singleton] at hm
      rcases hm with ⟨id, -, rfl⟩ | rfl <;> simp [SweepMark.ends]

/-- The dispatch at the end of a stretch, against the log so far. -/
theorem attempt_due {backoff : List Backoff} {log : List SweepMark} (h : BackoffInv backoff log)
    (hs : Spaced log) {now time : Nat} (hnow : now ≤ time) {pc : SweepPc}
    (hend : LoopEnd backoff now pc) :
    BackoffInv backoff (log ++ attemptMarks time pc) ∧ Spaced (log ++ attemptMarks time pc) ∧
      ∀ wait, FollowedIn log wait → FollowedIn (log ++ attemptMarks time pc) wait := by
  rcases hend with rfl | ⟨call, taskId, queue, rfl, hnot⟩
  · simpa [attemptMarks] using ⟨h, hs⟩
  · refine ⟨h.frame ?_, hs.concat ?_, fun wait hf => hf.quiet rfl (by simp)⟩
    · intro m hm id acc
      rw [List.mem_singleton.1 hm]
      rfl
    · rintro id t ⟨⟩ hpos
      exact (h.due hnot hpos).trans hnow

/-- **A segment of a sweep keeps the invariant.** -/
theorem SweepInv.segment {v : Watch} (h : SweepInv v) {w : World} {pc pc' : SweepPc} {k : Nat}
    (hk : v.world.calls[k]? = some (.sweep pc)) (hseg : Segment v.world w pc pc')
    (hpc : pc ≠ .finished)
    (hcalls : w.calls = v.world.calls ∨ ∃ d, w.calls = v.world.calls ++ [.dispatch d]) :
    SweepInv ⟨{ w with calls := w.calls.set k (.sweep pc') },
      v.log ++ sweepMarks v.world pc pc'⟩ := by
  have hat := sweep_getElem?_resume pc' hk hcalls
  -- the sweep that moves is the one in flight
  have hflight : v.world.sweepInFlight = true := by
    by_contra hf
    exact hpc (h.idle (by simpa using hf) k pc hk)
  obtain ⟨i, p, hi, hp, huniq⟩ := h.busy hflight
  have hik : k = i := huniq k pc hk hpc
  subst hik
  have hothers : ∀ (j : Nat) q, (w.calls.set k (.sweep pc'))[j]? = some (.sweep q) →
      q ≠ .finished → j = k := by
    intro j q hj hq
    rcases (hat j q).1 hj with ⟨hjk, -⟩ | ⟨hjk, hj⟩
    · exact hjk
    · exact huniq j q hj hq
  have hclock : ∀ now, (∀ call taskId queue t, pc' = .waiting call taskId queue t → t = now) →
      now ≤ w.now → ∀ (j : Nat) call taskId queue t,
        (w.calls.set k (.sweep pc'))[j]? = some (.sweep (.waiting call taskId queue t)) →
        t ≤ w.now := by
    intro now hnow hle j call taskId queue t hj
    rcases (hat j _).1 hj with ⟨-, heq⟩ | ⟨-, hj⟩
    · rw [hnow call taskId queue t heq.symm]
      exact hle
    · rw [hseg.now]
      exact h.clock j call taskId queue t hj
  have hbusy : pc' ≠ .finished → ∃ (i : Nat) (q : SweepPc),
      (w.calls.set k (.sweep pc'))[i]? = some (.sweep q) ∧ q ≠ .finished ∧
        ∀ (j : Nat) q', (w.calls.set k (.sweep pc'))[j]? = some (.sweep q') → q' ≠ .finished →
          j = i :=
    fun hne => ⟨k, pc', (hat k pc').2 (.inl ⟨rfl, rfl⟩), hne, hothers⟩
  -- who waits, waits for this sweep
  have hwait : ∀ d, WillRead v.world d → pc = .starting ∨
      (v.world.sweepPending = true ∧ d = true) := by
    rintro d ⟨j, q, hj, hq⟩
    have hjk : j = k := by
      rcases hq with rfl | ⟨hne, -⟩
      · exact huniq j _ hj (by simp)
      · exact huniq j q hj hne
    subst hjk
    rw [hk, Option.some.injEq, Call.sweep.injEq] at hj
    subst hj
    rcases hq with hq | ⟨-, hq⟩
    · exact .inl hq
    · exact .inr hq
  have hend_ne : ∀ {backoff now}, LoopEnd backoff now pc' → pc' ≠ .finished := by
    rintro backoff now (rfl | ⟨_, _, _, rfl, -⟩) <;> simp
  have hend_clock : ∀ {backoff now}, LoopEnd backoff now pc' →
      ∀ call taskId queue t, pc' = .waiting call taskId queue t → t = now := by
    rintro backoff now (rfl | ⟨_, _, _, rfl, -⟩) call taskId queue t heq
    · cases heq
    · cases heq
      rfl
  rcases hseg.kind with ⟨rfl, hin, hpend, hbk, hend, hmarks⟩ |
    ⟨call, taskId, queue, now, rfl, rfl, hin, hbk, hmarks⟩ |
    ⟨call, taskId, queue, now, outcome, rfl, hin, hpend, hbk, hend, hmarks⟩ |
    ⟨rfl, rfl, hpend, hbk, hin, hmarks⟩ | ⟨rfl, rfl, hpend, hbk, hin, hmarks⟩
  · -- the snapshot, and the first stretch of the loop
    have hsnap : BackoffInv v.world.backoff (v.log ++ [.snapshot]) := h.backoff.frame fun m hm => by
      rw [List.mem_singleton.1 hm]
      intro _ _
      rfl
    obtain ⟨hb, hs, hf⟩ := attempt_due hsnap (h.spaced.concat (by simp)) (Nat.le_refl _) hend
    have hlog : v.log ++ sweepMarks v.world .starting pc' =
        v.log ++ [.snapshot] ++ attemptMarks v.world.now pc' := by
      rw [hmarks, List.append_assoc]
      rfl
    rw [hlog]
    refine ⟨fun hf' => ?_, fun _ => hbusy (hend_ne hend), ?_, ?_, hf _ (h.followed.snapshot _), hs⟩
    · rw [show w.sweepInFlight = true from hin.trans hflight] at hf'
      cases hf'
    · exact hclock v.world.now (hend_clock hend) (Nat.le_of_eq hseg.now.symm)
    · change BackoffInv w.backoff _
      rw [hbk]
      exact hb
  · -- the throw
    rw [hmarks]
    refine ⟨fun _ j q hj => ?_, fun hf' => ?_, ?_, ?_, h.followed.threw ?_ _, h.spaced.concat ?_⟩
    · by_contra hq
      rcases (hat j q).1 hj with ⟨-, rfl⟩ | ⟨hjk, hj⟩
      · exact hq rfl
      · exact hjk (huniq j q hj hq)
    · rw [hin] at hf'
      cases hf'
    · exact hclock w.now (by simp) (Nat.le_refl _)
    · change BackoffInv w.backoff _
      rw [hbk]
      refine h.backoff.frame fun m hm => ?_
      rw [List.mem_singleton.1 hm]
      intro _ _
      rfl
    · intro d hd
      rcases hwait d hd with hpc' | ⟨-, hd⟩
      · cases hpc'
      · exact hd
    · simp
  · -- the outcome, and the next stretch of the loop
    have hb₁ := h.backoff.outcome taskId now outcome
    rw [← hbk] at hb₁
    have hquiet := outcomeMarks_quiet v.world taskId now outcome
    have hs₁ := h.spaced.append fun m hm => (hquiet m hm).2.2
    have hf₁ : FollowedIn (v.log ++ outcomeMarks v.world taskId now outcome)
        (WillRead { w with calls := w.calls.set k (.sweep pc') }) := by
      refine (h.followed.append fun m hm => ⟨(hquiet m hm).1, (hquiet m hm).2.1⟩).mono ?_
      intro d hd
      rcases hwait d hd with hpc' | ⟨hp', hd⟩
      · cases hpc'
      · exact ⟨k, pc', (hat k pc').2 (.inl ⟨rfl, rfl⟩),
          .inr ⟨hend_ne hend, hpend.trans hp', hd⟩⟩
    have hle := h.clock k call taskId queue now hk
    obtain ⟨hb, hs, hf⟩ := attempt_due hb₁ hs₁ hle hend
    have hlog : v.log ++ sweepMarks v.world (.waiting call taskId queue now) pc' =
        v.log ++ outcomeMarks v.world taskId now outcome ++ attemptMarks v.world.now pc' := by
      rw [hmarks, List.append_assoc]
    rw [hlog]
    refine ⟨fun hf' => ?_, fun _ => hbusy (hend_ne hend), ?_, hb, hf _ hf₁, hs⟩
    · rw [show w.sweepInFlight = true from hin.trans hflight] at hf'
      cases hf'
    · exact hclock now (hend_clock hend) (hseg.now.symm ▸ hle)
  · -- the loop goes round
    rw [hmarks, List.append_nil]
    refine ⟨fun hf' => ?_, fun _ => hbusy (by simp), ?_, ?_, ?_, h.spaced⟩
    · rw [show w.sweepInFlight = true from hin.trans hflight] at hf'
      cases hf'
    · exact hclock w.now (by simp) (Nat.le_refl _)
    · change BackoffInv w.backoff _
      rw [hbk]
      exact h.backoff
    · exact h.followed.mono fun d _ =>
        ⟨k, .starting, (hat k .starting).2 (.inl ⟨rfl, rfl⟩), .inl rfl⟩
  · -- nobody came during the last pass
    rw [hmarks, List.append_nil]
    refine ⟨fun _ j q hj => ?_, fun hf' => ?_, ?_, ?_, ?_, h.spaced⟩
    · by_contra hq
      rcases (hat j q).1 hj with ⟨-, rfl⟩ | ⟨hjk, hj⟩
      · exact hq rfl
      · exact hjk (huniq j q hj hq)
    · rw [hin] at hf'
      cases hf'
    · exact hclock w.now (by simp) (Nat.le_refl _)
    · change BackoffInv w.backoff _
      rw [hbk]
      exact h.backoff
    · refine h.followed.mono fun d hd => ?_
      rcases hwait d hd with hpc' | ⟨hp', -⟩
      · cases hpc'
      · rw [hpend] at hp'
        cases hp'

/-- A call while a sweep is in flight: the sweep will loop. -/
theorem SweepInv.calledDuring {v : Watch} (h : SweepInv v)
    (hflight : v.world.sweepInFlight = true) :
    SweepInv ⟨{ v.world with sweepPending := true }, v.log ++ [.called true]⟩ where
  idle := by simp [hflight]
  busy := fun _ => h.busy hflight
  clock := h.clock
  backoff := h.backoff.frame fun m hm => by
    rw [List.mem_singleton.1 hm]
    intro _ _
    rfl
  followed := by
    obtain ⟨i, pc, hi, hne, -⟩ := h.busy hflight
    refine (h.followed.mono fun d ⟨j, q, hj, hq⟩ => ⟨j, q, hj, ?_⟩).called
      ⟨i, pc, hi, .inr ⟨hne, rfl, rfl⟩⟩
    rcases hq with hq | ⟨hne, -, hd⟩
    · exact .inl hq
    · exact .inr ⟨hne, rfl, hd⟩
  spaced := h.spaced.concat (by simp)

/-- A call while no sweep is in flight starts one. -/
theorem SweepInv.calledIdle {v : Watch} (h : SweepInv v)
    (hflight : v.world.sweepInFlight = false) :
    SweepInv ⟨{ v.world with
      sweepInFlight := true
      calls := v.world.calls ++ [.sweep .starting] }, v.log ++ [.called false]⟩ := by
  have hat : ∀ (i : Nat) pc, (v.world.calls ++ [Call.sweep .starting])[i]? = some (.sweep pc) →
      (v.world.calls[i]? = some (.sweep pc) ∧ pc = .finished) ∨
        (i = v.world.calls.length ∧ pc = .starting) := by
    intro i pc hi
    rcases Nat.lt_trichotomy i v.world.calls.length with hlt | rfl | hgt
    · rw [List.getElem?_append_left hlt] at hi
      exact .inl ⟨hi, h.idle hflight i pc hi⟩
    · simp only [List.getElem?_concat_length, Option.some.injEq, Call.sweep.injEq] at hi
      exact .inr ⟨rfl, hi.symm⟩
    · rw [List.getElem?_eq_none (by simp; omega)] at hi
      cases hi
  have hnew : (v.world.calls ++ [Call.sweep .starting])[v.world.calls.length]? =
      some (.sweep .starting) := by simp
  refine ⟨by simp, fun _ => ⟨_, .starting, hnew, by simp, fun j pc hj hne => ?_⟩, ?_, ?_, ?_,
    h.spaced.concat (by simp)⟩
  · rcases hat j pc hj with ⟨-, hfin⟩ | ⟨hj, -⟩
    · exact absurd hfin hne
    · exact hj
  · intro i call taskId queue now hi
    rcases hat i _ hi with ⟨hi, -⟩ | ⟨-, hpc⟩
    · exact h.clock i call taskId queue now hi
    · cases hpc
  · refine h.backoff.frame fun m hm => ?_
    rw [List.mem_singleton.1 hm]
    intro _ _
    rfl
  · have hread : ∀ d, WillRead { v.world with
        sweepInFlight := true
        calls := v.world.calls ++ [.sweep .starting] } d := fun d =>
      ⟨_, .starting, hnew, .inl rfl⟩
    exact (h.followed.mono fun d _ => hread d).called (hread false)

/-- **Every step keeps the invariant.** -/
theorem watch_inv {cfg : Config} {v v' : Watch} {label : Label} (h : SweepInv v)
    (hw : watch cfg v label = some v') : SweepInv v' := by
  simp only [watch, Option.map_eq_some_iff] at hw
  obtain ⟨w, hw, rfl⟩ := hw
  cases label with
  | enqueue taskId auto seedCapable quarantined =>
    cases hw
    simpa [stepMarks] using h.frame (w := { v.world with
      db := (enqueueTask v.world.db v.world.now taskId auto seedCapable quarantined).1 })
      (fun _ _ => Iff.rfl) rfl rfl rfl (Nat.le_refl _)
  | dispatch taskId =>
    cases hw
    simpa [stepMarks] using h.frame (w := { v.world with
      calls := v.world.calls ++ [.dispatch (dispatchStart v.world.db taskId)] })
      (sweep_getElem?_append (by simp)) rfl rfl rfl (Nat.le_refl _)
  | retry taskId =>
    simp only [step] at hw
    generalize retryStart cfg v.world.db v.world.now taskId = res at hw
    obtain ⟨db, pc⟩ := res
    cases hw
    simpa [stepMarks] using h.frame (w := { v.world with
      db, calls := v.world.calls ++ [.retry pc] })
      (sweep_getElem?_append (by simp)) rfl rfl rfl (Nat.le_refl _)
  | tick ms =>
    cases hw
    simpa [stepMarks] using h.frame (w := { v.world with now := v.world.now + ms })
      (fun _ _ => Iff.rfl) rfl rfl rfl (Nat.le_add_right _ _)
  | sweep =>
    simp only [step] at hw
    split at hw
    · rename_i hflight
      cases hw
      simpa [stepMarks, hflight] using h.calledDuring hflight
    · rename_i hflight
      cases hw
      simpa [stepMarks, hflight] using h.calledIdle (by simpa using hflight)
  | resume k answer =>
    simp only [step, resume] at hw
    split at hw
    · cases hw
    · rename_i pc hk
      split at hw
      · cases hw
      · rename_i db pc' _
        cases hw
        simpa [stepMarks, hk] using h.frame (w := { v.world with
          db, calls := v.world.calls.set k (.dispatch pc') })
          (sweep_getElem?_set hk (by simp) (by simp)) rfl rfl rfl (Nat.le_refl _)
    · rename_i pc hk
      split at hw
      · cases hw
      · rename_i db pc' _
        cases hw
        simpa [stepMarks, hk] using h.frame (w := { v.world with
          db, calls := v.world.calls.set k (.retry pc') })
          (sweep_getElem?_set hk (by simp) (by simp)) rfl rfl rfl (Nat.le_refl _)
    · rename_i pc hk
      split at hw
      · cases hw
      · rename_i w₁ pc' hres
        cases hw
        have hcalls : w₁.calls = v.world.calls ∨ ∃ d, w₁.calls = v.world.calls ++ [.dispatch d] := by
          rcases (sweepResume_spec hres).2 with hc | ⟨db, id, hc⟩
          · exact .inl hc
          · exact .inr ⟨_, hc⟩
        have hat := (sweep_getElem?_resume pc' hk hcalls k pc').2 (.inl ⟨rfl, rfl⟩)
        have hpc : pc ≠ .finished := by
          rintro rfl
          simp [sweepResume] at hres
        have hmarks : stepMarks v.world { w₁ with calls := w₁.calls.set k (.sweep pc') }
            (.resume k answer) = sweepMarks v.world pc pc' := by
          simp [stepMarks, hk, hat]
        rw [hmarks]
        exact h.segment hk (sweepResume_segment hres) hpc hcalls

/-- **Dispatch sweeps miss no call and honour the back-off.** In every interleaving, each
call of `dispatchQueuedTasks` is followed by a snapshot of the queue, unless it came during
a sweep that threw; and no sweep tries a task again before the back-off of its streak of
failures has passed since the sweep that recorded the last one read the clock, unless the
map of the back-offs dropped its entry. -/
theorem sweeps_followed_and_spaced (cfg : Config) (w : World) (hcalls : w.calls = [])
    (hflight : w.sweepInFlight = false) (hbackoff : w.backoff = []) (labels : List Label) :
    Run.Along (watch cfg) (fun v => Followed v ∧ Spaced v.log) ⟨w, []⟩ labels :=
  Run.along_of_invariant (I := SweepInv) (C := fun _ _ => True)
    (fun _ _ _ hI _ h => watch_inv hI h) (fun _ hI => ⟨hI.owed, hI.spaced⟩)
    (sweepInv_start hcalls hflight hbackoff) (Run.Meets.of_forall (fun _ _ => trivial) _ _)

/-- One queued task, and nothing in flight. -/
def oneQueued : World :=
  demoWorld (demoDb [{ id := 1, projectId := 1, status := .claimed }] [] 1
    nodup_one List.nodup_nil fresh_one)

/-- A call that finds no sweep, and one that comes during the sweep. -/
theorem sweeps_followed_twice :
    Run.Along (watch demoConfig) (fun v => Followed v ∧ Spaced v.log) ⟨oneQueued, []⟩
      [.sweep, .resume 0 .settled, .sweep, .resume 1 (.gate .clear)] :=
  sweeps_followed_and_spaced demoConfig oneQueued rfl rfl rfl _

/-! ## What does not hold -/

/-- Every call is followed by a snapshot, if no sweep is in flight any more. -/
def AlwaysFollowed (v : Watch) : Prop :=
  ∀ past during rest, v.log = past ++ .called during :: rest →
    .snapshot ∈ rest ∨ v.world.sweepInFlight = true

/-- One mark more: the failed dispatches of a task since its last success or give-up, and
the time of the last one. -/
def failureStep (taskId : Nat) (acc : Nat × Nat) : SweepMark → Nat × Nat
  | .failed id _ time => if id = taskId then (acc.1 + 1, time) else acc
  | .cleared id => if id = taskId then (0, 0) else acc
  | .evicted _ | .called _ | .snapshot | .threw | .attempted .. => acc

/-- No sweep attempts a task again before the back-off has passed since its last failure. -/
def SpacedFromFailure (log : List SweepMark) : Prop :=
  ∀ past taskId time rest, log = past ++ .attempted taskId time :: rest →
    let failures := past.foldl (failureStep taskId) (0, 0)
    0 < failures.1 → failures.2 + dispatchBackoffMs failures.1 ≤ time

/-- A sweep waits for the dispatch of task 500, and the map holds the entries of 500 other
tasks, all of which failed at once. -/
def fullMap : Watch where
  world :=
    { db := demoDb [{ id := 0, projectId := 1, status := .claimed },
        { id := 500, projectId := 1, status := .claimed }] [] 1
        (by decide) List.nodup_nil fresh_one
      now := 0
      calls := [.sweep (.waiting 1 500 [] 0), .dispatch (.finished (.worktreeFailed "dirty"))]
      sweepInFlight := true
      sweepPending := true
      backoff := (List.range 500).map fun id => ⟨id, dispatchBackoffMs 1, 1⟩ }
  log := (List.range 500).map fun id => .failed id 0 0

/-- The log of `fullMap` when the next pass begins: the failure of task 500 cost task 0 its
entry. -/
def evictedLog : List SweepMark := fullMap.log ++ [.evicted 0, .failed 500 0 0, .snapshot]

set_option maxRecDepth 4000 in
/-- A dispatch that takes longer than the back-off is tried again at once; a call that comes
during a sweep that throws is lost; and a task whose entry made room for another one is
tried again at once. -/
theorem slow_throwing_and_evicting_sweeps :
    ¬ Run.Along (watch demoConfig) (fun v => SpacedFromFailure v.log) ⟨oneQueued, []⟩
      [.sweep, .resume 0 .settled, .resume 1 (.gate .clear), .tick 360000,
        .resume 1 (.placement (.chosen "local" (.failed "no space"))), .resume 0 .settled,
        .sweep, .resume 0 .settled, .resume 0 .settled] ∧
    ¬ Run.Along (watch demoConfig) AlwaysFollowed ⟨oneQueued, []⟩
      [.sweep, .resume 0 .settled, .sweep, .resume 1 (.gate .clear), .resume 1 (.threw "down"),
        .resume 0 .settled] ∧
    ¬ Run.Along (watch demoConfig) (fun v => SpacedFromFailure v.log) fullMap
      [.resume 0 .settled, .resume 0 .settled, .resume 0 .settled] := by
  refine ⟨fun h => ?_, fun h => ?_, fun h => ?_⟩
  · have hplay : (Run.play (watch demoConfig) ⟨oneQueued, []⟩
        [.sweep, .resume 0 .settled, .resume 1 (.gate .clear), .tick 360000,
          .resume 1 (.placement (.chosen "local" (.failed "no space"))), .resume 0 .settled,
          .sweep, .resume 0 .settled, .resume 0 .settled]).map Watch.log =
        some ([.called false, .snapshot, .attempted 1 0, .failed 1 0 360000, .called true,
          .snapshot] ++ .attempted 1 360000 :: []) := by
      decide +kernel
    obtain ⟨v, hv, hlog⟩ := Option.map_eq_some_iff.1 hplay
    exact absurd (h.last hv _ 1 360000 [] hlog (by decide)) (by decide)
  · have hplay : (Run.play (watch demoConfig) ⟨oneQueued, []⟩
        [.sweep, .resume 0 .settled, .sweep, .resume 1 (.gate .clear), .resume 1 (.threw "down"),
          .resume 0 .settled]).map (fun v => (v.log, v.world.sweepInFlight)) =
        some ([.called false, .snapshot, .attempted 1 0] ++ .called true :: [.threw], false) := by
      decide +kernel
    obtain ⟨v, hv, hlog⟩ := Option.map_eq_some_iff.1 hplay
    obtain ⟨hlog, hflight⟩ := Prod.mk.inj hlog
    have hfollowed := h.last hv _ true [.threw] hlog
    simp [hflight] at hfollowed
  · have hplay : (Run.play (watch demoConfig) fullMap
        [.resume 0 .settled, .resume 0 .settled, .resume 0 .settled]).map Watch.log =
        some (evictedLog ++ .attempted 0 0 :: []) := by
      decide +kernel
    obtain ⟨v, hv, hlog⟩ := Option.map_eq_some_iff.1 hplay
    have hpos : 0 < (evictedLog.foldl (failureStep 0) (0, 0)).1 := by
      decide +kernel
    have hearly : ¬ (evictedLog.foldl (failureStep 0) (0, 0)).2 +
        dispatchBackoffMs (evictedLog.foldl (failureStep 0) (0, 0)).1 ≤ 0 := by
      decide +kernel
    exact hearly (h.last hv _ 0 0 [] hlog hpos)

end Claim
end Mullion
