import Mullion.Lib.Run
import Mullion.Lib.OrderedMap

/-!
# Replay protection of signed requests

The checks a session-credentialed agent makes on a signed request before it looks at
the signature: `isTimestampFresh` (`request-signature.ts`) and
`NonceStore.checkAndRecord` (`nonce-store.ts`), as `routes/internal.ts` calls them. The
question is whether the drift window, the lifetime of a nonce and the cap of the store fit
together, so that no request passes both checks twice.

* **Time.** A timestamp lies at most thirty seconds after the clock that recorded its nonce,
  and a request comes again at most thirty seconds after its timestamp: so at most sixty
  seconds lie between the two, which is the lifetime of a nonce. But the lifetime ends where
  the window is still open, and both bounds can be reached together (`AtEdge`,
  `expired_iff_atEdge`). The clock is read once for each check, so some milliseconds may
  pass between the two readings.
* **The cap.** A store that is full drops its oldest entry, live or not (`CapKept`). What is
  dropped while its request is fresh can be replayed at once (`replayable_of_not_capKept`).

The invariant carried along a run says that every pass still fresh has its nonce in the
store, under its latest recording, or that this recording has run out (`Inv`);
`replay_refused_iff` then reads off exactly the runs in which no request passes twice.
-/

namespace Mullion
namespace Nonce

/-- `DRIFT_WINDOW_MS`. -/
def driftWindowMs : ℕ := 30000

/-- `NONCE_TTL_MS`. -/
def nonceTtlMs : ℕ := driftWindowMs * 2

/-- `MAX_NONCES`. -/
def maxNonces : ℕ := 100000

/-- `NonceStore`: the expiry of every nonce seen, in insertion order. -/
abbrev NonceStore := OrderedMap String ℕ

/-- `NonceStore.checkAndRecord`. -/
def checkAndRecord (store : NonceStore) (nonce : String) (ttlMs now : ℕ) : NonceStore × Bool :=
  if (store.lookup nonce).any (fun expiresAt => now < expiresAt) then (store, false)
  else ((store.makeRoom maxNonces).set nonce (now + ttlMs), true)

/-- `NonceStore.sweep`. -/
def sweep (store : NonceStore) (now : ℕ) : NonceStore :=
  store.eraseIf fun expiresAt => expiresAt ≤ now

/-- A pass of a request through both checks; `time` is the clock when its nonce was
recorded. -/
structure Pass where
  timestamp : String
  nonce : String
  time : ℕ
  deriving DecidableEq, Repr

/-- One running agent. `log` (the passes, newest first) only watches. -/
structure Agent where
  now : ℕ
  store : NonceStore
  log : List Pass

/-- An agent that has just started. -/
def Agent.boot (now : ℕ) : Agent := ⟨now, OrderedMap.empty, []⟩

inductive Event
  /-- time passes -/
  | tick (ms : ℕ)
  /-- a request with a valid session credential; `ms` passes between the two reads of
  the clock -/
  | request (timestamp nonce : String) (ms : ℕ)
  /-- the timer of `requestNoncePlugin` -/
  | sweep
  deriving DecidableEq, Repr

section Checks

-- `Number` on strings; `none` is a result that is not finite
variable (number : String → Option ℚ)

/-- `isTimestampFresh`. -/
def isTimestampFresh (timestamp : String) (now : ℕ) : Bool :=
  match number timestamp with
  | none => false
  | some ts => |(now : ℚ) - ts| ≤ driftWindowMs

/-- The two checks: the clock after them, the store, and whether the request passed. -/
def check (s : Agent) (timestamp nonce : String) (ms : ℕ) : ℕ × NonceStore × Bool :=
  if isTimestampFresh number timestamp s.now then
    (s.now + ms, checkAndRecord s.store nonce nonceTtlMs (s.now + ms))
  else (s.now, s.store, false)

/-- Whether a request passes both checks. -/
def passes (s : Agent) (timestamp nonce : String) (ms : ℕ) : Bool :=
  (check number s timestamp nonce ms).2.2

def step (s : Agent) : Event → Option Agent
  | .tick ms => some { s with now := s.now + ms }
  | .request timestamp nonce ms =>
    let (now, store, passed) := check number s timestamp nonce ms
    some
      { now := now
        store := store
        log := if passed then ⟨timestamp, nonce, now⟩ :: s.log else s.log }
  | .sweep => some { s with store := Nonce.sweep s.store s.now }

end Checks

/-! ## What a step must not do, and when it does not -/

/-- When the nonce was recorded last. -/
def Agent.recordedAt (s : Agent) (nonce : String) : Option ℕ :=
  (s.log.find? (·.nonce = nonce)).map Pass.time

/-- The request has passed before. -/
def Agent.accepted (s : Agent) (timestamp nonce : String) : Bool :=
  s.log.any fun p => p.timestamp = timestamp && p.nonce = nonce

/-- No request passes that has passed before. -/
def NoReplay (number : String → Option ℚ) (s : Agent) : Event → Agent → Prop
  | .request timestamp nonce ms, _ =>
    s.accepted timestamp nonce → passes number s timestamp nonce ms = false
  | _, _ => True

instance (number : String → Option ℚ) (s : Agent) :
    ∀ (e : Event) (s' : Agent), Decidable (NoReplay number s e s')
  | .request _ _ _, _ => inferInstanceAs (Decidable (_ → _))
  | .tick _, _ | .sweep, _ => isTrue trivial

/-- A request stamped thirty seconds ahead of the clock that recorded its nonce comes again
sixty seconds after it: exactly so if its two checks read the same clock, and up to the `ms`
between their readings otherwise. -/
def AtEdge (stamp : ℚ) (recorded now ms : ℕ) : Prop :=
  recorded + 30000 - ms ≤ stamp ∧ stamp ≤ recorded + 30000 ∧
    recorded + 60000 ≤ now + ms ∧ now ≤ recorded + 60000

instance (stamp : ℚ) (recorded now ms : ℕ) : Decidable (AtEdge stamp recorded now ms) :=
  inferInstanceAs (Decidable (_ ∧ _))

/-- A request that passed before and comes again while it is fresh does not come at the
edge. -/
def OffEdge (number : String → Option ℚ) (s : Agent) : Event → Prop
  | .request timestamp nonce ms =>
    s.accepted timestamp nonce → isTimestampFresh number timestamp s.now →
      ∀ stamp ∈ number timestamp, ∀ recorded ∈ s.recordedAt nonce,
        ¬ AtEdge stamp recorded s.now ms
  | _ => True

instance (number : String → Option ℚ) (s : Agent) : ∀ e, Decidable (OffEdge number s e)
  | .request _ _ _ => inferInstanceAs (Decidable (_ → _))
  | .tick _ | .sweep => isTrue trivial

/-- A request that is to be recorded while the store holds a hundred thousand nonces does not
push out one whose request is still fresh. -/
def CapKept (number : String → Option ℚ) (s : Agent) : Event → Prop
  | .request timestamp nonce ms =>
    isTimestampFresh number timestamp s.now →
      (∀ expiresAt ∈ s.store.lookup nonce, expiresAt ≤ s.now + ms) → 100000 ≤ s.store.size →
        ∀ oldest ∈ s.store.oldest, oldest ≠ nonce →
          ∀ p ∈ s.log, p.nonce = oldest →
            isTimestampFresh number p.timestamp (s.now + ms) = false
  | _ => True

instance (number : String → Option ℚ) (s : Agent) : ∀ e, Decidable (CapKept number s e)
  | .request _ _ _ => inferInstanceAs (Decidable (_ → _))
  | .tick _ | .sweep => isTrue trivial

/-- Some request that passed before would pass again if it came next. -/
def Replayable (number : String → Option ℚ) (s : Agent) : Prop :=
  ∃ p ∈ s.log, passes number s p.timestamp p.nonce 0 = true

/-! ## The two bounds of the window -/

/-- The lifetime of a nonce is the length of the whole window: within it, a nonce has run out
exactly at the edge. -/
theorem expired_iff_atEdge {stamp : ℚ} {recorded now ms : ℕ} (hahead : stamp ≤ recorded + 30000)
    (hfresh : |(now : ℚ) - stamp| ≤ driftWindowMs) :
    recorded + nonceTtlMs ≤ now + ms ↔ AtEdge stamp recorded now ms := by
  have hbehind : (now : ℚ) ≤ stamp + 30000 := by
    have := (abs_le.1 hfresh).2
    norm_num [driftWindowMs] at this
    linarith
  have hlatest : now ≤ recorded + 60000 := by
    have : (now : ℚ) ≤ (recorded + 60000 : ℕ) := by
      push_cast
      linarith
    exact_mod_cast this
  constructor
  · intro hexpired
    have hexpired : recorded + 60000 ≤ now + ms := hexpired
    have : ((recorded + 60000 : ℕ) : ℚ) ≤ (now + ms : ℕ) := by exact_mod_cast hexpired
    push_cast at this
    exact ⟨by linarith, hahead, hexpired, hlatest⟩
  · exact fun h => h.2.2.1

/-- A fresh timestamp is at most thirty seconds ahead of the clock. -/
theorem stamp_le_of_fresh {number : String → Option ℚ} {timestamp : String} {now : ℕ}
    (h : isTimestampFresh number timestamp now = true) :
    ∃ stamp, number timestamp = some stamp ∧ |(now : ℚ) - stamp| ≤ driftWindowMs ∧
      stamp ≤ now + 30000 := by
  unfold isTimestampFresh at h
  cases hn : number timestamp with
  | none => simp [hn] at h
  | some stamp =>
    simp only [hn, decide_eq_true_eq] at h
    refine ⟨stamp, rfl, h, ?_⟩
    have := (abs_le.1 h).1
    norm_num [driftWindowMs] at this
    linarith

/-- A request that was stamped before now and is not fresh will not be fresh again. -/
theorem stale_later {number : String → Option ℚ} {timestamp : String} {now later : ℕ} {stamp : ℚ}
    (hnumber : number timestamp = some stamp) (hahead : stamp ≤ now + 30000) (hle : now ≤ later)
    (h : isTimestampFresh number timestamp now = false) :
    isTimestampFresh number timestamp later = false := by
  have hle' : (now : ℚ) ≤ later := by exact_mod_cast hle
  simp only [isTimestampFresh, hnumber, decide_eq_false_iff_not, abs_le, not_and_or,
    not_le] at h ⊢
  norm_num [driftWindowMs] at h ⊢
  right
  rcases h with h | h <;> linarith

/-! ## The store against the log -/

/-- The entry of a nonce recorded at `recorded`: it is there, or it has run out. -/
def Kept (s : Agent) (nonce : String) (recorded : ℕ) : Prop :=
  s.store.lookup nonce = some (recorded + nonceTtlMs) ∨
    s.store.lookup nonce = none ∧ recorded + nonceTtlMs ≤ s.now

structure Inv (number : String → Option ℚ) (s : Agent) : Prop where
  past : ∀ p ∈ s.log, p.time ≤ s.now
  newestFirst : s.log.Pairwise fun p q => q.time ≤ p.time
  stamped : ∀ p ∈ s.log, ∃ stamp, number p.timestamp = some stamp ∧ stamp ≤ p.time + 30000
  kept : ∀ p ∈ s.log, isTimestampFresh number p.timestamp s.now →
    ∀ recorded ∈ s.recordedAt p.nonce, Kept s p.nonce recorded

theorem inv_boot (number : String → Option ℚ) (now : ℕ) : Inv number (Agent.boot now) where
  past := by simp [Agent.boot]
  newestFirst := by simp [Agent.boot]
  stamped := by simp [Agent.boot]
  kept := by simp [Agent.boot]

@[simp] theorem checkAndRecord_snd (store : NonceStore) (nonce : String) (ttlMs now : ℕ) :
    (checkAndRecord store nonce ttlMs now).2 =
      !(store.lookup nonce).any (fun expiresAt => now < expiresAt) := by
  unfold checkAndRecord
  split <;> simp_all

/-- No pass of a nonce is later than the one that recorded it last. -/
theorem time_le_recordedAt {log : List Pass} (hsorted : log.Pairwise fun p q => q.time ≤ p.time)
    {p : Pass} (hp : p ∈ log) :
    ∃ recorded, (log.find? (·.nonce = p.nonce)).map Pass.time = some recorded ∧
      p.time ≤ recorded := by
  induction log with
  | nil => cases hp
  | cons q log ih =>
    rw [List.pairwise_cons] at hsorted
    by_cases hq : q.nonce = p.nonce
    · refine ⟨q.time, by simp [hq], ?_⟩
      rcases List.mem_cons.1 hp with rfl | hp
      · exact le_refl _
      · exact hsorted.1 p hp
    · rcases List.mem_cons.1 hp with rfl | hp
      · exact absurd rfl hq
      · rw [List.find?_cons_of_neg (by simpa using hq)]
        exact ih hsorted.2 hp

/-! ## Steps -/

section Steps

variable {number : String → Option ℚ}

theorem check_stale {s : Agent} {timestamp : String}
    (h : isTimestampFresh number timestamp s.now = false) (nonce : String) (ms : ℕ) :
    check number s timestamp nonce ms = (s.now, s.store, false) := by
  simp [check, h]

theorem passes_eq (s : Agent) (timestamp nonce : String) (ms : ℕ) :
    passes number s timestamp nonce ms = (isTimestampFresh number timestamp s.now &&
      !(s.store.lookup nonce).any (fun expiresAt => s.now + ms < expiresAt)) := by
  unfold passes check
  cases isTimestampFresh number timestamp s.now <;> simp

/-- What a request does: it is refused and the store stays, or it passes and its nonce is
recorded. -/
theorem step_request {s s' : Agent} {timestamp nonce : String} {ms : ℕ}
    (h : step number s (.request timestamp nonce ms) = some s') :
    (passes number s timestamp nonce ms = false ∧ s'.store = s.store ∧ s'.log = s.log ∧
      s.now ≤ s'.now) ∨
    (passes number s timestamp nonce ms = true ∧ s'.now = s.now + ms ∧
      s'.store = (s.store.makeRoom maxNonces).set nonce (s.now + ms + nonceTtlMs) ∧
      s'.log = ⟨timestamp, nonce, s.now + ms⟩ :: s.log) := by
  cases hf : isTimestampFresh number timestamp s.now with
  | false =>
    rw [step, check_stale hf] at h
    cases h
    left
    simp [passes, check_stale hf]
  | true =>
    cases hl : (s.store.lookup nonce).any (fun expiresAt => s.now + ms < expiresAt) with
    | true =>
      simp only [step, check, hf, checkAndRecord, hl, if_true, Option.some.injEq] at h
      subst h
      left
      simp [passes, check, checkAndRecord, hf, hl]
    | false =>
      simp only [step, check, hf, checkAndRecord, hl, if_true, Option.some.injEq] at h
      subst h
      right
      simp [passes, check, checkAndRecord, hf, hl]

/-- Later, with the same log, and a store that lost at most what has run out. -/
theorem Inv.later {s s' : Agent} (hI : Inv number s) (hlog : s'.log = s.log)
    (hnow : s.now ≤ s'.now)
    (hstore : ∀ nonce, s'.store.lookup nonce = s.store.lookup nonce ∨
      s'.store.lookup nonce = none ∧ ∀ expiresAt ∈ s.store.lookup nonce, expiresAt ≤ s'.now) :
    Inv number s' := by
  refine ⟨?_, hlog ▸ hI.newestFirst, hlog ▸ hI.stamped, ?_⟩
  · intro p hp
    exact (hI.past p (hlog ▸ hp)).trans hnow
  · intro p hp hfresh recorded hr
    rw [hlog] at hp
    have hr' : s.recordedAt p.nonce = some recorded := by simpa [Agent.recordedAt, hlog] using hr
    obtain ⟨stamp, hnumber, hahead⟩ := hI.stamped p hp
    -- what is fresh now was fresh before
    have hfresh' : isTimestampFresh number p.timestamp s.now = true := by
      by_contra hstale
      have hpast : (p.time : ℚ) ≤ s.now := by exact_mod_cast hI.past p hp
      have := stale_later hnumber (by linarith) hnow (eq_false_of_ne_true hstale)
      simp [this] at hfresh
    unfold Kept
    rcases hI.kept p hp hfresh' recorded hr' with hl | ⟨hl, hexpired⟩ <;>
      rcases hstore p.nonce with hs | ⟨hs, hgone⟩
    · exact .inl (hs.trans hl)
    · exact .inr ⟨hs, hgone _ hl⟩
    · exact .inr ⟨hs.trans hl, hexpired.trans hnow⟩
    · exact .inr ⟨hs, hexpired.trans hnow⟩

/-- A pass records its nonce and may cost the oldest one its entry. -/
theorem Inv.passed {s s' : Agent} (hI : Inv number s) {timestamp nonce : String} {ms : ℕ}
    (hcap : CapKept number s (.request timestamp nonce ms))
    (hpasses : passes number s timestamp nonce ms = true) (hnow : s'.now = s.now + ms)
    (hstore : s'.store = (s.store.makeRoom maxNonces).set nonce (s.now + ms + nonceTtlMs))
    (hlog : s'.log = ⟨timestamp, nonce, s.now + ms⟩ :: s.log) : Inv number s' := by
  rw [passes_eq, Bool.and_eq_true, Bool.not_eq_true', Option.any_eq_false] at hpasses
  obtain ⟨hfreshNow, hdead⟩ := hpasses
  refine ⟨?_, ?_, ?_, ?_⟩
  · intro p hp
    rw [hlog] at hp
    rcases List.mem_cons.1 hp with rfl | hp
    · exact hnow.ge
    · have := hI.past p hp
      omega
  · rw [hlog, List.pairwise_cons]
    exact ⟨fun p hp => (hI.past p hp).trans (Nat.le_add_right _ _), hI.newestFirst⟩
  · intro p hp
    rw [hlog] at hp
    rcases List.mem_cons.1 hp with rfl | hp
    · obtain ⟨stamp, hnumber, -, hahead⟩ := stamp_le_of_fresh hfreshNow
      refine ⟨stamp, hnumber, ?_⟩
      push_cast
      have : (0 : ℚ) ≤ ms := Nat.cast_nonneg ms
      linarith
    · exact hI.stamped p hp
  · intro p hp hfresh recorded hr
    by_cases ho : p.nonce = nonce
    · have : recorded = s.now + ms := by simpa [Agent.recordedAt, hlog, ho, eq_comm] using hr
      exact .inl (by simp [hstore, this, ho])
    · have hp : p ∈ s.log := by
        rw [hlog] at hp
        rcases List.mem_cons.1 hp with rfl | hp
        · exact absurd rfl ho
        · exact hp
      have hlater : Inv number { s with now := s.now + ms } :=
        hI.later rfl (Nat.le_add_right _ _) fun _ => .inl rfl
      have hkept := hlater.kept p hp (hnow ▸ hfresh) recorded
        (by simpa [Agent.recordedAt, hlog, Ne.symm ho] using hr)
      have hroom : s.store.dropped maxNonces ≠ some p.nonce := by
        intro hdropped
        have hfull : 100000 ≤ s.store.size := by
          by_contra hroom
          have hroom : s.store.size < maxNonces := not_le.1 hroom
          rw [OrderedMap.dropped_of_lt hroom] at hdropped
          cases hdropped
        have := hcap hfreshNow (by simpa using hdead) hfull p.nonce
          (OrderedMap.oldest_of_dropped hdropped) ho p hp rfl
        rw [hnow, this] at hfresh
        cases hfresh
      unfold Kept at hkept ⊢
      rw [hstore, OrderedMap.lookup_set_of_ne _ _ ho, OrderedMap.lookup_makeRoom_of_ne hroom, hnow]
      exact hkept

/-- **A step that keeps the cap keeps the invariant.** -/
theorem step_inv {s s' : Agent} {e : Event} (hI : Inv number s) (hcap : CapKept number s e)
    (h : step number s e = some s') : Inv number s' := by
  cases e with
  | tick ms =>
    cases h
    exact hI.later rfl (Nat.le_add_right _ _) fun _ => .inl rfl
  | request timestamp nonce ms =>
    rcases step_request h with ⟨-, hstore, hlog, hnow⟩ | ⟨hpasses, hnow, hstore, hlog⟩
    · exact hI.later hlog hnow fun _ => .inl (by rw [hstore])
    · exact hI.passed hcap hpasses hnow hstore hlog
  | sweep =>
    cases h
    refine hI.later rfl (le_refl _) fun nonce => ?_
    simp only [sweep, OrderedMap.lookup_eraseIf]
    cases s.store.lookup nonce with
    | none => exact .inl rfl
    | some expiresAt =>
      by_cases hexpired : expiresAt ≤ s.now <;> simp [Option.filter, hexpired]

/-- A step admits no replay exactly when the request it answers does not come at the edge. -/
theorem noReplay_iff_offEdge {s : Agent} (hI : Inv number s) (e : Event) (s' : Agent) :
    NoReplay number s e s' ↔ OffEdge number s e := by
  cases e with
  | tick ms => simp [NoReplay, OffEdge]
  | sweep => simp [NoReplay, OffEdge]
  | request timestamp nonce ms =>
    refine forall_congr' fun hacc => ?_
    rw [passes_eq]
    cases hf : isTimestampFresh number timestamp s.now with
    | false => simp
    | true =>
      simp only [Agent.accepted, List.any_eq_true, Bool.and_eq_true, decide_eq_true_eq] at hacc
      obtain ⟨p, hp, rfl, rfl⟩ := hacc
      obtain ⟨recorded, hr, hle⟩ := time_le_recordedAt hI.newestFirst hp
      obtain ⟨stamp, hnumber, hahead⟩ := hI.stamped p hp
      obtain ⟨stamp', hnumber', hdrift, -⟩ := stamp_le_of_fresh hf
      obtain rfl : stamp = stamp' := Option.some.inj (hnumber.symm.trans hnumber')
      have hle' : (p.time : ℚ) ≤ recorded := by exact_mod_cast hle
      have hr : s.recordedAt p.nonce = some recorded := hr
      have hedge : recorded + nonceTtlMs ≤ s.now + ms ↔ AtEdge stamp recorded s.now ms :=
        expired_iff_atEdge (by linarith) hdrift
      simp only [hr, hnumber, Option.mem_def, Option.some.injEq, forall_eq', forall_true_left,
        Bool.true_and, Bool.not_eq_false', ← hedge]
      rcases hI.kept p hp hf recorded hr with hl | ⟨hl, hexpired⟩
      · simp [hl]
      · simp only [hl, Option.any_none, Bool.false_eq_true, false_iff, not_not]
        omega

/-- A request pushed out of a full store while it is fresh can come again at once. -/
theorem replayable_of_not_capKept {s s' : Agent} {e : Event} (hcap : ¬ CapKept number s e)
    (h : step number s e = some s') : Replayable number s' := by
  cases e with
  | tick ms => exact absurd trivial hcap
  | sweep => exact absurd trivial hcap
  | request timestamp nonce ms =>
    simp only [CapKept, Classical.not_imp, not_forall, Bool.not_eq_false] at hcap
    obtain ⟨hfresh, hdead, hfull, oldest, holdest, hne, p, hp, rfl, hpfresh⟩ := hcap
    have hpasses : passes number s timestamp nonce ms = true := by
      rw [passes_eq, hfresh]
      cases hl : s.store.lookup nonce with
      | none => rfl
      | some expiresAt => simpa using hdead expiresAt hl
    rcases step_request h with ⟨hno, -⟩ | ⟨-, hnow, hstore, hlog⟩
    · simp [hpasses] at hno
    · refine ⟨p, by simp [hlog, hp], ?_⟩
      have hdropped : s.store.dropped maxNonces = some p.nonce := by
        unfold OrderedMap.dropped
        rw [if_pos (show maxNonces ≤ s.store.size from hfull)]
        exact holdest
      rw [passes_eq, hnow, hstore, OrderedMap.lookup_set_of_ne _ _ hne,
        OrderedMap.lookup_makeRoom, if_pos hdropped, hpfresh]
      rfl

end Steps

/-- **No signed request passes twice**, in every run of one agent in which the cap never
pushes out a nonce whose request is fresh, exactly when no request comes again at the edge:
stamped thirty seconds ahead when it was recorded, and sixty seconds later. And whenever the
cap does push out such a nonce, its request passes again if it comes next. -/
theorem replay_refused_iff (number : String → Option ℚ) (start : ℕ) (events : List Event) :
    (Run.Meets (step number) (CapKept number) (Agent.boot start) events →
      (Run.AlongSteps (step number) (NoReplay number) (Agent.boot start) events ↔
        Run.Meets (step number) (OffEdge number) (Agent.boot start) events)) ∧
    Run.AlongSteps (step number) (fun s e s' => CapKept number s e ∨ Replayable number s')
      (Agent.boot start) events := by
  constructor
  · exact Run.alongSteps_iff_meets_of_meets (fun _ _ _ hI hcap h => step_inv hI hcap h)
      (fun _ e s' hI _ => noReplay_iff_offEdge hI e s') (inv_boot number start)
  · refine Run.AlongSteps.of_forall (fun s e s' h => ?_) _ _
    by_cases hcap : CapKept number s e
    · exact .inl hcap
    · exact .inr (replayable_of_not_capKept hcap h)

/-- The one timestamp of the runs below. -/
def stampedAt130 (timestamp : String) : Option ℚ :=
  if timestamp = "130000" then some 130000 else none

/-- A request stamped thirty seconds ahead is refused until a minute has passed. -/
theorem replay_refused_before_the_edge :
    Run.AlongSteps (step stampedAt130) (NoReplay stampedAt130) (Agent.boot 100000)
      [.request "130000" "n" 0, .sweep, .tick 59999, .request "130000" "n" 0, .sweep,
        .tick 2, .request "130000" "n" 0] :=
  ((replay_refused_iff stampedAt130 100000 _).1 (by decide +kernel)).2 (by decide +kernel)

/-- A request stamped thirty seconds ahead passes at once and again a minute later. -/
theorem replay_at_the_edge :
    ¬ Run.AlongSteps (step stampedAt130) (NoReplay stampedAt130) (Agent.boot 100000)
      [.request "130000" "n" 0, .tick 60000, .request "130000" "n" 0] := by
  decide +kernel

end Nonce
end Mullion
