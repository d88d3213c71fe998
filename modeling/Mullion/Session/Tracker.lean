import Mullion.Lib.OrderedMap
import Mullion.Session.Attention

/-!
# The attention tracker

What a session keeps around its attention machine: signals that settle before the user is told,
one for each kind, the outstanding background tasks and the end of the turn
(`services/attention-tracker.ts`).

* `AttentionTracker` and its operations under the names of the source;
* `apply` — any one of them;
* `sent_eq` — a deferred signal is told at most once, at the first drain at or after its due
  time, unless it is dropped or replaced before;
* `others_kept` — an operation on one kind leaves the pending signals of the others;
* `PingedOnce` — the end of a turn schedules at most one ping;
* `live_foldl` — a signal is pending or confirmed because an operation raised it and none after
  it cleared it.

A deferral has a number, which the code does not have, and so has the event it becomes.
-/

namespace Mullion
namespace Attention

abbrev Extras := List (String × Option String)

structure AlsoEmit where
  kind : String
  payload : Extras
  deriving DecidableEq

structure DeferredEmit where
  extras : Extras
  alsoEmit : List AlsoEmit
  dueAt : ℤ
  /-- the number of the deferral -/
  source : ℕ
  deriving DecidableEq

/-- What the tracker has its session emit. -/
inductive Event
  | attention (on : Bool) (signal : Option SignalKind) (extras : Extras) (source : Option ℕ)
  | other (also : AlsoEmit)
  deriving DecidableEq

/-- A background task, its status read by `isBackgroundTaskOutstanding`. -/
structure BackgroundTask where
  outstanding : Bool
  deriving DecidableEq

/-- `filterOutstandingBackgroundTasks`. -/
def filterOutstandingBackgroundTasks (tasks : List BackgroundTask) : List BackgroundTask :=
  tasks.filter BackgroundTask.outstanding

/-- `ATTENTION_SETTLE_MS`. -/
def settleMs : SignalKind → ℤ
  | .permissionRequest => 2000
  | .agentIdle => 3000
  | .toolFailure => 2000
  | .apiError => 2000
  | _ => 0

structure AttentionTracker where
  state : Machine := {}
  lastTurnEndedAt : Option ℤ := none
  backgroundTasks : List BackgroundTask := []
  backgroundTasksAt : Option ℤ := none
  turnEndPingSent : Bool := false
  deferred : OrderedMap SignalKind DeferredEmit := .empty
  /-- everything emitted so far -/
  emitted : List Event := []
  /-- the deferrals so far -/
  deferrals : ℕ := 0
  /-- the pings scheduled since `lastTurnEndedAt` was written -/
  pings : ℕ := 0

namespace AttentionTracker

/-! ## The operations -/

def applyAttentionTransition (t : AttentionTracker) (transition : Transition)
    (extras : Extras) : AttentionTracker :=
  { t with
    state := transition.next
    emitted := t.emitted ++ transition.emit.map fun emit =>
      .attention emit.attention emit.signal (if emit.attention then extras else []) none }

def cancelDeferred (t : AttentionTracker) (kind : SignalKind) : AttentionTracker :=
  { t with deferred := t.deferred.erase kind }

/-- The user acts, as far as the machine is told. -/
def userInput (t : AttentionTracker) (now : ℤ) : AttentionTracker :=
  t.applyAttentionTransition (advanceAttention t.state (.userInput now)) []

def clearIfConfirmedKind (t : AttentionTracker) (kind : SignalKind) (now : ℤ) :
    AttentionTracker :=
  let cancelled := t.cancelDeferred kind
  if t.state.state = .attention ∧ t.state.confirmedKind = some kind then cancelled.userInput now
  else cancelled

def clearDeferred (t : AttentionTracker) : AttentionTracker := { t with deferred := .empty }

def clearAttention (t : AttentionTracker) (now : ℤ) : AttentionTracker :=
  t.clearDeferred.userInput now

/-- `lastTurnEndedAt` is written. -/
def setLastTurnEndedAt (t : AttentionTracker) (at' : Option ℤ) : AttentionTracker :=
  { t with lastTurnEndedAt := at', pings := 0 }

/-- The confirmed kind refuses an acknowledgement. -/
def refusesAck (t : AttentionTracker) : Bool := t.state.confirmedKind.any ackBlocking

/-- `acknowledgeAttention`, and whether it was done. -/
def acknowledgeAttention (t : AttentionTracker) (now : ℤ) : AttentionTracker × Bool :=
  if t.refusesAck then (t, false)
  else
    let cleared := (t.clearAttention now).setLastTurnEndedAt none
    ({ cleared with
        turnEndPingSent := false
        emitted := cleared.emitted ++ [.attention false none [] none] }, true)

def emitAttentionSignalWithExtras (t : AttentionTracker) (kind : SignalKind) (extras : Extras)
    (now : ℤ) : AttentionTracker :=
  { t with
    state := (advanceAttention t.state (.signal kind now)).next
    emitted := t.emitted ++ [.attention true (some kind) extras none] }

def emitAttentionSignalDeferred (t : AttentionTracker) (kind : SignalKind) (extras : Extras)
    (alsoEmit : List AlsoEmit) (now : ℤ) : AttentionTracker :=
  { t with
    deferred := t.deferred.set kind ⟨extras, alsoEmit, now + settleMs kind, t.deferrals⟩
    deferrals := t.deferrals + 1 }

/-- The part of `drainDeferred` for one pending signal. -/
def flush (now : ℤ) (t : AttentionTracker) (row : SignalKind × DeferredEmit) : AttentionTracker :=
  if now < row.2.dueAt then t
  else
    { t with
      deferred := t.deferred.erase row.1
      state := (advanceAttention t.state (.signal row.1 now)).next
      emitted := t.emitted ++ row.2.alsoEmit.map .other ++
        [.attention true (some row.1) row.2.extras (some row.2.source)] }

def drainDeferred (t : AttentionTracker) (now : ℤ) : AttentionTracker :=
  t.deferred.entries.rows.foldl (flush now) t

def setBackgroundTasks (t : AttentionTracker) (tasks : List BackgroundTask) (now : ℤ) :
    AttentionTracker :=
  { t with
    backgroundTasks := tasks
    backgroundTasksAt := if filterOutstandingBackgroundTasks tasks = [] then none else some now }

/-- What `resolveDeferredTurnEnd` asks before it schedules the ping. -/
def pingDue (t : AttentionTracker) : Bool :=
  t.lastTurnEndedAt.isSome && !t.turnEndPingSent &&
    (filterOutstandingBackgroundTasks t.backgroundTasks).isEmpty

def resolveDeferredTurnEnd (t : AttentionTracker) (now : ℤ) : AttentionTracker :=
  if t.pingDue then
    { t with turnEndPingSent := true, pings := t.pings + 1 }.emitAttentionSignalDeferred
      .agentIdle [] [] now
  else t

end AttentionTracker

/-- An operation on a tracker. -/
inductive Op
  | emitAttentionSignalDeferred (kind : SignalKind) (extras : Extras) (alsoEmit : List AlsoEmit)
      (now : ℤ)
  | cancelDeferred (kind : SignalKind)
  | clearIfConfirmedKind (kind : SignalKind) (now : ℤ)
  | clearAttention (now : ℤ)
  | acknowledgeAttention (now : ℤ)
  | clearDeferred
  | resolveDeferredTurnEnd (now : ℤ)
  | drainDeferred (now : ℤ)
  | applyAttentionTransition (input : Input) (extras : Extras)
  | emitAttentionSignalWithExtras (kind : SignalKind) (extras : Extras) (now : ℤ)
  | setBackgroundTasks (tasks : List BackgroundTask) (now : ℤ)
  /-- `lastTurnEndedAt` is written, and `turnEndPingSent` with it where the session does so. -/
  | writeTurnEnd (at' : Option ℤ) (sent : Option Bool)
  /-- The machine starts again. -/
  | resetState

namespace AttentionTracker

def apply (t : AttentionTracker) : Op → AttentionTracker
  | .emitAttentionSignalDeferred kind extras alsoEmit now =>
    t.emitAttentionSignalDeferred kind extras alsoEmit now
  | .cancelDeferred kind => t.cancelDeferred kind
  | .clearIfConfirmedKind kind now => t.clearIfConfirmedKind kind now
  | .clearAttention now => t.clearAttention now
  | .acknowledgeAttention now => (t.acknowledgeAttention now).1
  | .clearDeferred => t.clearDeferred
  | .resolveDeferredTurnEnd now => t.resolveDeferredTurnEnd now
  | .drainDeferred now => t.drainDeferred now
  | .applyAttentionTransition input extras =>
    t.applyAttentionTransition (advanceAttention t.state input) extras
  | .emitAttentionSignalWithExtras kind extras now =>
    t.emitAttentionSignalWithExtras kind extras now
  | .setBackgroundTasks tasks now => t.setBackgroundTasks tasks now
  | .writeTurnEnd at' sent =>
    { t.setLastTurnEndedAt at' with turnEndPingSent := sent.getD t.turnEndPingSent }
  | .resetState => { t with state := initialAttentionState }

end AttentionTracker

/-! ## What ends a pending signal -/

/-- The operation defers a signal: its kind and its due time. -/
def Op.schedules (t : AttentionTracker) : Op → Option (SignalKind × ℤ)
  | .emitAttentionSignalDeferred kind _ _ now => some (kind, now + settleMs kind)
  | .resolveDeferredTurnEnd now =>
    if t.pingDue then some (.agentIdle, now + settleMs .agentIdle) else none
  | _ => none

/-- The kind of an operation on one kind. -/
def Op.kind : Op → Option SignalKind
  | .emitAttentionSignalDeferred kind _ _ _ => some kind
  | .cancelDeferred kind => some kind
  | .clearIfConfirmedKind kind _ => some kind
  | .resolveDeferredTurnEnd _ => some .agentIdle
  | _ => none

/-- The operation drops the pending signals of all kinds. -/
def Op.dropsAll (t : AttentionTracker) : Op → Bool
  | .clearAttention _ => true
  | .acknowledgeAttention _ => !t.refusesAck
  | .clearDeferred => true
  | _ => false

/-- The operation cancels or replaces a pending signal of the kind. -/
def Op.drops (t : AttentionTracker) (kind : SignalKind) (op : Op) : Bool :=
  op.dropsAll t ||
    match op with
    | .resolveDeferredTurnEnd _ => t.pingDue && kind = .agentIdle
    | op => op.kind = some kind

/-- The operation is a drain at or after the due time. -/
def Op.drains (dueAt : ℤ) : Op → Bool
  | .drainDeferred now => dueAt ≤ now
  | _ => false

/-- The first of the operations that ends the signal is a drain at or after its due time. -/
def settles (kind : SignalKind) (dueAt : ℤ) : AttentionTracker → List Op → Bool
  | _, [] => false
  | t, op :: ops =>
    if op.drops t kind then false
    else if op.drains dueAt then true
    else settles kind dueAt (t.apply op) ops

/-- The attention events that the deferral `n` became. -/
def AttentionTracker.sent (t : AttentionTracker) (n : ℕ) : ℕ :=
  t.emitted.countP fun
    | .attention true _ _ source => source = some n
    | _ => false

namespace AttentionTracker

/-! ## A drain -/

theorem foldl_flush_lookup (now : ℤ) (rows : List (SignalKind × DeferredEmit))
    (t : AttentionTracker) (kind : SignalKind) :
    (rows.foldl (flush now) t).deferred.lookup kind =
      if rows.any (fun row => row.1 = kind && row.2.dueAt ≤ now) then none
      else t.deferred.lookup kind := by
  induction rows generalizing t with
  | nil => simp
  | cons row rows ih =>
    rw [List.foldl_cons, ih, flush, List.any_cons]
    by_cases hdue : now < row.2.dueAt
    · rw [if_pos hdue, decide_eq_false (not_le.2 hdue), Bool.and_false, Bool.false_or]
    · rw [if_neg hdue, decide_eq_true (not_lt.1 hdue), Bool.and_true]
      dsimp only
      rw [OrderedMap.lookup_erase]
      by_cases hkind : row.1 = kind
      · rw [decide_eq_true hkind, Bool.true_or, if_pos hkind.symm]
        simp
      · rw [decide_eq_false hkind, Bool.false_or, if_neg (Ne.symm hkind)]

theorem drainDeferred_lookup (t : AttentionTracker) (now : ℤ) (kind : SignalKind) :
    (t.drainDeferred now).deferred.lookup kind =
      (t.deferred.lookup kind).filter fun e => !decide (e.dueAt ≤ now) := by
  rw [drainDeferred, foldl_flush_lookup]
  cases hlookup : t.deferred.lookup kind with
  | none =>
    split
    · rfl
    · rfl
  | some e =>
    have hrow : ∀ row ∈ t.deferred.entries.rows, row.1 = kind → row.2 = e := by
      rintro ⟨k, e'⟩ hmem rfl
      rw [← OrderedMap.lookup_eq_some_iff, hlookup] at hmem
      exact (Option.some.inj hmem).symm
    split
    · next hdue =>
      obtain ⟨row, hmem, hdue⟩ := List.any_eq_true.1 hdue
      rw [Bool.and_eq_true, decide_eq_true_eq, decide_eq_true_eq] at hdue
      rw [hrow row hmem hdue.1] at hdue
      simp [Option.filter, hdue.2]
    · next hdue =>
      have hmem := OrderedMap.lookup_eq_some_iff.1 hlookup
      have hlater : ¬ e.dueAt ≤ now := by
        intro hle
        exact hdue (List.any_eq_true.2 ⟨(kind, e), hmem, by simp [hle]⟩)
      simp [Option.filter, hlater]

theorem sent_append (t : AttentionTracker) (events : List Event) (n : ℕ) :
    { t with emitted := t.emitted ++ events }.sent n = t.sent n + events.countP (fun
      | .attention true _ _ source => source = some n
      | _ => false) := by
  rw [sent, List.countP_append]
  rfl

theorem foldl_flush_sent (now : ℤ) (rows : List (SignalKind × DeferredEmit))
    (t : AttentionTracker) (n : ℕ) :
    (rows.foldl (flush now) t).sent n =
      t.sent n + rows.countP fun row => decide (row.2.dueAt ≤ now) && row.2.source = n := by
  induction rows generalizing t with
  | nil => simp
  | cons row rows ih =>
    rw [List.foldl_cons, ih, List.countP_cons, flush]
    by_cases hdue : now < row.2.dueAt
    · simp [if_pos hdue, not_le.2 hdue]
    · rw [if_neg hdue]
      by_cases hn : row.2.source = n
      · simp [sent, List.countP_append, List.countP_map, Function.comp_def, not_lt.1 hdue, hn]
        omega
      · simp [sent, List.countP_append, List.countP_map, Function.comp_def, hn]

theorem foldl_flush_deferrals (now : ℤ) (rows : List (SignalKind × DeferredEmit))
    (t : AttentionTracker) : (rows.foldl (flush now) t).deferrals = t.deferrals := by
  induction rows generalizing t with
  | nil => rfl
  | cons row rows ih =>
    rw [List.foldl_cons, ih, flush]
    split
    · rfl
    · rfl

/-! ## The other operations -/

theorem sent_emit (t : AttentionTracker) (events : List Event)
    (hevents : ∀ event ∈ events, ∀ extras signal n, event ≠ .attention true signal extras (some n))
    (n : ℕ) : { t with emitted := t.emitted ++ events }.sent n = t.sent n := by
  rw [sent_append, List.countP_eq_zero.2, Nat.add_zero]
  intro event hmem
  split
  · next signal extras source =>
    intro hsource
    rw [decide_eq_true_eq] at hsource
    exact hevents _ hmem extras signal n (by rw [hsource])
  · simp

theorem sent_applyAttentionTransition (t : AttentionTracker) (transition : Transition)
    (extras : Extras) (n : ℕ) :
    (t.applyAttentionTransition transition extras).sent n = t.sent n := by
  refine sent_emit { t with state := transition.next } _ ?_ n
  intro event hmem
  obtain ⟨emit, -, rfl⟩ := List.mem_map.1 hmem
  simp

theorem clearIfConfirmedKind_deferred (t : AttentionTracker) (kind : SignalKind) (now : ℤ) :
    (t.clearIfConfirmedKind kind now).deferred = t.deferred.erase kind := by
  rw [clearIfConfirmedKind]
  split
  · rfl
  · rfl

theorem clearIfConfirmedKind_deferrals (t : AttentionTracker) (kind : SignalKind) (now : ℤ) :
    (t.clearIfConfirmedKind kind now).deferrals = t.deferrals := by
  rw [clearIfConfirmedKind]
  split
  · rfl
  · rfl

theorem sent_clearIfConfirmedKind (t : AttentionTracker) (kind : SignalKind) (now : ℤ) (n : ℕ) :
    (t.clearIfConfirmedKind kind now).sent n = t.sent n := by
  rw [clearIfConfirmedKind]
  split
  · exact sent_applyAttentionTransition _ _ _ _
  · rfl

theorem acknowledgeAttention_deferred (t : AttentionTracker) (now : ℤ) :
    (t.acknowledgeAttention now).1.deferred = if t.refusesAck then t.deferred else .empty := by
  rw [acknowledgeAttention]
  split
  · rfl
  · rfl

theorem acknowledgeAttention_deferrals (t : AttentionTracker) (now : ℤ) :
    (t.acknowledgeAttention now).1.deferrals = t.deferrals := by
  rw [acknowledgeAttention]
  split
  · rfl
  · rfl

theorem sent_acknowledgeAttention (t : AttentionTracker) (now : ℤ) (n : ℕ) :
    (t.acknowledgeAttention now).1.sent n = t.sent n := by
  rw [acknowledgeAttention]
  split
  · rfl
  · dsimp only
    have hone := sent_emit
      { (t.clearAttention now).setLastTurnEndedAt none with turnEndPingSent := false }
      [.attention false none [] none] (by simp) n
    exact hone.trans (sent_applyAttentionTransition _ _ _ _)

end AttentionTracker

/-! ## What an operation leaves -/

section Spec

variable {t : AttentionTracker} {op : Op}

/-- An operation that defers a signal. -/
theorem apply_of_schedules {kind : SignalKind} {dueAt : ℤ}
    (h : op.schedules t = some (kind, dueAt)) :
    (∃ e : DeferredEmit, e.dueAt = dueAt ∧ e.source = t.deferrals ∧
        ∀ k, (t.apply op).deferred.lookup k =
          if k = kind then some e else t.deferred.lookup k) ∧
      (t.apply op).deferrals = t.deferrals + 1 ∧ ∀ n, (t.apply op).sent n = t.sent n := by
  cases op with
  | emitAttentionSignalDeferred kind' extras alsoEmit now =>
    cases h
    refine ⟨⟨⟨extras, alsoEmit, now + settleMs kind, t.deferrals⟩, rfl, rfl, ?_⟩, rfl,
      fun _ => rfl⟩
    intro k
    exact OrderedMap.lookup_set _ _ _ _
  | resolveDeferredTurnEnd now =>
    rw [Op.schedules] at h
    split at h
    · next hping =>
      cases h
      rw [AttentionTracker.apply, AttentionTracker.resolveDeferredTurnEnd, if_pos hping]
      refine ⟨⟨⟨[], [], now + settleMs .agentIdle, t.deferrals⟩, rfl, rfl, ?_⟩, rfl, fun _ => rfl⟩
      intro k
      exact OrderedMap.lookup_set _ _ _ _
    · cases h
  | _ => cases h

/-- The attention events of the deferral `n` that the operation emits. -/
def Op.sends (t : AttentionTracker) (n : ℕ) : Op → ℕ
  | .drainDeferred now =>
    t.deferred.entries.rows.countP fun row => decide (row.2.dueAt ≤ now) && row.2.source = n
  | _ => 0

/-- Any other operation. -/
theorem apply_of_not_schedules (h : op.schedules t = none) :
    (∀ k, (t.apply op).deferred.lookup k =
        if op.drops t k then none
        else (t.deferred.lookup k).filter fun e => !op.drains e.dueAt) ∧
      (t.apply op).deferrals = t.deferrals ∧
        ∀ n, (t.apply op).sent n = t.sent n + op.sends t n := by
  have hid : ∀ o : Option DeferredEmit, o.filter (fun _ => true) = o := by
    intro o
    cases o with
    | none => rfl
    | some e => rfl
  cases op with
  | emitAttentionSignalDeferred kind extras alsoEmit now => cases h
  | cancelDeferred kind =>
    refine ⟨?_, rfl, fun _ => rfl⟩
    intro k
    simp [AttentionTracker.apply, AttentionTracker.cancelDeferred, OrderedMap.lookup_erase,
      Op.drops, Op.dropsAll, Op.kind, Op.drains, hid, eq_comm]
  | clearIfConfirmedKind kind now =>
    refine ⟨?_, t.clearIfConfirmedKind_deferrals kind now, t.sent_clearIfConfirmedKind kind now⟩
    intro k
    rw [AttentionTracker.apply, AttentionTracker.clearIfConfirmedKind_deferred]
    simp [OrderedMap.lookup_erase, Op.drops, Op.dropsAll, Op.kind, Op.drains, hid, eq_comm]
  | clearAttention now =>
    refine ⟨fun _ => rfl, rfl, ?_⟩
    intro n
    exact AttentionTracker.sent_applyAttentionTransition _ _ _ _
  | acknowledgeAttention now =>
    refine ⟨?_, t.acknowledgeAttention_deferrals now, t.sent_acknowledgeAttention now⟩
    intro k
    rw [AttentionTracker.apply, AttentionTracker.acknowledgeAttention_deferred]
    by_cases hrefuse : t.refusesAck
    · simp [hrefuse, Op.drops, Op.dropsAll, Op.kind, Op.drains, hid]
    · simp [hrefuse, Op.drops, Op.dropsAll]
  | clearDeferred => exact ⟨fun _ => rfl, rfl, fun _ => rfl⟩
  | resolveDeferredTurnEnd now =>
    rw [Op.schedules] at h
    split at h
    · cases h
    · next hping =>
      rw [AttentionTracker.apply, AttentionTracker.resolveDeferredTurnEnd, if_neg hping]
      refine ⟨?_, rfl, fun _ => rfl⟩
      intro k
      simp [hping, Op.drops, Op.dropsAll, Op.drains, hid]
  | drainDeferred now =>
    refine ⟨?_, AttentionTracker.foldl_flush_deferrals _ _ _,
      AttentionTracker.foldl_flush_sent _ _ _⟩
    intro k
    rw [AttentionTracker.apply, AttentionTracker.drainDeferred_lookup]
    simp [Op.drops, Op.dropsAll, Op.kind, Op.drains]
  | applyAttentionTransition input extras =>
    refine ⟨?_, rfl, AttentionTracker.sent_applyAttentionTransition _ _ _⟩
    intro k
    exact (hid _).symm
  | emitAttentionSignalWithExtras kind extras now =>
    refine ⟨fun k => (hid _).symm, rfl, ?_⟩
    intro n
    exact AttentionTracker.sent_emit
      { t with state := (advanceAttention t.state (.signal kind now)).next } _ (by simp) n
  | setBackgroundTasks tasks now => exact ⟨fun k => (hid _).symm, rfl, fun _ => rfl⟩
  | writeTurnEnd at' sent => exact ⟨fun k => (hid _).symm, rfl, fun _ => rfl⟩
  | resetState => exact ⟨fun k => (hid _).symm, rfl, fun _ => rfl⟩

end Spec

/-! ## A deferred signal is told at most once -/

/-- The numbers in use. -/
structure Numbered (t : AttentionTracker) : Prop where
  pending : ∀ k e, t.deferred.lookup k = some e → e.source < t.deferrals
  sent : ∀ n, t.deferrals ≤ n → t.sent n = 0

/-- The deferral `n` is pending, as the signal of its kind. -/
structure Pending (kind : SignalKind) (dueAt : ℤ) (n : ℕ) (t : AttentionTracker) : Prop where
  entry : ∃ e, t.deferred.lookup kind = some e ∧ e.dueAt = dueAt ∧ e.source = n
  unique : ∀ k e, t.deferred.lookup k = some e → e.source = n → k = kind
  sent : t.sent n = 0
  lt : n < t.deferrals

/-- The deferral `n` is no longer pending and was told `c` times. -/
structure Ended (n c : ℕ) (t : AttentionTracker) : Prop where
  gone : ∀ k e, t.deferred.lookup k = some e → e.source ≠ n
  sent : t.sent n = c
  lt : n < t.deferrals

section Once

variable {t : AttentionTracker} {op : Op} {kind : SignalKind} {dueAt : ℤ} {n c : ℕ}

theorem Op.drops_of_schedules {kind' : SignalKind} (h : op.schedules t = some (kind', dueAt)) :
    op.drops t kind = decide (kind = kind') := by
  cases op with
  | emitAttentionSignalDeferred k extras alsoEmit now =>
    cases h
    simp [Op.drops, Op.dropsAll, Op.kind, eq_comm]
  | resolveDeferredTurnEnd now =>
    rw [Op.schedules] at h
    split at h
    · next hping =>
      cases h
      simp [Op.drops, Op.dropsAll, hping]
    · cases h
  | _ => cases h

/-- Only a drain sends, and it drops nothing. -/
theorem Op.sends_of_drops (h : op.drops t kind) : op.sends t n = 0 := by
  cases op with
  | drainDeferred now => simp [Op.drops, Op.dropsAll, Op.kind] at h
  | _ => rfl

theorem Op.sends_eq_zero
    (h : ∀ k e, t.deferred.lookup k = some e → e.source = n → op.drains e.dueAt = false) :
    op.sends t n = 0 := by
  cases op with
  | drainDeferred now =>
    rw [Op.sends, List.countP_eq_zero]
    rintro ⟨k, e⟩ hmem hrow
    rw [Bool.and_eq_true, decide_eq_true_eq, decide_eq_true_eq] at hrow
    have hlate := h k e (OrderedMap.lookup_eq_some_iff.2 hmem) hrow.2
    rw [Op.drains, decide_eq_false_iff_not] at hlate
    exact hlate hrow.1
  | _ => rfl

/-- A pending signal that is due is sent once by a drain. -/
theorem Pending.sends_eq_one (h : Pending kind dueAt n t) (hdue : op.drains dueAt) :
    op.sends t n = 1 := by
  obtain ⟨e, hlookup, he, hn⟩ := h.entry
  cases op with
  | drainDeferred now =>
    have hmem := OrderedMap.lookup_eq_some_iff.1 hlookup
    have hrow : ∀ row ∈ t.deferred.entries.rows,
        (decide (row.2.dueAt ≤ now) && row.2.source = n) = (row == (kind, e)) := by
      rintro ⟨k, e'⟩ hrow
      have hlookup' := OrderedMap.lookup_eq_some_iff.2 hrow
      by_cases hsource : e'.source = n
      · obtain rfl := h.unique k e' hlookup' hsource
        rw [hlookup] at hlookup'
        cases hlookup'
        rw [Op.drains, decide_eq_true_eq, ← he] at hdue
        simp [hdue, hn]
      · have hne : e' ≠ e := by
          rintro rfl
          exact hsource hn
        simp [hsource, hne]
    have hnodup : t.deferred.entries.rows.Nodup := t.deferred.entries.nodup.of_map _
    rw [Op.sends, List.countP_congr fun row hr => by rw [hrow row hr]]
    exact List.count_eq_one_of_mem hnodup hmem
  | _ => cases hdue

theorem Numbered.apply (h : Numbered t) (op : Op) : Numbered (t.apply op) := by
  cases hs : op.schedules t with
  | some scheduled =>
    obtain ⟨⟨e, -, hsource, hlookup⟩, hdeferrals, hsent⟩ := apply_of_schedules hs
    refine ⟨?_, ?_⟩
    · intro k e' he'
      rw [hlookup] at he'
      rw [hdeferrals]
      split at he'
      · cases he'
        omega
      · have := h.pending k e' he'
        omega
    · intro n hn
      rw [hsent, h.sent n (by omega)]
  | none =>
    obtain ⟨hlookup, hdeferrals, hsent⟩ := apply_of_not_schedules hs
    refine ⟨?_, ?_⟩
    · intro k e he
      rw [hlookup] at he
      rw [hdeferrals]
      split at he
      · cases he
      · exact h.pending k e (Option.eq_some_of_filter_eq_some he)
    · intro n hn
      rw [hdeferrals] at hn
      rw [hsent, h.sent n hn, Op.sends_eq_zero]
      intro k e he hsource
      have := h.pending k e he
      omega

theorem Ended.apply (h : Ended n c t) (op : Op) : Ended n c (t.apply op) := by
  cases hs : op.schedules t with
  | some scheduled =>
    obtain ⟨⟨e, -, hsource, hlookup⟩, hdeferrals, hsent⟩ := apply_of_schedules hs
    have hlt := h.lt
    refine ⟨?_, (hsent n).trans h.sent, by omega⟩
    intro k e' he'
    rw [hlookup] at he'
    split at he'
    · cases he'
      omega
    · exact h.gone k e' he'
  | none =>
    obtain ⟨hlookup, hdeferrals, hsent⟩ := apply_of_not_schedules hs
    refine ⟨?_, ?_, by rw [hdeferrals]; exact h.lt⟩
    · intro k e he
      rw [hlookup] at he
      split at he
      · cases he
      · exact h.gone k e (Option.eq_some_of_filter_eq_some he)
    · rw [hsent, h.sent, Op.sends_eq_zero]
      · rfl
      · intro k e he hsource
        exact absurd hsource (h.gone k e he)

/-- An operation that drops the signal. -/
theorem Pending.drop (h : Pending kind dueAt n t) (hdrop : op.drops t kind) :
    Ended n 0 (t.apply op) := by
  cases hs : op.schedules t with
  | some scheduled =>
    obtain ⟨⟨e, -, hsource, hlookup⟩, hdeferrals, hsent⟩ := apply_of_schedules hs
    rw [Op.drops_of_schedules hs, decide_eq_true_eq] at hdrop
    have hlt := h.lt
    refine ⟨?_, (hsent n).trans h.sent, by omega⟩
    intro k e' he' hn
    rw [hlookup] at he'
    split at he'
    · cases he'
      omega
    · next hk => exact hk ((h.unique k e' he' hn).trans hdrop)
  | none =>
    obtain ⟨hlookup, hdeferrals, hsent⟩ := apply_of_not_schedules hs
    refine ⟨?_, ?_, by rw [hdeferrals]; exact h.lt⟩
    · intro k e he hn
      rw [hlookup] at he
      split at he
      · cases he
      · next hk =>
        obtain rfl := h.unique k e (Option.eq_some_of_filter_eq_some he) hn
        exact hk hdrop
    · rw [hsent, h.sent, Op.sends_of_drops hdrop]

/-- A drain at or after the due time. -/
theorem Pending.drain (h : Pending kind dueAt n t) (hdrop : ¬ op.drops t kind)
    (hdue : op.drains dueAt) : Ended n 1 (t.apply op) := by
  have hs : op.schedules t = none := by
    cases op with
    | drainDeferred now => rfl
    | _ => cases hdue
  obtain ⟨hlookup, hdeferrals, hsent⟩ := apply_of_not_schedules hs
  refine ⟨?_, ?_, by rw [hdeferrals]; exact h.lt⟩
  · intro k e he hn
    rw [hlookup] at he
    split at he
    · cases he
    · obtain ⟨he, hkept⟩ := Option.filter_eq_some_iff.1 he
      obtain rfl := h.unique k e he hn
      obtain ⟨e', he', hdueAt, -⟩ := h.entry
      rw [he] at he'
      cases he'
      rw [hdueAt, hdue] at hkept
      cases hkept
  · rw [hsent, h.sent, h.sends_eq_one hdue]

/-- Any other operation. -/
theorem Pending.keep (h : Pending kind dueAt n t) (hdrop : ¬ op.drops t kind)
    (hdue : ¬ op.drains dueAt) : Pending kind dueAt n (t.apply op) := by
  obtain ⟨e, hentry, hdueAt, hsource⟩ := h.entry
  cases hs : op.schedules t with
  | some scheduled =>
    obtain ⟨⟨e', -, hsource', hlookup⟩, hdeferrals, hsent⟩ := apply_of_schedules hs
    rw [Op.drops_of_schedules hs, decide_eq_true_eq] at hdrop
    have hlt := h.lt
    refine ⟨⟨e, ?_, hdueAt, hsource⟩, ?_, (hsent n).trans h.sent, by omega⟩
    · rw [hlookup, if_neg hdrop]
      exact hentry
    · intro k e'' he'' hn
      rw [hlookup] at he''
      split at he''
      · cases he''
        omega
      · exact h.unique k e'' he'' hn
  | none =>
    obtain ⟨hlookup, hdeferrals, hsent⟩ := apply_of_not_schedules hs
    rw [Bool.not_eq_true] at hdue
    refine ⟨⟨e, ?_, hdueAt, hsource⟩, ?_, ?_, by rw [hdeferrals]; exact h.lt⟩
    · rw [hlookup, if_neg hdrop, hentry]
      simp [Option.filter, hdueAt, hdue]
    · intro k e' he' hn
      rw [hlookup] at he'
      split at he'
      · cases he'
      · exact h.unique k e' (Option.eq_some_of_filter_eq_some he') hn
    · rw [hsent, h.sent, Op.sends_eq_zero]
      intro k e' he' hn
      obtain rfl := h.unique k e' he' hn
      rw [hentry] at he'
      cases he'
      rw [hdueAt]
      exact hdue

theorem Ended.foldl (h : Ended n c t) (ops : List Op) :
    Ended n c (ops.foldl AttentionTracker.apply t) := by
  induction ops generalizing t with
  | nil => exact h
  | cons op ops ih => exact ih (h.apply op)

/-- A pending signal is told once if the first operation that ends it is a drain at or after
its due time, and not at all otherwise. -/
theorem Pending.sent_foldl (h : Pending kind dueAt n t) (ops : List Op) :
    (ops.foldl AttentionTracker.apply t).sent n = if settles kind dueAt t ops then 1 else 0 := by
  induction ops generalizing t with
  | nil => exact h.sent
  | cons op ops ih =>
    rw [List.foldl_cons, settles]
    by_cases hdrop : op.drops t kind
    · rw [if_pos hdrop, ((h.drop hdrop).foldl ops).sent]
      rfl
    · rw [if_neg hdrop]
      by_cases hdue : op.drains dueAt
      · rw [if_pos hdue, ((h.drain hdrop hdue).foldl ops).sent]
        rfl
      · rw [if_neg hdue]
        exact ih (h.keep hdrop hdue)

theorem Numbered.pending_of_schedules (h : Numbered t)
    (hs : op.schedules t = some (kind, dueAt)) : Pending kind dueAt t.deferrals (t.apply op) := by
  obtain ⟨⟨e, hdueAt, hsource, hlookup⟩, hdeferrals, hsent⟩ := apply_of_schedules hs
  refine ⟨⟨e, ?_, hdueAt, hsource⟩, ?_, (hsent _).trans (h.sent _ le_rfl), by omega⟩
  · rw [hlookup, if_pos rfl]
  · intro k e' he' hn
    rw [hlookup] at he'
    split at he'
    · assumption
    · have := h.pending k e' he'
      omega

end Once

theorem Numbered.start : Numbered {} := by
  refine ⟨?_, fun n _ => rfl⟩
  intro k e he
  cases he

theorem Numbered.foldl {t : AttentionTracker} (h : Numbered t) (ops : List Op) :
    Numbered (ops.foldl AttentionTracker.apply t) := by
  induction ops generalizing t with
  | nil => exact h
  | cons op ops ih => exact ih (h.apply op)

/-- What is told of a deferred signal. -/
theorem sent_eq (before after : List Op) (op : Op) {kind : SignalKind} {dueAt : ℤ}
    (hs : op.schedules (before.foldl AttentionTracker.apply {}) = some (kind, dueAt)) :
    ((before ++ op :: after).foldl AttentionTracker.apply {}).sent
        (before.foldl AttentionTracker.apply {}).deferrals =
      if settles kind dueAt ((before ++ [op]).foldl AttentionTracker.apply {}) after then 1
      else 0 := by
  have hpending := (Numbered.start.foldl before).pending_of_schedules hs
  rw [List.foldl_append, List.foldl_cons, List.foldl_append, List.foldl_cons, List.foldl_nil]
  exact hpending.sent_foldl after

/-- An operation on one kind leaves the pending signals of the others, and so does any other
operation that does not drop all signals and is not a drain at or after the due time. -/
theorem others_kept (t : AttentionTracker) (op : Op) {kind : SignalKind} {e : DeferredEmit}
    (he : t.deferred.lookup kind = some e) (hkind : op.kind ≠ some kind)
    (hall : op.dropsAll t = false) (hdue : op.drains e.dueAt = false) :
    (t.apply op).deferred.lookup kind = some e := by
  have hdrop : op.drops t kind = false := by
    unfold Op.drops
    rw [hall, Bool.false_or]
    split
    · simp only [Op.kind, ne_eq, Option.some.injEq] at hkind
      simp [Ne.symm hkind]
    · simpa using hkind
  cases hs : op.schedules t with
  | some scheduled =>
    obtain ⟨⟨e', -, -, hlookup⟩, -, -⟩ := apply_of_schedules hs
    rw [Op.drops_of_schedules hs, decide_eq_false_iff_not] at hdrop
    rw [hlookup, if_neg hdrop]
    exact he
  | none =>
    obtain ⟨hlookup, -, -⟩ := apply_of_not_schedules hs
    rw [hlookup, hdrop, he]
    simp [Option.filter, hdue]

/-- An operation that drops all signals leaves none. -/
theorem none_kept (t : AttentionTracker) (op : Op) (hall : op.dropsAll t) (kind : SignalKind) :
    (t.apply op).deferred.lookup kind = none := by
  have hs : op.schedules t = none := by
    cases op with
    | emitAttentionSignalDeferred kind extras alsoEmit now => cases hall
    | resolveDeferredTurnEnd now => cases hall
    | _ => rfl
  obtain ⟨hlookup, -, -⟩ := apply_of_not_schedules hs
  have hdrop : op.drops t kind = true := by
    unfold Op.drops
    rw [hall, Bool.true_or]
  rw [hlookup, if_pos hdrop]

/-! ## The ping of a turn -/

/-- The pings scheduled since the end of the turn was written are those the flag tells of. -/
def PingedOnce (t : AttentionTracker) : Prop := t.pings ≤ t.turnEndPingSent.toNat

theorem PingedOnce.le_one {t : AttentionTracker} (h : PingedOnce t) : t.pings ≤ 1 :=
  h.trans (Bool.toNat_le _)

theorem AttentionTracker.foldl_flush_pings (now : ℤ) (rows : List (SignalKind × DeferredEmit))
    (t : AttentionTracker) : (rows.foldl (flush now) t).pings = t.pings ∧
      (rows.foldl (flush now) t).turnEndPingSent = t.turnEndPingSent := by
  induction rows generalizing t with
  | nil => exact ⟨rfl, rfl⟩
  | cons row rows ih =>
    obtain ⟨hpings, hsent⟩ := ih (flush now t row)
    rw [List.foldl_cons, hpings, hsent, flush]
    split
    · exact ⟨rfl, rfl⟩
    · exact ⟨rfl, rfl⟩

/-- Every operation schedules at most one ping for the end of a turn. -/
theorem PingedOnce.apply {t : AttentionTracker} (h : PingedOnce t) (op : Op) :
    PingedOnce (t.apply op) := by
  cases op with
  | clearIfConfirmedKind kind now =>
    rw [AttentionTracker.apply, AttentionTracker.clearIfConfirmedKind]
    split
    · exact h
    · exact h
  | acknowledgeAttention now =>
    rw [AttentionTracker.apply, AttentionTracker.acknowledgeAttention]
    split
    · exact h
    · exact Nat.zero_le _
  | resolveDeferredTurnEnd now =>
    rw [AttentionTracker.apply, AttentionTracker.resolveDeferredTurnEnd]
    split
    · next hping =>
      have hnot : t.turnEndPingSent = false := by
        simp only [AttentionTracker.pingDue, Bool.and_eq_true, Bool.not_eq_true'] at hping
        exact hping.1.2
      rw [PingedOnce, hnot] at h
      exact Nat.succ_le_succ h
    · exact h
  | drainDeferred now =>
    rw [AttentionTracker.apply, PingedOnce, AttentionTracker.drainDeferred,
      (AttentionTracker.foldl_flush_pings now _ t).1,
      (AttentionTracker.foldl_flush_pings now _ t).2]
    exact h
  | writeTurnEnd at' sent => exact Nat.zero_le _
  | emitAttentionSignalDeferred kind extras alsoEmit now => exact h
  | cancelDeferred kind => exact h
  | clearAttention now => exact h
  | clearDeferred => exact h
  | applyAttentionTransition input extras => exact h
  | emitAttentionSignalWithExtras kind extras now => exact h
  | setBackgroundTasks tasks now => exact h
  | resetState => exact h

theorem PingedOnce.foldl {t : AttentionTracker} (h : PingedOnce t) (ops : List Op) :
    PingedOnce (ops.foldl AttentionTracker.apply t) := by
  induction ops generalizing t with
  | nil => exact h
  | cons op ops ih => exact ih (h.apply op)

/-! ## Where a signal comes from -/

/-- The operation makes the kind pending or confirmed. -/
def Op.raises (kind : SignalKind) : Op → Bool
  | .emitAttentionSignalDeferred k _ _ _ => k = kind
  | .emitAttentionSignalWithExtras k _ _ => k = kind
  | .applyAttentionTransition (.signal k _) _ => k = kind
  | .applyAttentionTransition (.tick _) _ => 0 < confirmMs kind
  | .resolveDeferredTurnEnd _ => kind = .agentIdle
  | _ => false

/-- The operation leaves the kind neither pending nor confirmed. -/
def Op.clears (kind : SignalKind) : Op → Bool
  | .clearIfConfirmedKind k _ => k = kind
  | .clearAttention _ => true
  | _ => false

/-- A signal of the kind is pending. -/
def Deferred (t : AttentionTracker) (kind : SignalKind) : Prop :=
  (t.deferred.lookup kind).isSome

/-- A signal of the kind is pending or confirmed. -/
def Live (t : AttentionTracker) (kind : SignalKind) : Prop :=
  Deferred t kind ∨ t.state.confirmedKind = some kind

/-- What is left of a condition on the kind after the operations. -/
def Survives (kind : SignalKind) : List Op → Prop → Prop
  | [], p => p
  | op :: ops, p => Survives kind ops (op.raises kind ∨ op.clears kind = false ∧ p)

theorem Survives.mono {kind : SignalKind} {p q : Prop} (hpq : p → q) {ops : List Op}
    (h : Survives kind ops p) : Survives kind ops q := by
  induction ops generalizing p q with
  | nil => exact hpq h
  | cons op ops ih =>
    refine ih ?_ h
    rintro (hraise | ⟨hclear, hp⟩)
    · exact Or.inl hraise
    · exact Or.inr ⟨hclear, hpq hp⟩

section Live

variable {t : AttentionTracker} {op : Op} {kind : SignalKind}

theorem deferred_apply (h : Deferred (t.apply op) kind) :
    op.raises kind ∨ op.clears kind = false ∧ Deferred t kind := by
  cases hs : op.schedules t with
  | some scheduled =>
    obtain ⟨⟨e, -, -, hlookup⟩, -, -⟩ := apply_of_schedules hs
    rw [Deferred, hlookup] at h
    have hclear : op.clears kind = false := by
      cases op with
      | clearIfConfirmedKind k now => cases hs
      | clearAttention now => cases hs
      | _ => rfl
    split at h
    · next hkind =>
      left
      cases op with
      | emitAttentionSignalDeferred k extras alsoEmit now =>
        cases hs
        simp [Op.raises, hkind]
      | resolveDeferredTurnEnd now =>
        rw [Op.schedules] at hs
        split at hs
        · cases hs
          simp [Op.raises, hkind]
        · cases hs
      | _ => cases hs
    · exact Or.inr ⟨hclear, h⟩
  | none =>
    obtain ⟨hlookup, -, -⟩ := apply_of_not_schedules hs
    rw [Deferred, hlookup] at h
    right
    split at h
    · cases h
    · next hdrop =>
      refine ⟨?_, ?_⟩
      · cases op with
        | clearIfConfirmedKind k now =>
          simpa [Op.drops, Op.dropsAll, Op.kind, Op.clears] using hdrop
        | clearAttention now => simp [Op.drops, Op.dropsAll] at hdrop
        | _ => rfl
      · obtain ⟨e, he⟩ := Option.isSome_iff_exists.1 h
        exact Option.isSome_iff_exists.2 ⟨e, Option.eq_some_of_filter_eq_some he⟩

theorem foldl_flush_wellFormed (now : ℤ) (rows : List (SignalKind × DeferredEmit))
    (h : t.state.WellFormed) :
    (rows.foldl (AttentionTracker.flush now) t).state.WellFormed := by
  induction rows generalizing t with
  | nil => exact h
  | cons row rows ih =>
    apply ih
    rw [AttentionTracker.flush]
    split
    · exact h
    · exact h.advance _

theorem wellFormed_apply (h : t.state.WellFormed) (op : Op) : (t.apply op).state.WellFormed := by
  cases op with
  | clearIfConfirmedKind kind now =>
    rw [AttentionTracker.apply, AttentionTracker.clearIfConfirmedKind]
    split
    · exact h.advance _
    · exact h
  | clearAttention now => exact h.advance _
  | acknowledgeAttention now =>
    rw [AttentionTracker.apply, AttentionTracker.acknowledgeAttention]
    split
    · exact h
    · exact h.advance _
  | resolveDeferredTurnEnd now =>
    rw [AttentionTracker.apply, AttentionTracker.resolveDeferredTurnEnd]
    split
    · exact h
    · exact h
  | drainDeferred now => exact foldl_flush_wellFormed now _ h
  | applyAttentionTransition input extras => exact h.advance _
  | emitAttentionSignalWithExtras kind extras now => exact h.advance _
  | resetState => exact .initial
  | emitAttentionSignalDeferred kind extras alsoEmit now => exact h
  | cancelDeferred kind => exact h
  | clearDeferred => exact h
  | setBackgroundTasks tasks now => exact h
  | writeTurnEnd at' sent => exact h

theorem wellFormed_foldl (h : t.state.WellFormed) (ops : List Op) :
    (ops.foldl AttentionTracker.apply t).state.WellFormed := by
  induction ops generalizing t with
  | nil => exact h
  | cons op ops ih => exact ih (wellFormed_apply h op)

/-- A drain confirms what is pending. -/
theorem foldl_flush_confirmedKind (now : ℤ) (rows : List (SignalKind × DeferredEmit))
    (h : (rows.foldl (AttentionTracker.flush now) t).state.confirmedKind = some kind) :
    t.state.confirmedKind = some kind ∨ ∃ e, (kind, e) ∈ rows := by
  induction rows generalizing t with
  | nil => exact Or.inl h
  | cons row rows ih =>
    rcases ih h with h | ⟨e, he⟩
    · rw [AttentionTracker.flush] at h
      split at h
      · exact Or.inl h
      · rcases confirmedKind_advance h with h | h
        · exact Or.inl h
        · right
          cases h
          exact ⟨row.2, List.mem_cons_self⟩
    · exact Or.inr ⟨e, List.mem_cons_of_mem _ he⟩

/-- A confirmed kind was live before, or the operation raises it. -/
theorem confirmedKind_apply (hwf : t.state.WellFormed)
    (h : (t.apply op).state.confirmedKind = some kind) :
    op.raises kind ∨ op.clears kind = false ∧ Live t kind := by
  have huser : ∀ {m : Machine} {now : ℤ}, m.WellFormed →
      (advanceAttention m (.userInput now)).next.confirmedKind ≠ some kind := by
    intro m now hm
    rw [confirmedKind_userInput hm]
    simp
  cases op with
  | clearIfConfirmedKind k now =>
    rw [AttentionTracker.apply, AttentionTracker.clearIfConfirmedKind] at h
    split at h
    · exact absurd h (huser hwf)
    · next hnot =>
      right
      refine ⟨?_, Or.inr h⟩
      rw [Op.clears, decide_eq_false_iff_not]
      rintro rfl
      have hstate := hwf.confirmedKind
      rw [show t.state.confirmedKind = some k from h] at hstate
      exact hnot ⟨hstate.1 rfl, h⟩
  | clearAttention now => exact absurd h (huser hwf)
  | acknowledgeAttention now =>
    rw [AttentionTracker.apply, AttentionTracker.acknowledgeAttention] at h
    split at h
    · exact Or.inr ⟨rfl, Or.inr h⟩
    · exact absurd h (huser hwf)
  | resolveDeferredTurnEnd now =>
    rw [AttentionTracker.apply, AttentionTracker.resolveDeferredTurnEnd] at h
    split at h
    · exact Or.inr ⟨rfl, Or.inr h⟩
    · exact Or.inr ⟨rfl, Or.inr h⟩
  | drainDeferred now =>
    right
    refine ⟨rfl, ?_⟩
    rcases foldl_flush_confirmedKind now _ h with h | ⟨e, he⟩
    · exact Or.inr h
    · left
      rw [Deferred, OrderedMap.lookup_eq_some_iff.2 he]
      rfl
  | applyAttentionTransition input extras =>
    rcases confirmedKind_advance h with h | h
    · refine Or.inr ⟨?_, Or.inr h⟩
      cases input with
      | _ => rfl
    · left
      cases input with
      | signal k now =>
        cases h
        simp [Op.raises]
      | output now => cases h
      | tick now => simpa [Op.raises] using hwf.waits kind h
      | userInput now => cases h
  | emitAttentionSignalWithExtras k extras now =>
    rcases confirmedKind_advance h with h | h
    · exact Or.inr ⟨rfl, Or.inr h⟩
    · left
      cases h
      simp [Op.raises]
  | resetState => cases h
  | emitAttentionSignalDeferred k extras alsoEmit now => exact Or.inr ⟨rfl, Or.inr h⟩
  | cancelDeferred k => exact Or.inr ⟨rfl, Or.inr h⟩
  | clearDeferred => exact Or.inr ⟨rfl, Or.inr h⟩
  | setBackgroundTasks tasks now => exact Or.inr ⟨rfl, Or.inr h⟩
  | writeTurnEnd at' sent => exact Or.inr ⟨rfl, Or.inr h⟩

theorem live_apply (hwf : t.state.WellFormed) (h : Live (t.apply op) kind) :
    op.raises kind ∨ op.clears kind = false ∧ Live t kind := by
  rcases h with h | h
  · exact (deferred_apply h).imp_right fun ⟨hclear, h⟩ => ⟨hclear, Or.inl h⟩
  · exact confirmedKind_apply hwf h

theorem deferred_foldl (ops : List Op) (h : Deferred (ops.foldl AttentionTracker.apply t) kind) :
    Survives kind ops (Deferred t kind) := by
  induction ops generalizing t with
  | nil => exact h
  | cons op ops ih => exact (ih h).mono deferred_apply

theorem live_foldl (hwf : t.state.WellFormed) (ops : List Op)
    (h : Live (ops.foldl AttentionTracker.apply t) kind) : Survives kind ops (Live t kind) := by
  induction ops generalizing t with
  | nil => exact h
  | cons op ops ih => exact (ih (wellFormed_apply hwf op) h).mono (live_apply hwf)

end Live

end Attention
end Mullion
