import Mullion.Lib.OrderedMap

/-!
# The retry ledger

`createRetryBackoff` (`services/task-retry-backoff.ts`): for each key when it was last attempted and
how often, with a wait that doubles up to a ceiling, for a bounded number of keys.

Three things are asked of it over a whole sequence of calls: that it stays within its bound, that
the waits of a key which is only recorded when it may be attempted (`Patient`) double as they
should, and that a full ledger drops the key attempted least recently. The first two hold for every
sequence and are inductions on the calls, the second from the entry that the last attempt left. The
third fails: `Map.set` leaves a key that is there in its place, so the key inserted first may have
been retried (`Retried`) after every other one (`retried_key_is_dropped`). `ledger_laws` has it
exactly as long as no call drops a key that `Overtakes` another one. The proof compares the entry
that is dropped with the last record of the key, and needs that the clock does not go back.

Times and intervals are exact numbers.
-/

namespace Mullion
namespace RetryBackoff

/-! ## The ledger -/

structure RetryBackoffOptions where
  ttlMs : ℚ
  maxTtlMs : ℚ
  maxEntries : ℕ
  deriving DecidableEq, Repr

/-- `RetryBackoffEntry`, with the fields of the call site. -/
structure RetryBackoffEntry (E : Type) where
  lastAttemptedAt : ℚ
  attempts : ℤ
  fields : E
  deriving DecidableEq, Repr

/-- `RetryBackoffRecordOptions`; `extra` is what spreading it makes of the fields. -/
structure RecordOptions (E : Type) where
  attempts : Option ℤ := none
  extra : E → E := id

abbrev Ledger (K E : Type) := OrderedMap K (RetryBackoffEntry E)

/-- A call that writes. -/
inductive Call (K E : Type)
  | record (key : K) (now : ℚ) (options : RecordOptions E)
  | reset (key : K)
  | clear (key : K)

namespace Call

variable {K E : Type}

def key : Call K E → K
  | .record key _ _ | .reset key | .clear key => key

/-- The clock of a call that reads it. -/
def now : Call K E → Option ℚ
  | .record _ now _ => some now
  | _ => none

end Call

variable {K E : Type} [DecidableEq K] [Inhabited E] (options : RetryBackoffOptions)

/-- `backoffMs`. -/
def backoffMs (attempts : ℤ) : ℚ := min (options.ttlMs * 2 ^ (attempts - 1)) options.maxTtlMs

def shouldAttempt (ledger : Ledger K E) (key : K) (now : ℚ) : Bool :=
  match ledger.lookup key with
  | none => true
  | some entry => backoffMs options entry.attempts ≤ now - entry.lastAttemptedAt

/-- The entry that `record` writes. -/
def entryOf (existing : Option (RetryBackoffEntry E)) (now : ℚ) (o : RecordOptions E) :
    RetryBackoffEntry E where
  lastAttemptedAt := now
  attempts := o.attempts.getD ((existing.map RetryBackoffEntry.attempts).getD 0 + 1)
  fields := o.extra ((existing.map RetryBackoffEntry.fields).getD default)

def record (ledger : Ledger K E) (key : K) (now : ℚ) (o : RecordOptions E) : Ledger K E :=
  let existing := ledger.lookup key
  let ledger := if existing.isNone then ledger.makeRoom options.maxEntries else ledger
  ledger.set key (entryOf existing now o)

def reset (ledger : Ledger K E) (key : K) : Ledger K E := ledger.erase key

def clear (ledger : Ledger K E) (key : K) : Ledger K E := ledger.erase key

/-- One call. -/
def apply (ledger : Ledger K E) : Call K E → Ledger K E
  | .record key now o => record options ledger key now o
  | .reset key => reset ledger key
  | .clear key => clear ledger key

/-- The ledger after some calls. -/
def run (ledger : Ledger K E) (calls : List (Call K E)) : Ledger K E :=
  calls.foldl (apply options) ledger

/-- The ledger after these calls. -/
def after (calls : List (Call K E)) : Ledger K E := run options OrderedMap.empty calls

/-! ## What is promised -/

/-- The key that a call drops to make room. -/
def drops (ledger : Ledger K E) : Call K E → Option K
  | .record key _ _ =>
    if (ledger.lookup key).isNone then ledger.dropped options.maxEntries else none
  | _ => none

/-- A key that is dropped was attempted no later than any key that is kept. -/
def DropsLeastRecent (ledger : Ledger K E) (call : Call K E) : Prop :=
  ∀ d e, drops options ledger call = some d → ledger.lookup d = some e →
    ∀ k e', k ≠ d → ledger.lookup k = some e' → e.lastAttemptedAt ≤ e'.lastAttemptedAt

/-- The last call for the key was a `record` at this time, of a key that the ledger held. -/
def Retried (calls : List (Call K E)) (key : K) (now : ℚ) : Prop :=
  ∃ before o later, calls = before ++ .record key now o :: later ∧
    ((after options before).lookup key).isSome ∧ ∀ c ∈ later, c.key ≠ key

/-- The call drops a key that was retried after some other key was last recorded. -/
def Overtakes (calls : List (Call K E)) (call : Call K E) : Prop :=
  ∃ d now, drops options (after options calls) call = some d ∧ Retried options calls d now ∧
    ∃ k e, k ≠ d ∧ (after options calls).lookup k = some e ∧ e.lastAttemptedAt < now

/-- The key is recorded only when it may be attempted and without an explicit count, and it is
neither reset nor dropped. -/
def Patient (key : K) : Ledger K E → List (Call K E) → Prop
  | _, [] => True
  | ledger, call :: calls =>
    (∀ now o, call = .record key now o → shouldAttempt options ledger key now ∧ o.attempts = none) ∧
      call ≠ .reset key ∧ call ≠ .clear key ∧ drops options ledger call ≠ some key ∧
      Patient key (apply options ledger call) calls

/-- When the key is recorded. -/
def attemptsOf (key : K) (calls : List (Call K E)) : List ℚ :=
  calls.filterMap fun call => if call.key = key then call.now else none

/-- From the `n`-th attempt on, each wait is as long as it should be. -/
def WaitsFrom : ℕ → List ℚ → Prop
  | n, t :: t' :: times =>
    min (options.ttlMs * 2 ^ (n - 1 : ℤ)) options.maxTtlMs ≤ t' - t ∧
      WaitsFrom (n + 1) (t' :: times)
  | _, _ => True

/-! ## One call -/

omit [Inhabited E] in
/-- Two lookups after a drop. -/
theorem lookup_room (ledger : Ledger K E) (key k : K) :
    (if (ledger.lookup key).isNone then ledger.makeRoom options.maxEntries else ledger).lookup k =
      if (if (ledger.lookup key).isNone then ledger.dropped options.maxEntries else none) = some k
        then none else ledger.lookup k := by
  split
  case isTrue => exact OrderedMap.lookup_makeRoom ledger options.maxEntries k
  case isFalse => simp

/-- **One call**, read by key. -/
theorem lookup_apply (ledger : Ledger K E) (call : Call K E) (k : K) :
    (apply options ledger call).lookup k =
      if call.key = k then
        match call with
        | .record _ now o => some (entryOf (ledger.lookup k) now o)
        | _ => none
      else if drops options ledger call = some k then none else ledger.lookup k := by
  cases call with
  | record key now o =>
    rw [apply, record, OrderedMap.lookup_set, lookup_room, drops, Call.key]
    by_cases hk : key = k
    · subst hk
      simp
    · rw [if_neg (Ne.symm hk), if_neg hk]
  | reset key =>
    rw [apply, reset, OrderedMap.lookup_erase]
    simp [Call.key, drops, eq_comm]
  | clear key =>
    rw [apply, clear, OrderedMap.lookup_erase]
    simp [Call.key, drops, eq_comm]

theorem record_of_mem {ledger : Ledger K E} {key : K} (h : key ∈ ledger.entries.keys) (now : ℚ)
    (o : RecordOptions E) :
    record options ledger key now o = ledger.set key (entryOf (ledger.lookup key) now o) := by
  obtain ⟨e, he⟩ := Option.isSome_iff_exists.1 (OrderedMap.lookup_isSome_iff.2 h)
  rw [record, he]
  rfl

/-- A new key is put into a ledger with room for it. -/
theorem record_of_not_mem {ledger : Ledger K E} {key : K} (h : key ∉ ledger.entries.keys)
    (now : ℚ) (o : RecordOptions E) :
    record options ledger key now o =
        (ledger.makeRoom options.maxEntries).set key (entryOf none now o) ∧
      key ∉ (ledger.makeRoom options.maxEntries).entries.keys := by
  have hnone : ledger.lookup key = none := by
    rw [← Option.not_isSome_iff_eq_none, OrderedMap.lookup_isSome_iff]
    exact h
  refine ⟨by rw [record, hnone]; rfl, fun hmem => h ?_⟩
  exact ((OrderedMap.rows_makeRoom_sublist ledger _).map Prod.fst).subset hmem

/-- **The bound.** -/
theorem size_apply {ledger : Ledger K E} (hcap : 0 < options.maxEntries)
    (h : ledger.size ≤ options.maxEntries) (call : Call K E) :
    (apply options ledger call).size ≤ options.maxEntries := by
  cases call with
  | record key now o =>
    rw [apply]
    by_cases hkey : key ∈ ledger.entries.keys
    · rw [record_of_mem options hkey, OrderedMap.size_set_of_mem _ hkey]
      exact h
    · obtain ⟨hrecord, hroom⟩ := record_of_not_mem options hkey now o
      rw [hrecord, OrderedMap.size_set_of_not_mem _ hroom]
      exact OrderedMap.size_makeRoom_lt hcap h
  | reset key => exact (OrderedMap.size_erase_le ledger key).trans h
  | clear key => exact (OrderedMap.size_erase_le ledger key).trans h

theorem after_concat (calls : List (Call K E)) (call : Call K E) :
    after options (calls ++ [call]) = apply options (after options calls) call :=
  List.foldl_append

theorem size_after (hcap : 0 < options.maxEntries) (calls : List (Call K E)) :
    (after options calls).size ≤ options.maxEntries := by
  induction calls using List.reverseRecOn with
  | nil => exact Nat.zero_le _
  | append_singleton calls call ih =>
    rw [after_concat]
    exact size_apply options hcap ih call

/-! ## The order of the entries -/

/-- Calls for other keys keep an entry, or drop it. -/
theorem lookup_run_other (ledger : Ledger K E) {calls : List (Call K E)} {k : K}
    (h : ∀ c ∈ calls, c.key ≠ k) :
    (run options ledger calls).lookup k = ledger.lookup k ∨
      (run options ledger calls).lookup k = none := by
  induction calls generalizing ledger with
  | nil => exact Or.inl rfl
  | cons call calls ih =>
    rw [List.forall_mem_cons] at h
    have hstep := lookup_apply options ledger call k
    rw [if_neg h.1] at hstep
    rw [run, List.foldl_cons, ← run]
    rcases ih (apply options ledger call) h.2 with hrest | hrest
    · rw [hrest, hstep]
      split
      · exact Or.inr rfl
      · exact Or.inl rfl
    · exact Or.inr hrest

/-- The time of a retried key is that of its retry. -/
theorem lastAttemptedAt_of_retried {calls : List (Call K E)} {k : K} {now : ℚ}
    (h : Retried options calls k now) {e : RetryBackoffEntry E}
    (he : (after options calls).lookup k = some e) : e.lastAttemptedAt = now := by
  obtain ⟨before, o, later, rfl, -, hlater⟩ := h
  have hsplit : after options (before ++ .record k now o :: later) =
      run options (apply options (after options before) (.record k now o)) later := by
    rw [after, run, List.foldl_append, List.foldl_cons]
    rfl
  have hrecord := lookup_apply options (after options before) (.record k now o) k
  rw [Call.key, if_pos rfl] at hrecord
  rw [hsplit] at he
  rcases lookup_run_other options _ hlater with hsame | hnone
  · rw [hsame, hrecord] at he
    rw [← Option.some.inj he]
    rfl
  · rw [hnone] at he
    cases he

theorem Retried.concat {calls : List (Call K E)} {k : K} {now : ℚ}
    (h : Retried options calls k now) {call : Call K E} (hcall : call.key ≠ k) :
    Retried options (calls ++ [call]) k now := by
  obtain ⟨before, o, later, rfl, hheld, hlater⟩ := h
  refine ⟨before, o, later ++ [call], by rw [List.append_assoc, List.cons_append], hheld, ?_⟩
  intro c hc
  rcases List.mem_append.1 hc with hc | hc
  · exact hlater c hc
  · rwa [List.mem_singleton.1 hc]

/-- An entry is behind those that were attempted earlier, unless these were retried; and no time
is later than the last call. -/
structure Ordered (calls : List (Call K E)) (rows : List (K × RetryBackoffEntry E)) : Prop where
  pairs : rows.Pairwise fun a b => Retried options calls a.1 a.2.lastAttemptedAt ∨
    a.2.lastAttemptedAt ≤ b.2.lastAttemptedAt
  clock : ∀ a ∈ rows, a.2.lastAttemptedAt ∈ calls.filterMap Call.now

/-- A call for a key that is not among the entries. -/
theorem Ordered.other {calls : List (Call K E)} {rows rows' : List (K × RetryBackoffEntry E)}
    (h : Ordered options calls rows) (hsub : rows'.Sublist rows) {call : Call K E}
    (hcall : ∀ a ∈ rows', call.key ≠ a.1) : Ordered options (calls ++ [call]) rows' := by
  refine ⟨?_, fun a ha => ?_⟩
  · refine (h.pairs.sublist hsub).imp_of_mem fun ha _ hpair => ?_
    exact hpair.imp_left fun hretried => hretried.concat options (hcall _ ha)
  · rw [List.filterMap_append]
    exact List.mem_append_left _ (h.clock a (hsub.subset ha))

/-- A new entry is put last. -/
theorem Ordered.snoc {calls : List (Call K E)} {rows : List (K × RetryBackoffEntry E)}
    (h : Ordered options calls rows) {k : K} {e : RetryBackoffEntry E}
    (hlast : ∀ a ∈ rows, a.2.lastAttemptedAt ≤ e.lastAttemptedAt)
    (hnow : e.lastAttemptedAt ∈ calls.filterMap Call.now) :
    Ordered options calls (rows ++ [(k, e)]) := by
  refine ⟨?_, ?_⟩
  · rw [List.pairwise_append]
    refine ⟨h.pairs, List.pairwise_singleton _ _, fun a ha b hb => ?_⟩
    rw [List.mem_singleton.1 hb]
    exact Or.inr (hlast a ha)
  · intro a ha
    rcases List.mem_append.1 ha with ha | ha
    · exact h.clock a ha
    · rw [List.mem_singleton.1 ha]
      exact hnow

/-- **The order of the entries.** -/
theorem ordered_after {calls : List (Call K E)}
    (hclock : (calls.filterMap Call.now).Pairwise (· ≤ ·)) :
    Ordered options calls (after options calls).entries.rows := by
  induction calls using List.reverseRecOn with
  | nil => exact ⟨List.Pairwise.nil, nofun⟩
  | append_singleton calls call ih =>
    rw [List.filterMap_append, List.pairwise_append] at hclock
    have h := ih hclock.1
    rw [after_concat]
    cases call with
    | reset key =>
      refine h.other options List.filter_sublist fun a ha => ?_
      exact (OrderedMap.mem_erase.1 ha).2.symm
    | clear key =>
      refine h.other options List.filter_sublist fun a ha => ?_
      exact (OrderedMap.mem_erase.1 ha).2.symm
    | record key now o =>
      have hlast : ∀ a ∈ (after options calls).entries.rows, a.2.lastAttemptedAt ≤ now :=
        fun a ha => hclock.2.2 _ (h.clock a ha) now (List.mem_singleton_self now)
      have hnow : now ∈ (calls ++ [Call.record key now o]).filterMap Call.now := by
        rw [List.filterMap_append]
        exact List.mem_append_right _ (List.mem_singleton_self now)
      rw [apply]
      by_cases hkey : key ∈ (after options calls).entries.keys
      · -- the entry stays where it is, and its key was retried
        have hsome := OrderedMap.lookup_isSome_iff.2 hkey
        have hretried : Retried options (calls ++ [Call.record key now o]) key now :=
          ⟨calls, o, [], rfl, hsome, nofun⟩
        rw [record_of_mem options hkey, OrderedMap.rows_set_of_mem _ hkey]
        refine ⟨?_, fun a ha => ?_⟩
        · rw [List.pairwise_map]
          refine h.pairs.imp_of_mem fun {a b} ha hb hpair => ?_
          by_cases hak : a.1 = key
          · rw [if_pos hak, hak]
            exact Or.inl hretried
          · rw [if_neg hak]
            split
            case isTrue => exact Or.inr (hlast a ha)
            case isFalse =>
              exact hpair.imp_left fun hold => hold.concat options (Ne.symm hak)
        · obtain ⟨b, hb, rfl⟩ := List.mem_map.1 ha
          split
          case isTrue => exact hnow
          case isFalse =>
            rw [List.filterMap_append]
            exact List.mem_append_left _ (h.clock b hb)
      · obtain ⟨hrecord, hroom⟩ := record_of_not_mem options hkey now o
        have hsub := OrderedMap.rows_makeRoom_sublist (after options calls) options.maxEntries
        rw [hrecord, OrderedMap.rows_set_of_not_mem _ hroom]
        refine Ordered.snoc options (h.other options hsub fun a ha => ?_) (fun a ha => ?_) hnow
        · rintro rfl
          exact hroom (List.mem_map_of_mem ha)
        · exact hlast a (hsub.subset ha)

/-- **What is dropped.** -/
theorem dropsLeastRecent_iff {calls : List (Call K E)}
    (hclock : (calls.filterMap Call.now).Pairwise (· ≤ ·)) (call : Call K E) :
    DropsLeastRecent options (after options calls) call ↔ ¬ Overtakes options calls call := by
  have holdest : ∀ d, drops options (after options calls) call = some d →
      (after options calls).oldest = some d := by
    intro d hd
    cases call with
    | record key now o =>
      rw [drops] at hd
      split at hd
      · exact OrderedMap.oldest_of_dropped hd
      · cases hd
    | reset key => cases hd
    | clear key => cases hd
  constructor
  · rintro h ⟨d, now, hd, hretried, k, e', hk, he', hlt⟩
    obtain ⟨e, he⟩ := Option.isSome_iff_exists.1
      (OrderedMap.lookup_isSome_iff.2 (OrderedMap.oldest_mem (holdest d hd)))
    have hle := h d e hd he k e' hk he'
    rw [lastAttemptedAt_of_retried options hretried he] at hle
    exact absurd hlt (not_lt.2 hle)
  · intro hnot d e hd he k e' hk he'
    have hpairs := (ordered_after options hclock).pairs
    have hhead := holdest d hd
    have hmem := OrderedMap.lookup_eq_some_iff.1 he
    have hmem' := OrderedMap.lookup_eq_some_iff.1 he'
    obtain ⟨first, hfirst, hkey⟩ := Option.map_eq_some_iff.1 hhead
    obtain ⟨rest, hrows⟩ := List.head?_eq_some_iff.1 hfirst
    have hsame : (after options calls).lookup d = some first.2 := by
      refine OrderedMap.lookup_eq_some_iff.2 ?_
      rw [← hkey, hrows]
      exact List.mem_cons_self
    rw [hsame] at he
    rw [hrows] at hpairs hmem'
    have hrest : (k, e') ∈ rest := by
      rcases List.mem_cons.1 hmem' with heq | hrest
      · exact absurd (hkey.symm.trans (congrArg Prod.fst heq.symm)).symm hk
      · exact hrest
    have hpair := List.rel_of_pairwise_cons hpairs hrest
    rw [hkey, Option.some.inj he] at hpair
    rcases hpair with hretried | hle
    · by_contra hlt
      exact hnot ⟨d, _, hd, hretried, k, e', hk, he', not_le.1 hlt⟩
    · exact hle

/-! ## Waits -/

omit [Inhabited E] in
theorem attemptsOf_cons_record (key : K) (now : ℚ) (o : RecordOptions E) (calls : List (Call K E)) :
    attemptsOf key (.record key now o :: calls) = now :: attemptsOf key calls := by
  simp [attemptsOf, Call.key, Call.now]

omit [Inhabited E] in
theorem attemptsOf_cons_of_ne {key : K} {call : Call K E} (h : call.key ≠ key)
    (calls : List (Call K E)) : attemptsOf key (call :: calls) = attemptsOf key calls := by
  simp [attemptsOf, h]

/-- A call for another key that does not drop this one. -/
theorem lookup_apply_other {ledger : Ledger K E} {call : Call K E} {key : K}
    (hkey : call.key ≠ key) (hdrops : drops options ledger call ≠ some key) :
    (apply options ledger call).lookup key = ledger.lookup key := by
  rw [lookup_apply, if_neg hkey, if_neg hdrops]

theorem lookup_record_self (ledger : Ledger K E) (key : K) (now : ℚ) (o : RecordOptions E) :
    (apply options ledger (.record key now o)).lookup key =
      some (entryOf (ledger.lookup key) now o) := by
  rw [lookup_apply, Call.key, if_pos rfl]

/-- A patient key waits after its `n`-th attempt, and after each later one. -/
theorem waits_of_entry {key : K} {calls : List (Call K E)} {ledger : Ledger K E}
    {e : RetryBackoffEntry E} {n : ℕ} (he : ledger.lookup key = some e) (hn : e.attempts = n)
    (h : Patient options key ledger calls) :
    WaitsFrom options n (e.lastAttemptedAt :: attemptsOf key calls) := by
  induction calls generalizing ledger e n with
  | nil => trivial
  | cons call calls ih =>
    obtain ⟨hrecord, hreset, hclear, hdrops, hrest⟩ := h
    by_cases hkey : call.key = key
    · cases call with
      | record k now o =>
        obtain rfl : k = key := hkey
        obtain ⟨hallowed, hcount⟩ := hrecord now o rfl
        rw [shouldAttempt, he] at hallowed
        have hwait : backoffMs options e.attempts ≤ now - e.lastAttemptedAt :=
          of_decide_eq_true hallowed
        rw [backoffMs, hn] at hwait
        have hnext := lookup_record_self options ledger k now o
        rw [he] at hnext
        have hattempts : (entryOf (some e) now o).attempts = ((n + 1 : ℕ) : ℤ) := by
          rw [entryOf, hcount, Option.map_some, Option.getD_some, Option.getD_none, hn]
          rfl
        rw [attemptsOf_cons_record]
        exact ⟨hwait, ih hnext hattempts hrest⟩
      | reset k => exact absurd (congrArg Call.reset hkey) hreset
      | clear k => exact absurd (congrArg Call.clear hkey) hclear
    · rw [attemptsOf_cons_of_ne hkey]
      exact ih ((lookup_apply_other options hkey hdrops).trans he) hn hrest

/-- **The waits.** -/
theorem waits_of_none {key : K} {calls : List (Call K E)} {ledger : Ledger K E}
    (hnone : ledger.lookup key = none) (h : Patient options key ledger calls) :
    WaitsFrom options 1 (attemptsOf key calls) := by
  induction calls generalizing ledger with
  | nil => trivial
  | cons call calls ih =>
    obtain ⟨hrecord, hreset, hclear, hdrops, hrest⟩ := h
    by_cases hkey : call.key = key
    · cases call with
      | record k now o =>
        obtain rfl : k = key := hkey
        obtain ⟨-, hcount⟩ := hrecord now o rfl
        have hnext := lookup_record_self options ledger k now o
        rw [hnone] at hnext
        have hattempts : (entryOf (E := E) none now o).attempts = ((1 : ℕ) : ℤ) := by
          rw [entryOf, hcount]
          rfl
        rw [attemptsOf_cons_record]
        exact waits_of_entry options hnext hattempts hrest
      | reset k => exact absurd (congrArg Call.reset hkey) hreset
      | clear k => exact absurd (congrArg Call.clear hkey) hclear
    · rw [attemptsOf_cons_of_ne hkey]
      exact ih ((lookup_apply_other options hkey hdrops).trans hnone) hrest

/-- **The retry ledger.** For every sequence of calls: it never holds more keys than it may; the
waits of a patient key double up to the ceiling; and, where the clock does not go back, no call
drops a key that was attempted later than one it keeps, exactly if no call drops a key that was
retried after another one was last recorded. -/
theorem ledger_laws (calls : List (Call K E)) (hcap : 1 ≤ options.maxEntries) :
    (∀ before, before <+: calls → (after options before).size ≤ options.maxEntries) ∧
      (∀ before segment rest key, calls = before ++ segment ++ rest →
        (after options before).lookup key = none →
          Patient options key (after options before) segment →
            WaitsFrom options 1 (attemptsOf key segment)) ∧
      ((calls.filterMap Call.now).Pairwise (· ≤ ·) →
        ((∀ before call, before ++ [call] <+: calls →
            DropsLeastRecent options (after options before) call) ↔
          ∀ before call, before ++ [call] <+: calls → ¬ Overtakes options before call)) := by
  refine ⟨fun before _ => size_after options hcap before, ?_, ?_⟩
  · intro before segment rest key _ hnone hpatient
    exact waits_of_none options hnone hpatient
  · intro hclock
    refine forall_congr' fun before => forall_congr' fun call => ?_
    refine imp_congr_right fun hprefix => dropsLeastRecent_iff options ?_ call
    obtain ⟨rest, rfl⟩ := hprefix
    rw [List.append_assoc, List.filterMap_append, List.pairwise_append] at hclock
    exact hclock.1

/-- A ledger for two keys. -/
def two : RetryBackoffOptions := ⟨1000, 4000, 2⟩

/-- The key 0 is retried before the key 2 comes. -/
def retried : List (Call ℕ Unit) :=
  [.record 0 0 {}, .record 1 500 {}, .record 0 1000 {}, .record 2 1500 {}]

/-- The last call keeps the key 1, attempted before the key it drops. -/
theorem retried_not_dropsLeastRecent :
    ¬ DropsLeastRecent two (after two (retried.take 3)) (.record 2 1500 {}) := by
  intro h
  have hdrops := h 0 ⟨1000, 2, ()⟩ (by decide +kernel) (by decide +kernel) 1 ⟨500, 1, ()⟩
    (by decide) (by decide +kernel)
  exact absurd hdrops (by decide +kernel)

/-- Until then the key 0 waits as it should. -/
theorem retried_patient : Patient two 0 (after two []) (retried.take 3) := by
  refine ⟨?_, by simp, by simp, by decide +kernel, ?_, by simp, by simp, by decide +kernel,
    ?_, by simp, by simp, by decide +kernel, trivial⟩
  · rintro now o ⟨⟩
    decide +kernel
  · rintro now o ⟨⟩
  · rintro now o ⟨⟩
    decide +kernel

theorem ledger_laws_of_retried :
    (after two retried).size ≤ 2 ∧ WaitsFrom two 1 (attemptsOf 0 (retried.take 3)) ∧
      ∃ before call, before ++ [call] <+: retried ∧ Overtakes two before call := by
  obtain ⟨hbound, hwaits, hdrops⟩ := ledger_laws two retried (by decide)
  refine ⟨hbound retried List.prefix_rfl, ?_, ?_⟩
  · exact hwaits [] (retried.take 3) (retried.drop 3) 0 rfl (by decide +kernel) retried_patient
  · by_contra hnone
    refine retried_not_dropsLeastRecent ?_
    refine (hdrops (by decide +kernel)).2 ?_ _ _ List.prefix_rfl
    exact fun before call hprefix hover => hnone ⟨before, call, hprefix, hover⟩

theorem retried_key_is_dropped :
    ¬ ∀ (options : RetryBackoffOptions) (calls : List (Call ℕ Unit)), 1 ≤ options.maxEntries →
      (calls.filterMap Call.now).Pairwise (· ≤ ·) → ∀ before call, before ++ [call] <+: calls →
        DropsLeastRecent options (after options before) call := by
  intro h
  refine retried_not_dropsLeastRecent ?_
  exact h two retried (by decide) (by decide +kernel) _ _ List.prefix_rfl

end RetryBackoff
end Mullion
