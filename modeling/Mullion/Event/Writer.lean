import Mullion.Event.History
import Mullion.Lib.OrderedMap
import Mullion.Lib.Run
import Mullion.Schema

/-!
# The event writer

`event-store.ts` buffers the events of this process's sessions and those that other hosts report,
and writes them in batches. Three calls can throw on the way, the ownership query in any of its
chunks, the batch insert and the insert of a single row, so a step takes an `Outcome` that says how
each of them ends. The tables change between the steps in any way.

Two questions are asked. The first is where an event is: in exactly one batch, in order, or still in
the buffer, and never later than 30 s after the first event beside it. That is an invariant on the
buffer and its two timers. The second is what a batch inserts (`Flush.Settled`): the events that are
`Accepted`, which are the local ones and those whose session lives on the host that reported them,
each with one row, unless its own insert fails; and nothing else. It is answered one batch at a time
(`settled_flush`). The keys of the database are fields of `Store`, so an event cannot be there twice
(`copies_le_one`), and what an insert adds is said once for a row and carried to a statement and to
the single rows (`Store.Grows`). The query in chunks gives the owner of each session
(`lookup_ownerBySessionId`). Where it throws, the remote events are dropped
(`dropped_of_query_throws`). `kept_along` has both over every run.
-/

namespace Mullion
namespace EventWriter

open Event

/-- `EVENT_FLUSH_DEBOUNCE_MS`. -/
def flushDebounceMs : ℕ := 5000

/-- `EVENT_FLUSH_CEILING_MS`. -/
def flushCeilingMs : ℕ := 30000

/-- `OWNERSHIP_LOOKUP_CHUNK_SIZE`. -/
def ownershipLookupChunkSize : ℕ := 500

/-- A `BufferedEvent`. `pushedAt` is no field of it: it is the time of the push. -/
structure BufferedEvent where
  event : NotificationEvent
  sourceHostId : Option HostId
  pushedAt : ℕ
  deriving DecidableEq

/-! ## The tables -/

/-- Two rows have the same entry in `session_events_dedupe_idx`; SQLite takes no two nulls for the
same. -/
def SameEntry (row row' : SessionEvent) : Prop :=
  row.sessionId.isSome ∧ row.sessionId = row'.sessionId ∧ row.seq = row'.seq ∧ row.ts = row'.ts ∧
    row.kind = row'.kind

/-- The tables, with their foreign keys and the index of the events. -/
structure Store where
  db : Db
  events : Events
  /-- `sessions.project_id` references a project -/
  linked : ∀ row ∈ db.sessions.rows, ∃ project, db.projects.get row.projectId = some project
  /-- `session_events.session_id` references a session, or is null -/
  owned : ∀ row ∈ events.rows, ∀ id, row.sessionId = some id → id ∈ db.sessions.keys
  /-- `session_events_dedupe_idx` -/
  unique : events.rows.Pairwise fun row row' => ¬ SameEntry row row'

/-- The host on which a session lives: its own, or that of its project. -/
def owner (db : Db) (sessionId : ℕ) : Option HostId :=
  (db.sessions.get sessionId).bind fun row =>
    row.hostId.or ((db.projects.get row.projectId).map (·.hostId))

theorem stored_iff {event : NotificationEvent} {row : SessionEvent} :
    event.stored row = true ↔ row.sessionId = some event.sessionId ∧ row.seq = event.seq ∧
      row.ts = event.ts ∧ row.kind = event.kind := by
  simp [NotificationEvent.stored, and_assoc]

/-- Insert one row, with `onConflictDoNothing`; `none` is a foreign key that fails. A row that is
skipped has taken its `id` from the sequence by then. -/
def Store.insert (store : Store) (event : NotificationEvent) : Option Store :=
  if hstored : store.events.rows.any event.stored = true then
    some { store with events := store.events.skip, owned := store.owned, unique := store.unique }
  else if hsession : event.sessionId ∈ store.db.sessions.keys then
    some
      { store with
        events := store.events.push event.toRow event.id_toRow
        owned := by
          intro row hrow id hid
          rcases List.mem_cons.1 hrow with rfl | hrow
          · cases hid
            exact hsession
          · exact store.owned row hrow id hid
        unique := by
          refine List.pairwise_cons.2 ⟨fun row hrow hsame => hstored ?_, store.unique⟩
          obtain ⟨-, hid, hseq, hts, hkind⟩ := hsame
          exact List.any_eq_true.2
            ⟨row, hrow, stored_iff.2 ⟨hid.symm, hseq.symm, hts.symm, hkind.symm⟩⟩ }
  else none

/-- `insertSessionEvents`: one statement, which may throw for another reason too. -/
def insertSessionEvents (throws : Bool) (store : Store) (events : List NotificationEvent) :
    Option Store :=
  if events = [] then some store
  else if throws then none
  else events.foldlM Store.insert store

/-! ## A batch -/

/-- The rows of the ownership query, for a chunk of session ids. -/
def ownerRows (db : Db) (chunk : List ℕ) : List (ℕ × Option HostId) :=
  (db.sessions.rows.filter fun row => row.id ∈ chunk).map fun row =>
    (row.id, row.hostId.or ((db.projects.get row.projectId).map (·.hostId)))

/-- `ownerBySessionId`, for the given ids; the query of a chunk may throw. -/
def ownerBySessionId (throws : ℕ → Bool) (db : Db) (ids : List ℕ) :
    Option (OrderedMap ℕ HostId) :=
  let size := ownershipLookupChunkSize
  (List.range ((ids.length + size - 1) / size)).foldlM
    (fun owners i =>
      if throws i then none
      else
        some ((ownerRows db ((ids.drop (i * size)).take size)).foldl
          (fun owners row => owners.set row.1 (row.2.getD localHostId)) owners))
    OrderedMap.empty

/-- `filterHostOwnership`. -/
def filterHostOwnership (throws : ℕ → Bool) (db : Db) (batch : List BufferedEvent) :
    Option (List NotificationEvent) :=
  let remoteSessionIds :=
    ((batch.filter fun b => b.sourceHostId ≠ none).map (·.event.sessionId)).eraseDups
  if remoteSessionIds = [] then some (batch.map (·.event))
  else
    (ownerBySessionId throws db remoteSessionIds).map fun owners =>
      (batch.filter fun b =>
        b.sourceHostId = none ∨ owners.lookup b.event.sessionId = b.sourceHostId).map (·.event)

/-- How the calls of a flush end. -/
structure Outcome where
  /-- `getStoredSettings(app.db).sessions.eventPersistence`; `none` is a call that throws -/
  eventPersistence : Option Bool
  /-- the ownership query, by chunks -/
  queryThrows : ℕ → Bool
  /-- the statement for all rows, where no foreign key fails -/
  statementThrows : Bool
  /-- the statements for single rows, where no foreign key fails -/
  rowThrows : ℕ → Bool

/-- The single rows, from the `i`-th on. -/
def retry (rowThrows : ℕ → Bool) : ℕ → Store → List NotificationEvent → Store
  | _, store, [] => store
  | i, store, event :: rest =>
    retry rowThrows (i + 1) ((insertSessionEvents (rowThrows i) store [event]).getD store) rest

/-- The local events of a batch. -/
def localEvents (batch : List BufferedEvent) : List NotificationEvent :=
  (batch.filter fun b => b.sourceHostId = none).map (·.event)

/-- `flush`, on what it took from the buffer. -/
def flushBatch (outcome : Outcome) (store : Store) (batch : List BufferedEvent) : Store :=
  match outcome.eventPersistence with
  | none => store
  | some persistenceEnabled =>
    if !persistenceEnabled then store
    else
      let verified :=
        (filterHostOwnership outcome.queryThrows store.db batch).getD (localEvents batch)
      if verified = [] then store
      else
        match insertSessionEvents outcome.statementThrows store verified with
        | some store => store
        | none => retry outcome.rowThrows 0 store verified

/-- `publishVerifiedRemoteEvent`: whether the event is published. -/
def publishVerifiedRemoteEvent (throws : ℕ → Bool) (db : Db) (listeners : ℕ)
    (event : NotificationEvent) (sourceHostId : HostId) : Bool :=
  if listeners = 0 then false
  else
    match filterHostOwnership throws db [⟨event, some sourceHostId, 0⟩] with
    | some verified => verified.length = 1
    | none => false

/-! ## Runs -/

/-- What a flush did. -/
structure Flush where
  time : ℕ
  batch : List BufferedEvent
  outcome : Outcome
  before : Store
  after : Store

/-- An event that was published, and the tables of that moment. -/
structure Publication where
  event : NotificationEvent
  sourceHostId : HostId
  store : Store

/-- A writer, the time, the tables, and what happened. A timer that is armed is the time when it
is due. -/
structure World where
  buffer : List BufferedEvent := []
  debounceTimer : Option ℕ := none
  ceilingTimer : Option ℕ := none
  subscribed : Bool := true
  now : ℕ := 0
  store : Store
  pushed : List BufferedEvent := []
  flushes : List Flush := []
  published : List Publication := []

/-- What can happen. -/
inductive Label where
  /-- a session of this process emits an event -/
  | event (event : NotificationEvent)
  /-- another host reports an event; the bus has so many listeners -/
  | remote (event : NotificationEvent) (sourceHostId : HostId) (listeners : ℕ)
      (queryThrows : ℕ → Bool)
  | debounce (outcome : Outcome)
  | ceiling (outcome : Outcome)
  | stop (outcome : Outcome)
  | pass (time : ℕ)
  /-- another part of the system writes to the tables -/
  | write (store : Store)

/-- `clearFlushTimers`. -/
def World.clearFlushTimers (w : World) : World :=
  { w with debounceTimer := none, ceilingTimer := none }

/-- `flush`. -/
def World.flush (w : World) (outcome : Outcome) : World :=
  let w := w.clearFlushTimers
  if w.buffer = [] then w
  else
    let after := flushBatch outcome w.store w.buffer
    { w with
      buffer := []
      store := after
      flushes := w.flushes ++ [⟨w.now, w.buffer, outcome, w.store, after⟩] }

/-- `scheduleFlush`. -/
def World.scheduleFlush (w : World) : World :=
  let wasAlreadyDirty := w.debounceTimer.isSome || w.ceilingTimer.isSome
  let w := { w with debounceTimer := some (w.now + flushDebounceMs) }
  if !wasAlreadyDirty then { w with ceilingTimer := some (w.now + flushCeilingMs) } else w

/-- `pushEvent`. -/
def World.pushEvent (w : World) (event : NotificationEvent) (sourceHostId : Option HostId) :
    World :=
  World.scheduleFlush
    { w with
      buffer := w.buffer ++ [⟨event, sourceHostId, w.now⟩]
      pushed := w.pushed ++ [⟨event, sourceHostId, w.now⟩] }

/-- `publishVerifiedRemoteEvent`, and what is known of it afterwards. -/
def World.publish (w : World) (event : NotificationEvent) (sourceHostId : HostId) (listeners : ℕ)
    (queryThrows : ℕ → Bool) : World :=
  if publishVerifiedRemoteEvent queryThrows w.store.db listeners event sourceHostId then
    { w with published := w.published ++ [⟨event, sourceHostId, w.store⟩] }
  else w

/-- No armed timer is due before the given time. -/
def World.DueFrom (w : World) (time : ℕ) : Prop :=
  (∀ due ∈ w.debounceTimer, time ≤ due) ∧ ∀ due ∈ w.ceilingTimer, time ≤ due

instance (w : World) (time : ℕ) : Decidable (w.DueFrom time) :=
  inferInstanceAs (Decidable (_ ∧ _))

/-- One step. Time passes no armed timer. -/
def step (w : World) : Label → Option World
  | .event event => some (if w.subscribed then w.pushEvent event none else w)
  | .remote event sourceHostId listeners queryThrows =>
    some ((w.pushEvent event (some sourceHostId)).publish event sourceHostId listeners queryThrows)
  | .debounce outcome => if w.debounceTimer = some w.now then some (w.flush outcome) else none
  | .ceiling outcome => if w.ceilingTimer = some w.now then some (w.flush outcome) else none
  | .stop outcome =>
    some (World.flush { w.clearFlushTimers with subscribed := false } outcome)
  | .pass time => if w.DueFrom (w.now + time) then some { w with now := w.now + time } else none
  | .write store => some { w with store }

/-! ## What is promised -/

/-- A local event, or one whose session lives on the host that reported it. -/
def Accepted (db : Db) (b : BufferedEvent) : Prop :=
  b.sourceHostId = none ∨ owner db b.event.sessionId = b.sourceHostId

instance (db : Db) (b : BufferedEvent) : Decidable (Accepted db b) :=
  inferInstanceAs (Decidable (_ ∨ _))

/-- The events of a batch that may be inserted: without an answer to the ownership query, the
local ones. -/
def Flush.verified (f : Flush) : List NotificationEvent :=
  if filterHostOwnership f.outcome.queryThrows f.before.db f.batch = none then localEvents f.batch
  else (f.batch.filter fun b => Accepted f.before.db b).map (·.event)

/-- The insert of the `i`-th of these events alone fails. -/
def Flush.FailsAlone (f : Flush) (i : ℕ) (event : NotificationEvent) : Prop :=
  f.outcome.rowThrows i = true ∨ event.sessionId ∉ f.before.db.sessions.keys

/-- The number of rows that hold an event. -/
def Store.copies (store : Store) (event : NotificationEvent) : ℕ :=
  store.events.rows.countP event.stored

/-- What a batch inserts. -/
structure Flush.Settled (f : Flush) : Prop where
  /-- with persistence on, each event whose own insert does not fail, once -/
  inserted : f.outcome.eventPersistence = some true → ∀ i event, f.verified[i]? = some event →
    ¬ f.FailsAlone i event → f.after.copies event = 1
  /-- no event of another owner -/
  only : ∀ row ∈ f.after.events.rows, row ∈ f.before.events.rows ∨
    ∃ b ∈ f.batch, Accepted f.before.db b ∧ ∃ id, row = b.event.toRow id
  /-- what was there stays -/
  stays : f.before.events.rows ⊆ f.after.events.rows
  /-- without persistence, nothing -/
  off : f.outcome.eventPersistence ≠ some true → f.after = f.before

/-- What is promised in every state. -/
structure Kept (w : World) : Prop where
  /-- every event that was pushed is in one batch, or still in the buffer -/
  once : w.flushes.flatMap (·.batch) ++ w.buffer = w.pushed
  /-- no batch is late -/
  inTime : ∀ f ∈ w.flushes, ∃ first rest, f.batch = first :: rest ∧ first.pushedAt ≤ f.time ∧
    f.time ≤ first.pushedAt + flushCeilingMs
  /-- nothing stays in the buffer -/
  due : ∀ b ∈ w.buffer, w.now ≤ b.pushedAt + flushCeilingMs
  settled : ∀ f ∈ w.flushes, f.Settled
  /-- no event of another owner is published -/
  published : ∀ p ∈ w.published, owner p.store.db p.event.sessionId = some p.sourceHostId

/-! ## The rows -/

variable {store store' store'' : Store} {events events' : List NotificationEvent}

theorem any_stored_iff {event : NotificationEvent} :
    store.events.rows.any event.stored = true ↔ 0 < store.copies event := by
  rw [Store.copies, List.countP_pos_iff, List.any_eq_true]

/-- No event is there twice. -/
theorem copies_le_one (store : Store) (event : NotificationEvent) : store.copies event ≤ 1 := by
  have hcount (rows : List SessionEvent)
      (hunique : rows.Pairwise fun row row' => ¬ SameEntry row row') :
      rows.countP event.stored ≤ 1 := by
    induction rows with
    | nil => exact Nat.zero_le _
    | cons row rows ih =>
      obtain ⟨hrow, hrows⟩ := List.pairwise_cons.1 hunique
      by_cases hstored : event.stored row = true
      · have hnone : rows.countP event.stored = 0 := by
          rw [List.countP_eq_zero]
          intro row' hrow' hstored'
          obtain ⟨hid, hseq, hts, hkind⟩ := stored_iff.1 hstored
          obtain ⟨hid', hseq', hts', hkind'⟩ := stored_iff.1 hstored'
          refine hrow row' hrow' ⟨by rw [hid]; rfl, hid.trans hid'.symm, hseq.trans hseq'.symm,
            hts.trans hts'.symm, hkind.trans hkind'.symm⟩
        rw [List.countP_cons_of_pos hstored, hnone]
      · rw [List.countP_cons_of_neg hstored]
        exact ih hrows
  exact hcount _ store.unique

/-- A store with rows added for some of the events. -/
structure Store.Grows (events : List NotificationEvent) (store store' : Store) : Prop where
  db : store'.db = store.db
  stays : store.events.rows ⊆ store'.events.rows
  only : ∀ row ∈ store'.events.rows,
    row ∈ store.events.rows ∨ ∃ event ∈ events, ∃ id, row = event.toRow id

theorem Store.Grows.refl (events : List NotificationEvent) (store : Store) :
    Store.Grows events store store := ⟨rfl, fun _ h => h, fun _ h => Or.inl h⟩

theorem Store.Grows.trans (h : Store.Grows events store store')
    (h' : Store.Grows events' store' store'') : Store.Grows (events ++ events') store store'' where
  db := h'.db.trans h.db
  stays := fun _ hrow => h'.stays (h.stays hrow)
  only := by
    intro row hrow
    rcases h'.only row hrow with hrow | ⟨event, hevent, id, rfl⟩
    · rcases h.only row hrow with hrow | ⟨event, hevent, id, rfl⟩
      · exact Or.inl hrow
      · exact Or.inr ⟨event, List.mem_append_left _ hevent, id, rfl⟩
    · exact Or.inr ⟨event, List.mem_append_right _ hevent, id, rfl⟩

/-- A row that is there stays there. -/
theorem Store.Grows.copies (h : Store.Grows events store store') {event : NotificationEvent}
    (hcopies : store.copies event = 1) : store'.copies event = 1 := by
  have hpos : 0 < store.copies event := by omega
  obtain ⟨row, hrow, hstored⟩ := List.any_eq_true.1 (any_stored_iff.2 hpos)
  have hpos' := any_stored_iff.1 (List.any_eq_true.2 ⟨row, h.stays hrow, hstored⟩)
  have := copies_le_one store' event
  omega

/-- The insert of a row. -/
theorem grows_of_insert {event : NotificationEvent} (h : store.insert event = some store') :
    Store.Grows [event] store store' ∧ store'.copies event = 1 := by
  rw [Store.insert] at h
  split at h
  · next hstored =>
    cases h
    have := any_stored_iff.1 hstored
    have := copies_le_one store event
    refine ⟨⟨rfl, fun _ hrow => hrow, fun _ hrow => .inl hrow⟩, ?_⟩
    change store.copies event = 1
    omega
  · next hstored =>
    split at h
    · cases h
      refine ⟨⟨rfl, fun _ hrow => List.mem_cons_of_mem _ hrow, fun row hrow => ?_⟩, ?_⟩
      · rcases List.mem_cons.1 hrow with rfl | hrow
        · exact Or.inr ⟨event, List.mem_singleton_self _, _, rfl⟩
        · exact Or.inl hrow
      · have hnone : store.copies event = 0 := by
          have := mt any_stored_iff.2 hstored
          omega
        have hstored' : event.stored (event.toRow store.events.next) = true :=
          stored_iff.2 ⟨rfl, rfl, rfl, rfl⟩
        exact (List.countP_cons_of_pos hstored').trans (congrArg (· + 1) hnone)
    · cases h

/-- The insert of a row whose session is there does not fail. -/
theorem insert_isSome {event : NotificationEvent} (h : event.sessionId ∈ store.db.sessions.keys) :
    (store.insert event).isSome := by
  rw [Store.insert]
  split
  · rfl
  · rfl

/-- The inserts of a statement. -/
theorem grows_of_foldlM (h : events.foldlM Store.insert store = some store') :
    Store.Grows events store store' ∧ ∀ event ∈ events, store'.copies event = 1 := by
  induction events generalizing store with
  | nil =>
    cases h
    exact ⟨.refl _ _, nofun⟩
  | cons event events ih =>
    rw [List.foldlM_cons, Option.bind_eq_bind, Option.bind_eq_some_iff] at h
    obtain ⟨next, hinsert, h⟩ := h
    obtain ⟨hgrows, hcopies⟩ := grows_of_insert hinsert
    obtain ⟨hrest, hall⟩ := ih h
    refine ⟨hgrows.trans hrest, fun e he => ?_⟩
    rcases List.mem_cons.1 he with rfl | he
    · exact hrest.copies hcopies
    · exact hall e he

/-- A statement that does not throw. -/
theorem grows_of_insertSessionEvents {throws : Bool}
    (h : insertSessionEvents throws store events = some store') :
    Store.Grows events store store' ∧ ∀ event ∈ events, store'.copies event = 1 := by
  rw [insertSessionEvents] at h
  split_ifs at h with hnil
  · cases h
    rw [hnil]
    exact ⟨.refl _ _, nofun⟩
  · exact grows_of_foldlM h

/-- The single rows. -/
theorem grows_retry (rowThrows : ℕ → Bool) (i : ℕ) (store : Store)
    (events : List NotificationEvent) :
    Store.Grows events store (retry rowThrows i store events) ∧
      ∀ j event, events[j]? = some event → rowThrows (i + j) = false →
        event.sessionId ∈ store.db.sessions.keys →
        (retry rowThrows i store events).copies event = 1 := by
  induction events generalizing i store with
  | nil => exact ⟨.refl _ _, fun j event h => by cases h⟩
  | cons event events ih =>
    rw [retry]
    have hfirst : Store.Grows [event] store
        ((insertSessionEvents (rowThrows i) store [event]).getD store) := by
      cases hinsert : insertSessionEvents (rowThrows i) store [event] with
      | none => exact .refl _ _
      | some next => exact (grows_of_insertSessionEvents hinsert).1
    obtain ⟨hgrows, hrest⟩ :=
      ih (i + 1) ((insertSessionEvents (rowThrows i) store [event]).getD store)
    refine ⟨hfirst.trans hgrows, fun j e he hthrows hsession => ?_⟩
    cases j with
    | zero =>
      cases he
      obtain ⟨next, hnext⟩ := Option.isSome_iff_exists.1 (insert_isSome hsession)
      have hinsert : insertSessionEvents (rowThrows i) store [event] = some next := by
        rw [Nat.add_zero] at hthrows
        simp [insertSessionEvents, hthrows, hnext]
      refine hgrows.copies ?_
      rw [hinsert]
      exact (grows_of_insert hnext).2
    | succ j =>
      refine hrest j e he ?_ ?_
      · rw [← hthrows]
        congr 1
        omega
      · rw [hfirst.db]
        exact hsession

/-! ## The owners -/

section Owners

variable {db : Db} {ids chunk : List ℕ}

theorem lookup_foldl_set {κ ν ν' : Type*} [DecidableEq κ] (f : ν' → ν) (rows : List (κ × ν'))
    (hrows : (rows.map Prod.fst).Nodup) (m : OrderedMap κ ν) (k : κ) :
    (rows.foldl (fun m row => m.set row.1 (f row.2)) m).lookup k =
      ((rows.find? fun row => row.1 = k).map fun row => f row.2).or (m.lookup k) := by
  induction rows generalizing m with
  | nil => rfl
  | cons row rows ih =>
    obtain ⟨hrow, hrows⟩ := List.nodup_cons.1 hrows
    rw [List.foldl_cons, ih hrows, OrderedMap.lookup_set]
    by_cases hk : row.1 = k
    · have hnone : rows.find? (fun row => decide (row.1 = k)) = none := by
        rw [List.find?_eq_none]
        intro row' hrow' hk'
        refine hrow ?_
        rw [hk, ← of_decide_eq_true hk']
        exact List.mem_map_of_mem hrow'
      rw [hnone, if_pos hk.symm, List.find?_cons_of_pos (by simpa using hk)]
      rfl
    · rw [if_neg (Ne.symm hk), List.find?_cons_of_neg (by simpa using hk)]

/-- A session of a chunk is looked up in the answer for the chunk. -/
theorem find?_ownerRows (db : Db) (chunk : List ℕ) (id : ℕ) :
    (ownerRows db chunk).find? (fun row => row.1 = id) =
      if id ∈ chunk then (db.sessions.get id).map fun row =>
        (row.id, row.hostId.or ((db.projects.get row.projectId).map (·.hostId))) else none := by
  rw [ownerRows, List.find?_map, List.find?_filter]
  split_ifs with hid
  · refine congrArg _ (List.find?_congr fun row _ => ?_)
    by_cases hrow : row.id = id
    · simp [hrow, hid]
    · simp [hrow]
  · rw [Option.map_eq_none_iff, List.find?_eq_none]
    intro row _ h
    simp only [Function.comp_apply, decide_eq_true_eq] at h
    exact hid (h.2 ▸ h.1)

theorem nodup_ownerRows (db : Db) (chunk : List ℕ) : ((ownerRows db chunk).map Prod.fst).Nodup := by
  rw [ownerRows, List.map_map]
  exact db.sessions.nodup.sublist (List.filter_sublist.map _)

/-- The answer for a chunk. -/
theorem lookup_chunk (store : Store) (chunk : List ℕ) (owners : OrderedMap ℕ HostId) (id : ℕ) :
    ((ownerRows store.db chunk).foldl
      (fun owners row => owners.set row.1 (row.2.getD localHostId)) owners).lookup id =
      if id ∈ chunk then (owner store.db id).or (owners.lookup id) else owners.lookup id := by
  rw [lookup_foldl_set (·.getD localHostId) _ (nodup_ownerRows _ _), find?_ownerRows]
  split_ifs with hid
  · rw [owner]
    cases hrow : store.db.sessions.get id with
    | none => rfl
    | some row =>
      -- the host is known, by the foreign key of the session
      obtain ⟨project, hproject⟩ := store.linked row (Table.get_mem hrow)
      rw [Option.map_some, Option.map_some, Option.bind_some, hproject]
      cases row.hostId <;> rfl
  · rfl

/-- The chunks, from the first on. -/
theorem lookup_chunks (store : Store) (throws : ℕ → Bool) (ids : List ℕ) (n : ℕ)
    {owners : OrderedMap ℕ HostId}
    (h : (List.range n).foldlM
      (fun owners i =>
        if throws i then none
        else
          some ((ownerRows store.db
            ((ids.drop (i * ownershipLookupChunkSize)).take ownershipLookupChunkSize)).foldl
              (fun owners row => owners.set row.1 (row.2.getD localHostId)) owners))
      OrderedMap.empty = some owners) (id : ℕ) :
    owners.lookup id =
      if id ∈ ids.take (n * ownershipLookupChunkSize) then owner store.db id else none := by
  induction n generalizing owners with
  | zero =>
    cases h
    simp
  | succ n ih =>
    rw [List.range_succ, List.foldlM_append, Option.bind_eq_bind, Option.bind_eq_some_iff] at h
    obtain ⟨before, hbefore, h⟩ := h
    rw [List.foldlM_cons, Option.bind_eq_bind, Option.bind_eq_some_iff] at h
    obtain ⟨after, hafter, h⟩ := h
    split_ifs at hafter
    cases hafter
    cases h
    rw [lookup_chunk, ih hbefore, Nat.succ_mul, List.take_add]
    by_cases hlast : id ∈ (ids.drop (n * ownershipLookupChunkSize)).take ownershipLookupChunkSize
    · rw [if_pos hlast, if_pos (List.mem_append_right _ hlast)]
      split_ifs <;> simp
    · rw [if_neg hlast]
      by_cases hfirst : id ∈ ids.take (n * ownershipLookupChunkSize)
      · rw [if_pos hfirst, if_pos (List.mem_append_left _ hfirst)]
      · rw [if_neg hfirst, if_neg (by rw [List.mem_append]; tauto)]

/-- The answer to the ownership query. -/
theorem lookup_ownerBySessionId {store : Store} {throws : ℕ → Bool}
    {owners : OrderedMap ℕ HostId} (h : ownerBySessionId throws store.db ids = some owners)
    {id : ℕ} (hid : id ∈ ids) : owners.lookup id = owner store.db id := by
  rw [ownerBySessionId] at h
  rw [lookup_chunks store throws ids _ h, List.take_of_length_le, if_pos hid]
  rw [ownershipLookupChunkSize]
  omega

end Owners

/-- An answer to the ownership query keeps the accepted events. -/
theorem filterHostOwnership_eq {throws : ℕ → Bool} {batch : List BufferedEvent}
    {verified : List NotificationEvent}
    (h : filterHostOwnership throws store.db batch = some verified) :
    verified = (batch.filter fun b => Accepted store.db b).map (·.event) := by
  rw [filterHostOwnership] at h
  split_ifs at h with hnil
  · cases h
    rw [List.filter_eq_self.2]
    intro b hb
    rw [decide_eq_true_eq]
    refine Or.inl ?_
    by_contra hremote
    have hmem : b.event.sessionId ∈ ((batch.filter fun b => b.sourceHostId ≠ none).map
        (·.event.sessionId)).eraseDups :=
      List.mem_eraseDups.2 (List.mem_map_of_mem (List.mem_filter.2 ⟨hb, by simpa using hremote⟩))
    rw [hnil] at hmem
    cases hmem
  · obtain ⟨owners, howners, rfl⟩ := Option.map_eq_some_iff.1 h
    refine congrArg _ (List.filter_congr fun b hb => ?_)
    rw [decide_eq_decide, Accepted]
    refine or_congr_right' fun hremote => ?_
    rw [lookup_ownerBySessionId howners]
    exact List.mem_eraseDups.2
      (List.mem_map_of_mem (List.mem_filter.2 ⟨hb, by simpa using hremote⟩))

/-- Every event that may be inserted is accepted. -/
theorem Flush.accepted_of_mem {f : Flush} {event : NotificationEvent} (h : event ∈ f.verified) :
    ∃ b ∈ f.batch, Accepted f.before.db b ∧ b.event = event := by
  rw [Flush.verified] at h
  split_ifs at h
  · obtain ⟨b, hb, rfl⟩ := List.mem_map.1 h
    obtain ⟨hb, hlocal⟩ := List.mem_filter.1 hb
    exact ⟨b, hb, Or.inl (of_decide_eq_true hlocal), rfl⟩
  · obtain ⟨b, hb, rfl⟩ := List.mem_map.1 h
    obtain ⟨hb, haccepted⟩ := List.mem_filter.1 hb
    exact ⟨b, hb, of_decide_eq_true haccepted, rfl⟩

/-- A flush inserts what it may. -/
theorem settled_flush (time : ℕ) (batch : List BufferedEvent) (outcome : Outcome) (store : Store) :
    Flush.Settled ⟨time, batch, outcome, store, flushBatch outcome store batch⟩ := by
  set f : Flush := ⟨time, batch, outcome, store, flushBatch outcome store batch⟩ with hf
  have hverified : (filterHostOwnership outcome.queryThrows store.db batch).getD
      (localEvents batch) = f.verified := by
    rw [Flush.verified]
    cases hanswer : filterHostOwnership outcome.queryThrows store.db batch with
    | none =>
      rw [if_pos rfl]
      rfl
    | some verified =>
      rw [if_neg nofun]
      exact filterHostOwnership_eq hanswer
  have hoff (h : outcome.eventPersistence ≠ some true) : f.after = f.before := by
    rw [hf]
    dsimp only
    rw [flushBatch]
    split
    · rfl
    · next enabled henabled =>
      rw [if_pos]
      cases enabled
      · rfl
      · exact absurd henabled h
  have hon (h : outcome.eventPersistence = some true) :
      Store.Grows f.verified f.before f.after ∧ ∀ i event, f.verified[i]? = some event →
        ¬ f.FailsAlone i event → f.after.copies event = 1 := by
    have hafter : f.after = if f.verified = [] then store
        else (insertSessionEvents outcome.statementThrows store f.verified).getD
          (retry outcome.rowThrows 0 store f.verified) := by
      rw [← hverified, hf]
      dsimp only
      rw [flushBatch, h]
      dsimp only
      rw [if_neg (by decide)]
      generalize (filterHostOwnership outcome.queryThrows store.db batch).getD
        (localEvents batch) = verified
      split_ifs
      · rfl
      · cases insertSessionEvents outcome.statementThrows store verified <;> rfl
    rw [hafter]
    split_ifs with hnil
    · refine ⟨.refl _ _, fun i event hevent => ?_⟩
      rw [hnil] at hevent
      cases hevent
    · cases hinsert : insertSessionEvents outcome.statementThrows store f.verified with
      | some after =>
        obtain ⟨hgrows, hcopies⟩ := grows_of_insertSessionEvents hinsert
        exact ⟨hgrows, fun i event hevent _ => hcopies event (List.mem_of_getElem? hevent)⟩
      | none =>
        obtain ⟨hgrows, hcopies⟩ := grows_retry outcome.rowThrows 0 store f.verified
        refine ⟨hgrows, fun i event hevent hfails => ?_⟩
        rw [Flush.FailsAlone, not_or, Bool.not_eq_true, not_not] at hfails
        exact hcopies i event hevent (by rw [Nat.zero_add]; exact hfails.1) hfails.2
  by_cases h : outcome.eventPersistence = some true
  · obtain ⟨hgrows, hcopies⟩ := hon h
    refine ⟨fun _ => hcopies, fun row hrow => ?_, hgrows.stays, fun hnot => absurd h hnot⟩
    refine (hgrows.only row hrow).imp_right ?_
    rintro ⟨event, hevent, id, rfl⟩
    obtain ⟨b, hb, haccepted, rfl⟩ := Flush.accepted_of_mem hevent
    exact ⟨b, hb, haccepted, id, rfl⟩
  · have hsame := hoff h
    refine ⟨fun hyes => absurd hyes h, fun row hrow => ?_, fun row hrow => ?_, fun _ => hsame⟩
    · rw [hsame] at hrow
      exact Or.inl hrow
    · rw [hsame]
      exact hrow

/-- What is published is accepted. -/
theorem owner_of_published {throws : ℕ → Bool} {listeners : ℕ} {event : NotificationEvent}
    {sourceHostId : HostId}
    (h : publishVerifiedRemoteEvent throws store.db listeners event sourceHostId = true) :
    owner store.db event.sessionId = some sourceHostId := by
  rw [publishVerifiedRemoteEvent] at h
  split_ifs at h
  cases hanswer : filterHostOwnership throws store.db [⟨event, some sourceHostId, 0⟩] with
  | none =>
    rw [hanswer] at h
    cases h
  | some verified =>
    rw [hanswer] at h
    have hlength : verified.length = 1 := of_decide_eq_true h
    by_contra howner
    have hnone : verified = [] := by
      rw [filterHostOwnership_eq hanswer, List.filter_cons_of_neg]
      · rfl
      · rw [decide_eq_true_eq, Accepted]
        rintro (hlocal | hremote)
        · cases hlocal
        · exact howner hremote
    rw [hnone] at hlength
    cases hlength

/-! ## The steps -/

/-- What a run keeps. -/
structure Inv (w : World) : Prop extends Kept w where
  /-- an empty buffer has no timers -/
  idle : w.buffer = [] → w.debounceTimer = none ∧ w.ceilingTimer = none
  /-- the first event started the ceiling -/
  armed : ∀ first rest, w.buffer = first :: rest →
    w.debounceTimer.isSome ∧ w.ceilingTimer = some (first.pushedAt + flushCeilingMs) ∧
      ∀ b ∈ w.buffer, first.pushedAt ≤ b.pushedAt ∧ b.pushedAt ≤ w.now

theorem Inv.start (store : Store) : Inv { store } where
  once := rfl
  inTime := nofun
  due := nofun
  settled := nofun
  published := nofun
  idle := fun _ => ⟨rfl, rfl⟩
  armed := nofun

variable {w w' : World}

/-- The first event starts both timers. -/
theorem pushEvent_of_idle (hdebounce : w.debounceTimer = none) (hceiling : w.ceilingTimer = none)
    (event : NotificationEvent) (sourceHostId : Option HostId) :
    w.pushEvent event sourceHostId =
      { w with
        buffer := w.buffer ++ [⟨event, sourceHostId, w.now⟩]
        pushed := w.pushed ++ [⟨event, sourceHostId, w.now⟩]
        debounceTimer := some (w.now + flushDebounceMs)
        ceilingTimer := some (w.now + flushCeilingMs) } := by
  simp [World.pushEvent, World.scheduleFlush, hdebounce, hceiling]

/-- A later event starts the delay again. -/
theorem pushEvent_of_armed (hdebounce : w.debounceTimer.isSome) (event : NotificationEvent)
    (sourceHostId : Option HostId) :
    w.pushEvent event sourceHostId =
      { w with
        buffer := w.buffer ++ [⟨event, sourceHostId, w.now⟩]
        pushed := w.pushed ++ [⟨event, sourceHostId, w.now⟩]
        debounceTimer := some (w.now + flushDebounceMs) } := by
  simp [World.pushEvent, World.scheduleFlush, hdebounce]

theorem Inv.pushEvent (h : Inv w) (event : NotificationEvent) (sourceHostId : Option HostId) :
    Inv (w.pushEvent event sourceHostId) := by
  have honce : w.flushes.flatMap (·.batch) ++ (w.buffer ++ [⟨event, sourceHostId, w.now⟩]) =
      w.pushed ++ [⟨event, sourceHostId, w.now⟩] := by
    rw [← List.append_assoc, h.once]
  have hdue : ∀ b ∈ w.buffer ++ [⟨event, sourceHostId, w.now⟩],
      w.now ≤ b.pushedAt + flushCeilingMs := by
    intro b hb
    rcases List.mem_append.1 hb with hb | hb
    · exact h.due b hb
    · rw [List.mem_singleton.1 hb]
      exact Nat.le_add_right _ _
  cases hbuffer : w.buffer with
  | nil =>
    obtain ⟨hdebounce, hceiling⟩ := h.idle hbuffer
    rw [pushEvent_of_idle hdebounce hceiling]
    refine ⟨⟨honce, h.inTime, hdue, h.settled, h.published⟩, fun hnil => ?_, ?_⟩
    · exact absurd hnil (by simp)
    · intro first rest hfirst
      dsimp only at hfirst ⊢
      rw [hbuffer] at hfirst ⊢
      obtain ⟨rfl, rfl⟩ := List.cons.inj hfirst
      refine ⟨rfl, rfl, fun b hb => ?_⟩
      rw [List.mem_singleton.1 hb]
      exact ⟨le_rfl, le_rfl⟩
  | cons first rest =>
    obtain ⟨hdebounce, hceiling, hbetween⟩ := h.armed first rest hbuffer
    rw [pushEvent_of_armed hdebounce]
    refine ⟨⟨honce, h.inTime, hdue, h.settled, h.published⟩, fun hnil => ?_, ?_⟩
    · exact absurd hnil (by simp)
    · intro first' rest' hfirst
      dsimp only at hfirst ⊢
      rw [hbuffer] at hfirst
      obtain ⟨rfl, -⟩ := List.cons.inj hfirst
      refine ⟨rfl, hceiling, fun b hb => ?_⟩
      rcases List.mem_append.1 hb with hb | hb
      · exact hbetween b hb
      · rw [List.mem_singleton.1 hb]
        have hmem : first ∈ w.buffer := hbuffer ▸ List.mem_cons_self
        exact ⟨(hbetween first hmem).2, le_rfl⟩

theorem flush_of_empty (hbuffer : w.buffer = []) (outcome : Outcome) :
    w.flush outcome = w.clearFlushTimers := if_pos hbuffer

theorem flush_of_buffer (hbuffer : w.buffer ≠ []) (outcome : Outcome) :
    w.flush outcome =
      { w with
        buffer := []
        debounceTimer := none
        ceilingTimer := none
        store := flushBatch outcome w.store w.buffer
        flushes := w.flushes ++
          [⟨w.now, w.buffer, outcome, w.store, flushBatch outcome w.store w.buffer⟩] } :=
  if_neg hbuffer

theorem Inv.flush (h : Inv w) (outcome : Outcome) : Inv (w.flush outcome) := by
  by_cases hbuffer : w.buffer = []
  · rw [flush_of_empty hbuffer]
    refine ⟨⟨h.once, h.inTime, h.due, h.settled, h.published⟩, fun _ => ⟨rfl, rfl⟩, ?_⟩
    intro first rest hfirst
    cases hbuffer.symm.trans hfirst
  · obtain ⟨first, rest, hfirst⟩ := List.exists_cons_of_ne_nil hbuffer
    obtain ⟨-, -, hbetween⟩ := h.armed first rest hfirst
    have hmem : first ∈ w.buffer := hfirst ▸ List.mem_cons_self
    rw [flush_of_buffer hbuffer]
    refine ⟨⟨?_, fun f hf => ?_, fun b hb => ?_, fun f hf => ?_, h.published⟩,
      fun _ => ⟨rfl, rfl⟩, fun first rest hfirst => ?_⟩
    · rw [List.flatMap_append, List.append_nil, List.flatMap_singleton]
      exact h.once
    · rcases List.mem_append.1 hf with hf | hf
      · exact h.inTime f hf
      · rw [List.mem_singleton.1 hf]
        exact ⟨first, rest, hfirst, (hbetween first hmem).2, h.due first hmem⟩
    · cases hb
    · rcases List.mem_append.1 hf with hf | hf
      · exact h.settled f hf
      · rw [List.mem_singleton.1 hf]
        exact settled_flush w.now w.buffer outcome w.store
    · cases hfirst

/-- The flush of `stop`. -/
theorem Inv.stop (h : Inv w) (outcome : Outcome) :
    Inv (World.flush { w.clearFlushTimers with subscribed := false } outcome) := by
  have hunsubscribed : Inv { w with subscribed := false } :=
    ⟨⟨h.once, h.inTime, h.due, h.settled, h.published⟩, h.idle, h.armed⟩
  exact hunsubscribed.flush outcome

theorem Inv.publish (h : Inv w) (event : NotificationEvent) (sourceHostId : HostId)
    (listeners : ℕ) (queryThrows : ℕ → Bool) :
    Inv (w.publish event sourceHostId listeners queryThrows) := by
  rw [World.publish]
  split_ifs with hpublish
  · refine { h with published := fun p hp => ?_ }
    rcases List.mem_append.1 hp with hp | hp
    · exact h.published p hp
    · rw [List.mem_singleton.1 hp]
      exact owner_of_published hpublish
  · exact h

theorem Inv.pass (h : Inv w) {time : ℕ} (hdue : w.DueFrom (w.now + time)) :
    Inv { w with now := w.now + time } := by
  refine ⟨⟨h.once, h.inTime, fun b hb => ?_, h.settled, h.published⟩, h.idle, ?_⟩
  · obtain ⟨first, rest, hfirst⟩ := List.exists_cons_of_ne_nil (List.ne_nil_of_mem hb)
    obtain ⟨-, hceiling, hbetween⟩ := h.armed first rest hfirst
    have hle := hdue.2 _ hceiling
    have := (hbetween b hb).1
    dsimp only
    omega
  · intro first rest hfirst
    obtain ⟨hdebounce, hceiling, hbetween⟩ := h.armed first rest hfirst
    exact ⟨hdebounce, hceiling, fun b hb =>
      ⟨(hbetween b hb).1, (hbetween b hb).2.trans (Nat.le_add_right _ _)⟩⟩

theorem Inv.step {label : Label} (h : Inv w) (hstep : step w label = some w') : Inv w' := by
  cases label with
  | event event =>
    cases hstep
    split_ifs
    · exact h.pushEvent event none
    · exact h
  | remote event sourceHostId listeners queryThrows =>
    cases hstep
    exact (h.pushEvent event _).publish event sourceHostId listeners queryThrows
  | debounce outcome =>
    rw [EventWriter.step] at hstep
    split_ifs at hstep
    cases hstep
    exact h.flush outcome
  | ceiling outcome =>
    rw [EventWriter.step] at hstep
    split_ifs at hstep
    cases hstep
    exact h.flush outcome
  | stop outcome =>
    cases hstep
    exact h.stop outcome
  | pass time =>
    rw [EventWriter.step] at hstep
    split_ifs at hstep with hdue
    cases hstep
    exact h.pass hdue
  | write store =>
    cases hstep
    exact ⟨⟨h.once, h.inTime, h.due, h.settled, h.published⟩, h.idle, h.armed⟩

/-- **Once, in time, and for its owner.** Along every run, over any states of the tables, every
event that was pushed is in exactly one batch or still in the buffer, no batch is later than 30 s
after its first event, every batch is settled, and every event that is published is of a session of
the host that reported it. -/
theorem kept_along (store : Store) (labels : List Label) :
    Run.Along step Kept { store } labels :=
  Run.along_of_invariant (I := Inv) (P := Kept) (C := fun _ _ => True)
    (fun _ _ _ h _ hs => h.step hs) (fun _ h => h.toKept) (Inv.start store)
    (Run.Meets.of_forall (fun _ _ => trivial) _ _)

/-- A project on the host `a`, with one session. -/
def oneSession : Store where
  db :=
    { projects := ⟨[{ id := 1, hostId := "a" }], by decide⟩
      sessions := ⟨[{ id := 1, projectId := 1 }], by decide⟩
      tasks := Table.empty
      nextSessionId := 2
      fresh := by decide }
  events := Journal.empty
  linked := by
    intro row hrow
    rw [List.mem_singleton.1 hrow]
    exact ⟨_, rfl⟩
  owned := nofun
  unique := List.Pairwise.nil

/-- An event of the session. -/
def started : NotificationEvent := ⟨1, 1, "started", 0, "\x7b\x7d"⟩

/-- Where the ownership query throws, an event of the host that reported it is not inserted. -/
theorem dropped_of_query_throws :
    ∃ w, Run.play step { store := oneSession }
        [.remote started "a" 0 fun _ => false, .pass flushDebounceMs,
          .debounce ⟨some true, fun _ => true, false, fun _ => false⟩] = some w ∧
      ∃ f ∈ w.flushes, f.outcome.eventPersistence = some true ∧
        ∃ b ∈ f.batch, Accepted f.before.db b ∧ (∀ i, ¬ f.FailsAlone i b.event) ∧
          f.after.copies b.event = 0 := by
  refine ⟨_, rfl, _, List.mem_singleton_self _, rfl, _, List.mem_singleton_self _, ?_, ?_, ?_⟩
  · exact Or.inr rfl
  · rintro i (hthrows | hsession)
    · cases hthrows
    · exact hsession (by decide)
  · rfl

end EventWriter
end Mullion
