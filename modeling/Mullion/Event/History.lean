import Mathlib.Data.Rat.Floor
import Mathlib.Data.List.Dedup
import Mullion.Auth.Signed
import Mullion.Lib.Journal

/-!
# Event history

`event-history.ts`: the `session_events` table, its paged query and its two retention
sweeps. The table is a journal, since `id` is `AUTOINCREMENT`.

* `Num` — the numbers a caller may pass;
* `insertSessionEvents`, `sweepOldSessionEvents`, `sweepSessionEventCap`, and
  `later_insertSessionEvents` and the like: what each of them leaves of the table;
* `sweepSessionEventCap_keeps` — the cap leaves every session its newest rows;
* `querySessionEvents` and its cases `querySessionEvents_last`, `querySessionEvents_more`,
  `querySessionEvents_throws`.
-/

namespace Mullion
namespace Event

/-! ## Numbers -/

/-- A number of the language. -/
inductive Num
  | finite (value : ℚ)
  | posInf
  | negInf
  | nan
  deriving DecidableEq

/-- `a <= b`. -/
def Num.le : Num → Num → Bool
  | .nan, _ => false
  | _, .nan => false
  | .negInf, _ => true
  | _, .posInf => true
  | .finite a, .finite b => a ≤ b
  | _, _ => false

/-- `a < b`. -/
def Num.lt : Num → Num → Bool
  | .nan, _ => false
  | _, .nan => false
  | a, b => !Num.le b a

/-- `Math.trunc`. -/
def trunc (q : ℚ) : ℤ := if 0 ≤ q then ⌊q⌋ else ⌈q⌉

/-- A whole number. -/
def Num.ofInt (n : ℤ) : Num := .finite n

@[simp] theorem Num.lt_ofInt (m n : ℤ) : Num.lt (.ofInt m) (.ofInt n) = decide (m < n) := by
  rw [Bool.eq_iff_iff]
  simp [Num.lt, Num.le, Num.ofInt]

/-- What lies below a whole number that lies below `c` lies below `c`. -/
theorem Num.lt_trans_ofInt {m n : ℤ} {c : Num} (h : m < n) (hc : Num.lt (.ofInt n) c = true) :
    Num.lt (.ofInt m) c = true := by
  cases c with
  | finite q =>
    simp only [Num.lt, Num.le, Num.ofInt, Bool.not_eq_true', decide_eq_false_iff_not,
      not_le] at hc ⊢
    have : (m : ℚ) < n := by exact_mod_cast h
    exact this.trans hc
  | posInf => rfl
  | negInf => exact hc
  | nan => exact hc

/-! ## The table -/

/-- A row of `session_events`. -/
structure SessionEvent where
  id : ℕ
  sessionId : Option ℕ
  seq : ℕ
  kind : String
  ts : ℤ
  payload : Option String
  deriving DecidableEq

/-- The table `session_events`. -/
abbrev Events := Journal SessionEvent SessionEvent.id

/-- A `NotificationEvent`, with `JSON.stringify(event.payload ?? {})`. -/
structure NotificationEvent where
  sessionId : ℕ
  seq : ℕ
  kind : String
  ts : ℤ
  payload : String
  deriving DecidableEq

/-- The row of an event. -/
def NotificationEvent.toRow (event : NotificationEvent) (id : ℕ) : SessionEvent where
  id := id
  sessionId := some event.sessionId
  seq := event.seq
  kind := event.kind
  ts := event.ts
  payload := some event.payload

theorem NotificationEvent.id_toRow (event : NotificationEvent) (id : ℕ) :
    (event.toRow id).id = id := rfl

/-- The index `session_events_dedupe_idx` has a row for the event. -/
def NotificationEvent.stored (event : NotificationEvent) (row : SessionEvent) : Bool :=
  row.sessionId = some event.sessionId && row.seq = event.seq && row.ts = event.ts &&
    row.kind = event.kind

/-- `insertSessionEvents`, one row after the other, with `onConflictDoNothing`. A row that is
skipped has taken its `id` from the sequence by then. -/
def insertSessionEvents (table : Events) : List NotificationEvent → Events
  | [] => table
  | event :: rest =>
    insertSessionEvents
      (if table.rows.any event.stored then table.skip else table.push event.toRow event.id_toRow)
      rest

/-- `sweepOldSessionEvents` at the time `now`: the table and the number of rows deleted. -/
def sweepOldSessionEvents (now : ℤ) (table : Events) (retentionDays : Num) : Events × ℕ :=
  if Num.le retentionDays (.ofInt 0) then (table, 0)
  else
    let thresholdMs : Num :=
      match retentionDays with
      | .finite days => .finite (now - days * 24 * 60 * 60 * 1000)
      | .posInf => .negInf
      | .negInf => .posInf
      | .nan => .nan
    let old := fun row : SessionEvent => Num.lt (.ofInt row.ts) thresholdMs
    (table.deleteWhere old, (table.select old).length)

/-- `eq(sessionEvents.sessionId, sessionId)`. -/
def ofSession (sessionId : ℕ) (row : SessionEvent) : Bool := row.sessionId = some sessionId

/-- The cap that `maxPerSession` stands for; `none` is "unlimited". -/
def capOf : Num → Option ℕ
  | .finite q => if trunc q ≤ 0 then none else some (trunc q).toNat
  | _ => none

/-- The body of the loop of `sweepSessionEventCap`. -/
def capSession (cap : ℕ) (table : Events) (sessionId : ℕ) : Events × ℕ :=
  match (table.select (ofSession sessionId))[cap - 1]? with
  | none => (table, 0)
  | some cutoffRow =>
    let old := fun row : SessionEvent => ofSession sessionId row && decide (row.id < cutoffRow.id)
    (table.deleteWhere old, (table.select old).length)

/-- The loop of `sweepSessionEventCap` over the session ids. -/
def capSessions (cap : ℕ) : Events → List ℕ → Events × ℕ
  | table, [] => (table, 0)
  | table, sessionId :: rest =>
    let swept := capSession cap table sessionId
    let result := capSessions cap swept.1 rest
    (result.1, swept.2 + result.2)

/-- `selectDistinct({ sessionId })` with `isNotNull`. -/
def sessionIdRows (table : Events) : List ℕ := (table.rows.filterMap (·.sessionId)).dedup

/-- `sweepSessionEventCap`: the table and the number of rows deleted. -/
def sweepSessionEventCap (table : Events) (maxPerSession : Num) : Events × ℕ :=
  match capOf maxPerSession with
  | none => (table, 0)
  | some cap => capSessions cap table (sessionIdRows table)

/-! ## What the operations leave -/

theorem later_insertSessionEvents (table : Events) (events : List NotificationEvent) :
    Journal.Later table (insertSessionEvents table events) := by
  induction events generalizing table with
  | nil => exact Journal.Later.refl table
  | cons event rest ih =>
    rw [insertSessionEvents]
    split
    · exact (Journal.later_skip table).trans (ih _)
    · exact (Journal.later_push table _ _).trans (ih _)

theorem later_sweepOldSessionEvents (now : ℤ) (table : Events) (retentionDays : Num) :
    Journal.Later table (sweepOldSessionEvents now table retentionDays).1 := by
  unfold sweepOldSessionEvents
  split
  · exact Journal.Later.refl table
  · exact Journal.later_deleteWhere table _

theorem later_capSession (cap : ℕ) (table : Events) (sessionId : ℕ) :
    Journal.Later table (capSession cap table sessionId).1 := by
  rw [capSession]
  split
  · exact Journal.Later.refl table
  · exact Journal.later_deleteWhere table _

theorem later_capSessions (cap : ℕ) (table : Events) (sessionIds : List ℕ) :
    Journal.Later table (capSessions cap table sessionIds).1 := by
  induction sessionIds generalizing table with
  | nil => exact Journal.Later.refl table
  | cons sessionId rest ih => exact (later_capSession cap table sessionId).trans (ih _)

theorem later_sweepSessionEventCap (table : Events) (maxPerSession : Num) :
    Journal.Later table (sweepSessionEventCap table maxPerSession).1 := by
  rw [sweepSessionEventCap]
  split
  · exact Journal.Later.refl table
  · exact later_capSessions _ table _

/-! ## The cap -/

theorem capOf_pos {maxPerSession : Num} {cap : ℕ} (h : capOf maxPerSession = some cap) :
    0 < cap := by
  unfold capOf at h
  split at h
  · split at h
    · cases h
    · simp only [Option.some.injEq] at h
      omega
  · cases h

/-- The rows of one session are not those of another. -/
theorem ofSession_disjoint {sessionId other : ℕ} (h : other ≠ sessionId) {row : SessionEvent}
    (hrow : ofSession other row = true) : ofSession sessionId row = false := by
  simp only [ofSession, decide_eq_true_eq, decide_eq_false_iff_not] at hrow ⊢
  rw [hrow]
  simpa using h

theorem capSession_self {cap : ℕ} (hcap : 0 < cap) (table : Events) (sessionId : ℕ) :
    (capSession cap table sessionId).1.select (ofSession sessionId) =
      (table.select (ofSession sessionId)).take cap := by
  rw [capSession]
  split
  next hnone =>
    rw [List.getElem?_eq_none_iff] at hnone
    rw [List.take_of_length_le (by omega)]
  next cutoffRow hsome =>
    rw [Journal.select_deleteBefore table (ofSession sessionId) hsome]
    congr
    omega

theorem capSession_other (cap : ℕ) (table : Events) {sessionId : ℕ} {p : SessionEvent → Bool}
    (hp : ∀ row, p row = true → ofSession sessionId row = false) :
    (capSession cap table sessionId).1.select p = table.select p := by
  rw [capSession]
  split
  · rfl
  · refine Journal.select_deleteWhere_of_disjoint table ?_
    intro row hrow
    simp [hp row hrow]

/-- Sessions that are not in the list keep their rows. -/
theorem capSessions_other (cap : ℕ) (table : Events) {sessionIds : List ℕ}
    {p : SessionEvent → Bool}
    (hp : ∀ sessionId ∈ sessionIds, ∀ row, p row = true → ofSession sessionId row = false) :
    (capSessions cap table sessionIds).1.select p = table.select p := by
  induction sessionIds generalizing table with
  | nil => rfl
  | cons sessionId rest ih =>
    rw [capSessions, ih _ (fun other hother => hp other (List.mem_cons_of_mem _ hother))]
    exact capSession_other cap table (hp sessionId List.mem_cons_self)

theorem capSessions_mem {cap : ℕ} (hcap : 0 < cap) (table : Events) {sessionIds : List ℕ}
    (hnodup : sessionIds.Nodup) {sessionId : ℕ} (h : sessionId ∈ sessionIds) :
    (capSessions cap table sessionIds).1.select (ofSession sessionId) =
      (table.select (ofSession sessionId)).take cap := by
  induction sessionIds generalizing table with
  | nil => cases h
  | cons first rest ih =>
    rw [List.nodup_cons] at hnodup
    rw [capSessions]
    by_cases hfirst : sessionId = first
    · subst hfirst
      rw [capSessions_other cap _ (fun other hother row hrow =>
        ofSession_disjoint (fun he : sessionId = other => hnodup.1 (he ▸ hother)) hrow)]
      exact capSession_self hcap table sessionId
    · have hrest : sessionId ∈ rest := (List.mem_cons.1 h).resolve_left hfirst
      rw [ih _ hnodup.2 hrest, capSession_other cap table (fun row hrow =>
        ofSession_disjoint hfirst hrow)]

/-- The newest `cap` rows; all of them where there is no cap. -/
def newest (cap : Option ℕ) (rows : List SessionEvent) : List SessionEvent :=
  match cap with
  | none => rows
  | some cap => rows.take cap

/-- **The cap.** Every session is left with exactly its newest rows, as many as the cap
allows. -/
theorem sweepSessionEventCap_keeps (table : Events) (maxPerSession : Num) (sessionId : ℕ) :
    (sweepSessionEventCap table maxPerSession).1.select (ofSession sessionId) =
      newest (capOf maxPerSession) (table.select (ofSession sessionId)) := by
  rw [sweepSessionEventCap]
  cases hcap : capOf maxPerSession with
  | none => rfl
  | some cap =>
    rw [newest]
    by_cases h : sessionId ∈ sessionIdRows table
    · exact capSessions_mem (capOf_pos hcap) table (List.nodup_dedup _) h
    · have hnil : table.select (ofSession sessionId) = [] := by
        rw [Journal.select, List.filter_eq_nil_iff]
        intro row hrow hof
        refine h (List.mem_dedup.2 (List.mem_filterMap.2 ⟨row, hrow, ?_⟩))
        simpa [ofSession] using hof
      rw [capSessions_other cap table, hnil, List.take_nil]
      intro other hother row hrow
      exact ofSession_disjoint (fun he : sessionId = other => h (he ▸ hother)) hrow

/-! ## The query -/

/-- `DEFAULT_QUERY_LIMIT`. -/
def defaultQueryLimit : ℕ := 100

/-- `MAX_QUERY_LIMIT`. -/
def maxQueryLimit : ℕ := 500

/-- `EventQueryFilter`. -/
structure EventQueryFilter where
  sessionId : Option ℕ
  kind : Option String
  since : Option Num
  «until» : Option Num
  limit : Option Num
  cursor : Option Num

/-- The `limit` that `querySessionEvents` uses. -/
def EventQueryFilter.clamped (filter : EventQueryFilter) : ℕ :=
  match filter.limit with
  | some (.finite q) => if 0 < q then min (trunc q).toNat maxQueryLimit else defaultQueryLimit
  | _ => defaultQueryLimit

/-- The conditions of the query but for the cursor. -/
def EventQueryFilter.selects (filter : EventQueryFilter) (row : SessionEvent) : Bool :=
  (match filter.sessionId with | none => true | some sessionId => ofSession sessionId row) &&
  (match filter.kind with | none => true | some kind => row.kind = kind) &&
  (match filter.since with | none => true | some since => Num.le since (.ofInt row.ts)) &&
  (match filter.«until» with | none => true | some bound => Num.le (.ofInt row.ts) bound)

/-- The condition of the cursor. -/
def EventQueryFilter.below (filter : EventQueryFilter) (row : SessionEvent) : Bool :=
  match filter.cursor with
  | none => true
  | some cursor => Num.lt (.ofInt row.id) cursor

/-- All conditions of the query. -/
def EventQueryFilter.conditions (filter : EventQueryFilter) (row : SessionEvent) : Bool :=
  filter.selects row && filter.below row

/-- `StoredEventRow`. -/
structure StoredEventRow where
  id : ℕ
  sessionId : Option ℕ
  seq : ℕ
  kind : String
  ts : ℤ
  payload : Option Signed.Json

/-- `EventQueryResult`. -/
structure EventQueryResult where
  events : List StoredEventRow
  nextCursor : Option ℕ

section Query

-- `JSON.parse`; `none` is a throw
variable (parse : String → Option Signed.Json)

/-- `parsePayload`. -/
def parsePayload : Option String → Option Signed.Json
  | none => none
  | some raw =>
    match parse raw with
    | some (.obj fields) => some (.obj fields)
    | some (.arr items) => some (.arr items)
    | _ => none

/-- A row as the query returns it. -/
def SessionEvent.stored (row : SessionEvent) : StoredEventRow where
  id := row.id
  sessionId := row.sessionId
  seq := row.seq
  kind := row.kind
  ts := row.ts
  payload := parsePayload parse row.payload

/-- `querySessionEvents`; the error is the `TypeError` of `page[page.length - 1].id`. -/
def querySessionEvents (table : Events) (filter : EventQueryFilter) :
    Except String EventQueryResult :=
  let limit := filter.clamped
  let rows := (table.select filter.conditions).take (limit + 1)
  if limit < rows.length then
    let page := rows.take limit
    match page.getLast? with
    | none => .error "Cannot read properties of undefined (reading 'id')"
    | some last => .ok ⟨page.map (SessionEvent.stored parse), some last.id⟩
  else .ok ⟨rows.map (SessionEvent.stored parse), none⟩

/-- The last page: no more rows than the limit match. -/
theorem querySessionEvents_last {table : Events} {filter : EventQueryFilter}
    (h : (table.select filter.conditions).length ≤ filter.clamped) :
    querySessionEvents parse table filter =
      .ok ⟨(table.select filter.conditions).map (SessionEvent.stored parse), none⟩ := by
  have htake : (table.select filter.conditions).take (filter.clamped + 1) =
      table.select filter.conditions := List.take_of_length_le (by omega)
  simp only [querySessionEvents, htake]
  rw [if_neg (by omega)]

/-- A page that is not the last one: it is full, and the cursor is the key of its last row. -/
theorem querySessionEvents_more {table : Events} {filter : EventQueryFilter}
    (h : filter.clamped < (table.select filter.conditions).length) {last : SessionEvent}
    (hlast : ((table.select filter.conditions).take filter.clamped).getLast? = some last) :
    querySessionEvents parse table filter =
      .ok ⟨((table.select filter.conditions).take filter.clamped).map
        (SessionEvent.stored parse), some last.id⟩ := by
  have htake : ((table.select filter.conditions).take (filter.clamped + 1)).take filter.clamped =
      (table.select filter.conditions).take filter.clamped := by
    rw [List.take_take]
    congr 1
    omega
  simp only [querySessionEvents, htake, hlast]
  rw [if_pos (by rw [List.length_take]; omega)]

/-- With a limit of zero and a row that matches, the page is empty and has no last row. -/
theorem querySessionEvents_throws {table : Events} {filter : EventQueryFilter}
    (hzero : filter.clamped = 0) (h : table.select filter.conditions ≠ []) :
    ∃ message, querySessionEvents parse table filter = .error message := by
  have hpos := List.length_pos_iff.2 h
  refine ⟨"Cannot read properties of undefined (reading 'id')", ?_⟩
  simp only [querySessionEvents, hzero]
  rw [if_pos (by rw [List.length_take]; omega)]
  simp

end Query

/-! ## The limit -/

/-- The limit is a fraction below one. -/
def EventQueryFilter.fractional (filter : EventQueryFilter) : Prop :=
  match filter.limit with
  | some (.finite q) => 0 < q ∧ q < 1
  | _ => False

instance (filter : EventQueryFilter) : Decidable filter.fractional := by
  unfold EventQueryFilter.fractional
  split <;> infer_instance

theorem clamped_le (filter : EventQueryFilter) : filter.clamped ≤ maxQueryLimit := by
  unfold EventQueryFilter.clamped
  split
  · split
    · exact min_le_right _ _
    · decide
  · decide

/-- The limit that is used is zero exactly for a fraction below one. -/
theorem clamped_eq_zero_iff (filter : EventQueryFilter) :
    filter.clamped = 0 ↔ filter.fractional := by
  unfold EventQueryFilter.clamped EventQueryFilter.fractional
  split
  next q _ =>
    split
    next hpos =>
      rw [trunc, if_pos hpos.le]
      have hfloor : min ⌊q⌋.toNat maxQueryLimit = 0 ↔ ⌊q⌋ < 1 := by
        rw [maxQueryLimit]
        omega
      rw [hfloor, Int.floor_lt]
      simp [hpos]
    next hneg => simp [hneg, defaultQueryLimit]
  next => simp [defaultQueryLimit]

end Event
end Mullion
