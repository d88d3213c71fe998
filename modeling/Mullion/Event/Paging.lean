import Mullion.Lib.Run
import Mullion.Event.History

/-!
# Following the cursor

A reader asks for a page, then for the page that `nextCursor` names, until it is null; between two
pages rows are inserted and swept. `Chain.Sound` is what such a reader may expect: no page throws,
the rows come in strictly decreasing order and none twice, no page is too long, the pages come to an
end, and a row of the first table that is never visited was swept before its turn.

`Chain.Inv` carries this along a run. It says what the next page asks for, namely the rows below all
that was visited, and where the rows of the first table are: still below, visited, or swept in time.
An insertion or a sweep only makes the table later in the sense of the journal, so a row that was
gone stays gone (`Chain.Inv.change`). A page takes the newest rows that are left, and whatever is
left after it lies below its last row (`Chain.Inv.serve`). The one exception is a limit between zero
and one, which is cut to an empty page with rows behind it: the code then reads the last row of
nothing (`half_row_throws`). `chain_sound_iff` has it that nothing else goes wrong.
-/

namespace Mullion
namespace Event

/-- A page, with the table it was read from. -/
structure Page where
  table : Events
  events : List StoredEventRow

/-- How far a reader is. -/
inductive Progress
  | reading
  | finished
  | threw (message : String)

/-- A reader that follows `nextCursor`; `filter` is what it asks for next. -/
structure Chain where
  table : Events
  filter : EventQueryFilter
  progress : Progress
  pages : List Page

/-- A reader before its first page. -/
def Chain.start (table : Events) (filter : EventQueryFilter) : Chain :=
  ⟨table, filter, .reading, []⟩

inductive Label
  | insert (events : List NotificationEvent)
  | sweepOld (now : ℤ) (retentionDays : Num)
  | sweepCap (maxPerSession : Num)
  | page

/-- The events of all pages, in the order they were read. -/
def Chain.visited (s : Chain) : List StoredEventRow := s.pages.flatMap (·.events)

/-- The table the first page is read from. -/
def Chain.firstTable (s : Chain) : Events :=
  match s.pages with
  | [] => s.table
  | first :: _ => first.table

/-- A page was read; the reader goes on with the filter, or is done. -/
def Chain.serve (s : Chain) (events : List StoredEventRow) (filter : EventQueryFilter)
    (progress : Progress) : Chain :=
  ⟨s.table, filter, progress, s.pages ++ [⟨s.table, events⟩]⟩

section Parse

variable (parse : String → Option Signed.Json)

/-- The next page is read. -/
def Chain.read (s : Chain) : Chain :=
  match querySessionEvents parse s.table s.filter with
  | .error message => { s with progress := .threw message }
  | .ok ⟨events, none⟩ => s.serve events s.filter .finished
  | .ok ⟨events, some cursor⟩ =>
    s.serve events { s.filter with cursor := some (.ofInt cursor) } .reading

/-- One step of the reader or of the table. -/
def step (s : Chain) : Label → Option Chain
  | .insert events => some { s with table := insertSessionEvents s.table events }
  | .sweepOld now retentionDays =>
    some { s with table := (sweepOldSessionEvents now s.table retentionDays).1 }
  | .sweepCap maxPerSession =>
    some { s with table := (sweepSessionEventCap s.table maxPerSession).1 }
  | .page =>
    match s.progress with
    | .reading => some (s.read parse)
    | _ => none

/-- The row was gone when a page was read, and every page before it was still above it. -/
def Chain.SweptBefore (s : Chain) (row : SessionEvent) : Prop :=
  ∃ before page after, s.pages = before ++ page :: after ∧ row ∉ page.table.rows ∧
    ∀ event ∈ before.flatMap (·.events), row.id < event.id

/-- The row was visited, or swept before its turn. -/
def Chain.Accounted (s : Chain) (row : SessionEvent) : Prop :=
  row.stored parse ∈ s.visited ∨ s.SweptBefore row

/-- Nothing was lost or repeated so far, by a reader that began with the filter `base`. -/
structure Chain.Sound (base : EventQueryFilter) (s : Chain) : Prop where
  noThrow : ∀ message, s.progress ≠ .threw message
  decreasing : (s.visited.map (·.id)).Pairwise (· > ·)
  once : (s.visited.map (·.id)).Nodup
  capped : ∀ page ∈ s.pages, page.events.length ≤ 500
  ends : s.pages.length ≤ (s.firstTable.select base.conditions).length + 1
  complete : s.progress = .finished →
    ∀ row ∈ s.firstTable.select base.conditions, s.Accounted parse row

/-! ## The invariant -/

/-- What holds of a reader that has not met an exception. -/
structure Chain.Inv (base : EventQueryFilter) (s : Chain) : Prop where
  noThrow : ∀ message, s.progress ≠ .threw message
  decreasing : s.visited.Pairwise (fun a b => b.id < a.id)
  capped : ∀ page ∈ s.pages, page.events.length ≤ 500
  later : Journal.Later s.firstTable s.table
  origin : ∀ event ∈ s.visited,
    ∃ row ∈ s.firstTable.select base.conditions, row.stored parse = event
  /-- the next page asks for what lies below all that was visited -/
  asks : s.progress = .reading → s.filter.limit = base.limit ∧
    ∀ row, s.filter.conditions row = true ↔
      base.conditions row = true ∧ ∀ event ∈ s.visited, row.id < event.id
  pending : s.progress = .reading → ∀ row ∈ s.firstTable.select base.conditions,
    (∀ event ∈ s.visited, row.id < event.id) ∨ s.Accounted parse row
  complete : s.progress = .finished →
    ∀ row ∈ s.firstTable.select base.conditions, s.Accounted parse row
  served : s.progress = .finished → s.pages ≠ []
  progress : s.progress = .reading → s.pages.length ≤ s.visited.length
  length : s.pages.length ≤ s.visited.length + 1

variable {parse} {base : EventQueryFilter} {s : Chain}

@[simp] theorem stored_id (row : SessionEvent) : (row.stored parse).id = row.id := rfl

theorem inv_start (table : Events) (filter : EventQueryFilter) :
    (Chain.start table filter).Inv parse filter where
  noThrow := by simp [Chain.start]
  decreasing := List.Pairwise.nil
  capped := by simp [Chain.start]
  later := Journal.Later.refl table
  origin := by simp [Chain.start, Chain.visited]
  asks := by simp [Chain.start, Chain.visited]
  pending := by simp [Chain.start, Chain.visited]
  complete := by simp [Chain.start]
  served := by simp [Chain.start]
  progress := by simp [Chain.start]
  length := by simp [Chain.start]

/-- The invariant says that reading was sound. -/
theorem Chain.Inv.sound (h : s.Inv parse base) : s.Sound parse base := by
  have hdec : (s.visited.map (·.id)).Pairwise (· > ·) := by
    rw [List.pairwise_map]
    exact h.decreasing
  have honce : (s.visited.map (·.id)).Nodup := hdec.imp (fun hgt => ne_of_gt hgt)
  have hsub : (s.visited.map (·.id)) ⊆ (s.firstTable.select base.conditions).map (·.id) := by
    intro id hid
    obtain ⟨event, hevent, rfl⟩ := List.mem_map.1 hid
    obtain ⟨row, hrow, rfl⟩ := h.origin event hevent
    exact List.mem_map.2 ⟨row, hrow, rfl⟩
  have hlen := (honce.subperm hsub).length_le
  simp only [List.length_map] at hlen
  have := h.length
  exact ⟨h.noThrow, hdec, honce, h.capped, by omega, h.complete⟩

/-- What becomes of the table does not hurt the reader. -/
theorem Chain.Inv.change (h : s.Inv parse base) {table : Events}
    (hlater : Journal.Later s.table table) : Chain.Inv parse base { s with table := table } := by
  by_cases hpages : s.pages = []
  · have hnil : Chain.visited { s with table := table } = [] := by simp [Chain.visited, hpages]
    have hfirst : Chain.firstTable { s with table := table } = table := by
      simp only [Chain.firstTable, hpages]
    refine ⟨h.noThrow, h.decreasing, h.capped, ?_, ?_, h.asks, ?_, ?_, h.served, h.progress,
      h.length⟩
    · rw [hfirst]
      exact Journal.Later.refl table
    · simp [hnil]
    · simp [hnil]
    · intro hfinished
      exact absurd hpages (h.served hfinished)
  · obtain ⟨first, rest, hcons⟩ := List.exists_cons_of_ne_nil hpages
    have hfirst : Chain.firstTable { s with table := table } = s.firstTable := by
      simp only [Chain.firstTable, hcons]
    refine ⟨h.noThrow, h.decreasing, h.capped, ?_, ?_, h.asks, ?_, ?_, h.served, h.progress,
      h.length⟩
    · rw [hfirst]
      exact h.later.trans hlater
    · rw [hfirst]
      exact h.origin
    · rw [hfirst]
      exact h.pending
    · rw [hfirst]
      exact h.complete

/-! ## A page is served -/

section Serve

variable {events : List StoredEventRow} {filter : EventQueryFilter} {progress : Progress}

@[simp] theorem serve_table : (s.serve events filter progress).table = s.table := rfl

@[simp] theorem serve_filter : (s.serve events filter progress).filter = filter := rfl

@[simp] theorem serve_progress : (s.serve events filter progress).progress = progress := rfl

@[simp] theorem serve_pages :
    (s.serve events filter progress).pages = s.pages ++ [⟨s.table, events⟩] := rfl

@[simp] theorem serve_visited :
    (s.serve events filter progress).visited = s.visited ++ events := by
  simp [Chain.visited]

@[simp] theorem serve_firstTable :
    (s.serve events filter progress).firstTable = s.firstTable := by
  cases hpages : s.pages <;> simp [Chain.firstTable, Chain.serve, hpages]

theorem Chain.Accounted.serve {row : SessionEvent} (h : s.Accounted parse row) :
    (s.serve events filter progress).Accounted parse row := by
  rcases h with h | ⟨before, page, after, hpages, hrow, habove⟩
  · left
    simp [h]
  · right
    refine ⟨before, page, after ++ [⟨s.table, events⟩], ?_, hrow, habove⟩
    simp [hpages]

end Serve

/-- What the next page can hold: rows that matched at the first page, below all that was
visited. -/
theorem Chain.Inv.next_mem (h : s.Inv parse base) (hreading : s.progress = .reading)
    {row : SessionEvent} (hrow : row ∈ s.table.select s.filter.conditions) :
    row ∈ s.firstTable.select base.conditions ∧ ∀ event ∈ s.visited, row.id < event.id := by
  obtain ⟨hmem, hcond⟩ := Journal.mem_select.1 hrow
  obtain ⟨hbase, hbelow⟩ := ((h.asks hreading).2 row).1 hcond
  refine ⟨Journal.mem_select.2 ⟨?_, hbase⟩, hbelow⟩
  cases hvisited : s.visited with
  | nil =>
    -- nothing was visited, so no page was read yet and this is the first table
    have hlen := h.progress hreading
    have hnil : s.pages = [] := by
      rw [← List.length_eq_zero_iff]
      simp only [hvisited, List.length_nil] at hlen
      omega
    simpa only [Chain.firstTable, hnil] using hmem
  | cons event rest =>
    have hevent : event ∈ s.visited := by simp [hvisited]
    obtain ⟨old, hold, rfl⟩ := h.origin event hevent
    apply h.later.old row hmem
    have hlt : row.id < old.id := hbelow _ hevent
    have := s.firstTable.fresh old (Journal.mem_select.1 hold).1
    omega

/-- A row that matched at the first page is accounted for once the next page was read, or it
lies below all rows of that page and is still to come. -/
theorem Chain.Inv.next_accounted (h : s.Inv parse base) (hreading : s.progress = .reading)
    (n : ℕ) (filter : EventQueryFilter) (progress : Progress) {row : SessionEvent}
    (hrow : row ∈ s.firstTable.select base.conditions) :
    (s.serve (((s.table.select s.filter.conditions).take n).map (SessionEvent.stored parse))
      filter progress).Accounted parse row ∨
    (row ∈ s.table.select s.filter.conditions ∧ (∀ event ∈ s.visited, row.id < event.id) ∧
      ∀ other ∈ (s.table.select s.filter.conditions).take n, row.id < other.id) := by
  rcases h.pending hreading row hrow with hbelow | haccounted
  · by_cases hmem : row ∈ s.table.rows
    · have hselect : row ∈ s.table.select s.filter.conditions := by
        refine Journal.mem_select.2 ⟨hmem, ((h.asks hreading).2 row).2 ⟨?_, hbelow⟩⟩
        exact (Journal.mem_select.1 hrow).2
      rcases Journal.mem_take_or_below (s.table.select_sorted _) n hselect with htake | hlow
      · left
        left
        rw [serve_visited]
        exact List.mem_append_right _ (List.mem_map_of_mem htake)
      · exact Or.inr ⟨hselect, hbelow, hlow⟩
    · left
      right
      exact ⟨s.pages, _, [], rfl, hmem, hbelow⟩
  · exact Or.inl haccounted.serve

/-- **A page.** Serving the first `n` of the rows that match keeps the invariant, if the
filter of the next page goes on below the last of them. -/
theorem Chain.Inv.serve (h : s.Inv parse base) (hreading : s.progress = .reading) {n : ℕ}
    (hn : n ≤ maxQueryLimit) {filter : EventQueryFilter} {progress : Progress}
    (hthrow : ∀ message, progress ≠ .threw message)
    (hlimit : progress = .reading → filter.limit = s.filter.limit)
    (hcursor : progress = .reading → ∃ last ∈ (s.table.select s.filter.conditions).take n,
      (∀ row ∈ (s.table.select s.filter.conditions).take n, last.id ≤ row.id) ∧
      ∀ row, filter.conditions row = true ↔ s.filter.conditions row = true ∧ row.id < last.id)
    (hall : progress = .finished → (s.table.select s.filter.conditions).length ≤ n) :
    (s.serve (((s.table.select s.filter.conditions).take n).map (SessionEvent.stored parse))
      filter progress).Inv parse base := by
  have htaken : ∀ row ∈ (s.table.select s.filter.conditions).take n,
      row ∈ s.firstTable.select base.conditions ∧ ∀ event ∈ s.visited, row.id < event.id :=
    fun row hrow => h.next_mem hreading (List.mem_of_mem_take hrow)
  constructor
  case noThrow => exact hthrow
  case decreasing =>
    rw [serve_visited, List.pairwise_append]
    refine ⟨h.decreasing, ?_, ?_⟩
    · rw [List.pairwise_map]
      exact (s.table.select_sorted _).take
    · intro event hevent served hserved
      obtain ⟨row, hrow, rfl⟩ := List.mem_map.1 hserved
      exact (htaken row hrow).2 event hevent
  case capped =>
    intro page hpage
    rcases List.mem_append.1 hpage with hpage | hpage
    · exact h.capped page hpage
    · rw [List.mem_singleton.1 hpage]
      simp only [List.length_map, List.length_take]
      rw [maxQueryLimit] at hn
      omega
  case later =>
    rw [serve_firstTable]
    exact h.later
  case origin =>
    intro event hevent
    rw [serve_firstTable]
    rw [serve_visited] at hevent
    rcases List.mem_append.1 hevent with hevent | hevent
    · exact h.origin event hevent
    · obtain ⟨row, hrow, rfl⟩ := List.mem_map.1 hevent
      exact ⟨row, (htaken row hrow).1, rfl⟩
  case asks =>
    intro hstill
    obtain ⟨last, hlast, hleast, hfilter⟩ := hcursor hstill
    obtain ⟨hlim, hasks⟩ := h.asks hreading
    refine ⟨(hlimit hstill).trans hlim, ?_⟩
    intro row
    rw [serve_filter, serve_visited, hfilter, hasks]
    simp only [List.mem_append, List.mem_map]
    constructor
    · rintro ⟨⟨hbase, hbelow⟩, hlt⟩
      refine ⟨hbase, ?_⟩
      rintro event (hevent | ⟨other, hother, rfl⟩)
      · exact hbelow event hevent
      · exact lt_of_lt_of_le hlt (hleast other hother)
    · rintro ⟨hbase, hbelow⟩
      refine ⟨⟨hbase, fun event hevent => hbelow event (Or.inl hevent)⟩, ?_⟩
      exact hbelow _ (Or.inr ⟨last, hlast, rfl⟩)
  case pending =>
    intro _ row hrow
    rw [serve_firstTable] at hrow
    rcases h.next_accounted hreading n filter progress hrow with haccounted | ⟨-, hbelow, hlow⟩
    · exact Or.inr haccounted
    · left
      intro event hevent
      rw [serve_visited] at hevent
      rcases List.mem_append.1 hevent with hevent | hevent
      · exact hbelow event hevent
      · obtain ⟨other, hother, rfl⟩ := List.mem_map.1 hevent
        exact hlow other hother
  case complete =>
    intro hdone row hrow
    rw [serve_firstTable] at hrow
    rcases h.next_accounted hreading n filter progress hrow with haccounted | ⟨hmem, -, hlow⟩
    · exact haccounted
    · -- the last page holds every row that matches
      rw [List.take_of_length_le (hall hdone)] at hlow
      exact absurd (hlow row hmem) (lt_irrefl _)
  case served =>
    intro _
    simp
  case progress =>
    intro hstill
    obtain ⟨last, hlast, -, -⟩ := hcursor hstill
    have hpos := List.length_pos_of_mem hlast
    have := h.progress hreading
    simp only [serve_pages, serve_visited, List.length_append, List.length_map,
      List.length_singleton]
    omega
  case length =>
    have := h.progress hreading
    simp only [serve_pages, serve_visited, List.length_append, List.length_singleton]
    omega

/-! ## Steps and runs -/

/-- Reading the next page is in order: the limit is no fraction below one, or no row
matches. -/
def Chain.InOrder (s : Chain) : Label → Prop
  | .page => ¬ (s.filter.fractional ∧ s.table.select s.filter.conditions ≠ [])
  | _ => True

/-- The last row of a page is the lowest. -/
theorem getLast_least {l : List SessionEvent} (h : l.Pairwise (fun a b => b.id < a.id))
    {last : SessionEvent} (hlast : l.getLast? = some last) :
    last ∈ l ∧ ∀ row ∈ l, last.id ≤ row.id := by
  obtain ⟨front, rfl⟩ := List.getLast?_eq_some_iff.1 hlast
  refine ⟨by simp, ?_⟩
  intro row hrow
  rcases List.mem_append.1 hrow with hrow | hrow
  · exact ((List.pairwise_append.1 h).2.2 row hrow last (List.mem_singleton.2 rfl)).le
  · rw [List.mem_singleton.1 hrow]

/-- With a cursor at a row that matches, a row matches if it did and lies below. -/
theorem conditions_cursor {filter : EventQueryFilter} {last : SessionEvent}
    (hlast : filter.conditions last = true) (row : SessionEvent) :
    EventQueryFilter.conditions { filter with cursor := some (.ofInt last.id) } row = true ↔
      filter.conditions row = true ∧ row.id < last.id := by
  simp only [EventQueryFilter.conditions, Bool.and_eq_true] at hlast ⊢
  have hselects : EventQueryFilter.selects { filter with cursor := some (.ofInt last.id) } row =
      filter.selects row := rfl
  rw [hselects]
  simp only [EventQueryFilter.below, Num.lt_ofInt, decide_eq_true_eq, Nat.cast_lt]
  constructor
  · rintro ⟨hrow, hlt⟩
    refine ⟨⟨hrow, ?_⟩, hlt⟩
    cases hcursor : filter.cursor with
    | none => rfl
    | some cursor =>
      have hbelow := hlast.2
      simp only [EventQueryFilter.below, hcursor] at hbelow
      exact Num.lt_trans_ofInt (by exact_mod_cast hlt) hbelow
  · rintro ⟨⟨hrow, -⟩, hlt⟩
    exact ⟨hrow, hlt⟩

/-- A page that is in order keeps the invariant. -/
theorem Chain.Inv.read (h : s.Inv parse base) (hreading : s.progress = .reading)
    (horder : s.InOrder .page) : (s.read parse).Inv parse base := by
  by_cases hlen : (s.table.select s.filter.conditions).length ≤ s.filter.clamped
  · have hlast : s.read parse =
        s.serve ((s.table.select s.filter.conditions).map (SessionEvent.stored parse)) s.filter
          .finished := by
      rw [Chain.read, querySessionEvents_last parse hlen]
    have htake := List.take_of_length_le hlen
    rw [hlast, ← htake]
    exact h.serve hreading (clamped_le s.filter) (by simp) (by simp) (by simp) (fun _ => hlen)
  · have hpos : 0 < s.filter.clamped := by
      rw [Nat.pos_iff_ne_zero, ne_eq, clamped_eq_zero_iff]
      intro hfraction
      refine horder ⟨hfraction, ?_⟩
      intro hnil
      simp [hnil] at hlen
    obtain ⟨last, hlast⟩ : ∃ last,
        ((s.table.select s.filter.conditions).take s.filter.clamped).getLast? = some last := by
      rw [← Option.isSome_iff_exists, List.getLast?_isSome, ← List.length_pos_iff,
        List.length_take]
      omega
    obtain ⟨hmem, hleast⟩ := getLast_least (s.table.select_sorted _).take hlast
    have hmore : s.read parse =
        s.serve (((s.table.select s.filter.conditions).take s.filter.clamped).map
          (SessionEvent.stored parse)) { s.filter with cursor := some (.ofInt last.id) }
          .reading := by
      rw [Chain.read, querySessionEvents_more parse (by omega) hlast]
    rw [hmore]
    refine h.serve hreading (clamped_le s.filter) (by simp) (fun _ => rfl) ?_ (by simp)
    intro _
    refine ⟨last, hmem, hleast, conditions_cursor ?_⟩
    exact (Journal.mem_select.1 (List.mem_of_mem_take hmem)).2

/-- A step in order keeps the invariant. -/
theorem inv_step {s' : Chain} {a : Label} (h : s.Inv parse base) (horder : s.InOrder a)
    (hs : step parse s a = some s') : s'.Inv parse base := by
  cases a with
  | insert events =>
    cases hs
    exact h.change (later_insertSessionEvents s.table events)
  | sweepOld now retentionDays =>
    cases hs
    exact h.change (later_sweepOldSessionEvents now s.table retentionDays)
  | sweepCap maxPerSession =>
    cases hs
    exact h.change (later_sweepSessionEventCap s.table maxPerSession)
  | page =>
    rw [step] at hs
    split at hs
    next hreading =>
      cases hs
      exact h.read hreading horder
    next => cases hs

/-- A step that is not in order is a page, and it throws. -/
theorem not_sound_step {s' : Chain} {a : Label} (horder : ¬ s.InOrder a)
    (hs : step parse s a = some s') : ¬ s'.Sound parse base := by
  cases a with
  | insert events => exact absurd trivial horder
  | sweepOld now retentionDays => exact absurd trivial horder
  | sweepCap maxPerSession => exact absurd trivial horder
  | page =>
    obtain ⟨hfraction, hrows⟩ := not_not.1 horder
    obtain ⟨message, hquery⟩ := querySessionEvents_throws parse
      ((clamped_eq_zero_iff s.filter).2 hfraction) hrows
    rw [step] at hs
    split at hs
    · cases hs
      intro hsound
      refine hsound.noThrow message ?_
      rw [Chain.read, hquery]
    · cases hs

/-- **Paging loses and repeats nothing.** Whatever is inserted and swept between pages, a
reader is sound exactly when no page is asked for with a limit between zero and one while a
row matches; and the cap sweep leaves every session exactly its newest rows. -/
theorem chain_sound_iff (parse : String → Option Signed.Json) (table : Events)
    (filter : EventQueryFilter) (labels : List Label) :
    (Run.Along (step parse) (Chain.Sound parse filter) (Chain.start table filter) labels ∧
      ∀ (table : Events) (maxPerSession : Num) (sessionId : ℕ),
        (sweepSessionEventCap table maxPerSession).1.select (ofSession sessionId) =
          newest (capOf maxPerSession) (table.select (ofSession sessionId))) ↔
    Run.Meets (step parse) Chain.InOrder (Chain.start table filter) labels := by
  have hiff : Run.Along (step parse) (Chain.Sound parse filter) (Chain.start table filter) labels ↔
      Run.Meets (step parse) Chain.InOrder (Chain.start table filter) labels :=
    Run.along_iff_meets (I := Chain.Inv parse filter)
      (fun s a s' h horder hs => inv_step h horder hs) (fun s h => h.sound)
      (fun s a s' _ horder hs => not_sound_step horder hs) (inv_start table filter)
  rw [hiff]
  exact and_iff_left sweepSessionEventCap_keeps

end Parse

/-- A table with one row. -/
def oneRow : Events :=
  Journal.empty.push (NotificationEvent.toRow ⟨1, 1, "bell", 0, "{}"⟩) (fun _ => rfl)

/-- A filter that asks for half a row. -/
def halfRow : EventQueryFilter where
  sessionId := none
  kind := none
  since := none
  «until» := none
  limit := some (.finite (1 / 2))
  cursor := none

/-- A page of half a row of a table with one row throws. -/
theorem half_row_throws :
    ¬ ∀ (parse : String → Option Signed.Json) (table : Events) (filter : EventQueryFilter)
      (labels : List Label),
      Run.Along (step parse) (Chain.Sound parse filter) (Chain.start table filter) labels ∧
        ∀ (table : Events) (maxPerSession : Num) (sessionId : ℕ),
          (sweepSessionEventCap table maxPerSession).1.select (ofSession sessionId) =
            newest (capOf maxPerSession) (table.select (ofSession sessionId)) := by
  intro h
  obtain ⟨hrun, -⟩ := h (fun _ => none) oneRow halfRow [.page]
  have hpage : step (fun _ => none) (Chain.start oneRow halfRow) .page =
      some ((Chain.start oneRow halfRow).read fun _ => none) := rfl
  refine not_sound_step ?_ hpage (hrun.last rfl)
  intro horder
  refine horder ⟨⟨by norm_num, by norm_num⟩, ?_⟩
  decide

end Event
end Mullion
