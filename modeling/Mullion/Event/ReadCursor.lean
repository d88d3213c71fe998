import Mathlib.Logic.Function.Basic
import Mathlib.Tactic
import Mullion.Lib.Run

/-!
# Read cursors

One backend and its browser tabs: the events of a session are numbered from one in every process, a
tab keeps the number it has read up to across connections, and the `cursors` frame at the start of a
connection brings the two together (`pty-manager.ts`, `routes/events.ts`, `store/helpers.ts`,
`store/slices/events.ts`). What a tab must not do is to hide an event that nobody has read.

A number means nothing without the process it is from, so the proof follows the process. A cursor is
`Covered` when it hides marked events of the running process only. `TabInv` says that of what a tab
keeps, for the sessions the process tracks, and of each frame in flight to it, and `Inv` says it of
every tab and of the cursors of the process itself. Each handler of a tab keeps the first
(`TabInv.onCursors` and so on) and each step of the process the second (`Inv.step`). One step can
break it, a cursor of an earlier process that a tab carries over because the new one did not track
the session yet (`late_session_hides_event`). `Guarded` rules it out, and `unread_of_guarded` is the
result over every run that meets it.

The number of a process stands for its `bootId`. An event carries the process it came from, which
the code does not see.
-/

namespace Mullion
namespace ReadCursor

/-- A `NotificationEvent`. -/
structure Event where
  /-- the process that emitted it -/
  boot : ℕ
  seq : ℕ
  ts : ℤ
  deriving DecidableEq

/-- An entry of a `cursors` frame. -/
structure Cursor where
  seen : ℕ
  head : ℕ
  deriving DecidableEq

/-! ## The backend -/

/-- What a `Session` keeps of its events. -/
structure Session where
  eventSeq : ℕ := 0
  lastSeenSeq : ℕ := 0
  events : List Event := []

/-- `EVENTS_MAX`. -/
def eventsMax : ℕ := 100

/-- `emitEvent`, in the process `boot` at the time `ts`. -/
def Session.emitEvent (session : Session) (boot : ℕ) (ts : ℤ) : Session × Event :=
  let event : Event := ⟨boot, session.eventSeq + 1, ts⟩
  let events := session.events ++ [event]
  ({ session with
      eventSeq := session.eventSeq + 1
      events := if eventsMax < events.length then events.tail else events }, event)

/-- `Session.markEventsSeen`, and whether the cursor moved. -/
def Session.markEventsSeen (session : Session) (seq : ℕ) : Session × Bool :=
  if session.lastSeenSeq < seq then ({ session with lastSeenSeq := seq }, true)
  else (session, false)

/-- A process and the sessions it tracks. -/
structure Server where
  boot : ℕ := 0
  sessions : ℕ → Option Session := fun _ => none

/-- `PtyManager.listCursors`. -/
def Server.listCursors (server : Server) (id : ℕ) : Option Cursor :=
  (server.sessions id).map fun session => ⟨session.lastSeenSeq, session.eventSeq⟩

/-- The event is buffered, so that a replay may have it. -/
def Server.buffers (server : Server) (entry : ℕ × Event) : Bool :=
  (server.sessions entry.1).any fun session => entry.2 ∈ session.events

/-! ## A tab -/

/-- A frame on its way to a tab. -/
inductive Frame
  | cursors (bootId : ℕ) (cursors : ℕ → Option Cursor)
  | event (id : ℕ) (event : Event)
  | seen (id : ℕ) (seq : ℕ)

/-- A connection to the process `boot`. -/
structure Link where
  boot : ℕ
  down : List Frame
  up : List (ℕ × ℕ)

structure Tab where
  lastSeenSeq : ℕ → ℕ := fun _ => 0
  events : ℕ → List Event := fun _ => []
  knownBootId : Option ℕ := none
  link : Option Link := none
  /-- every event the tab was ever sent -/
  received : List (ℕ × Event) := []

/-- `EVENTS_PER_SESSION_CAP`. -/
def eventsPerSessionCap : ℕ := 200

/-- `addEvent`. -/
def addEvent (events : ℕ → List Event) (id : ℕ) (event : Event) : ℕ → List Event :=
  let existing := events id
  if existing.any fun e => e.seq = event.seq && e.ts = event.ts then events
  else
    let next := (existing ++ [event]).mergeSort fun a b => a.seq ≤ b.seq
    Function.update events id (next.drop (next.length - eventsPerSessionCap))

/-- `mergeServerCursor`. -/
def mergeServerCursor (own : ℕ) (server : Cursor) : ℕ :=
  if server.head < own then server.seen else max own server.seen

/-- `mergeCursorsFrame`. -/
def mergeCursorsFrame (lastSeenSeq : ℕ → ℕ) (cursors : ℕ → Option Cursor) (id : ℕ) : ℕ :=
  match cursors id with
  | none => lastSeenSeq id
  | some server => mergeServerCursor (lastSeenSeq id) server

/-- `adoptServerCursors`. -/
def adoptServerCursors (lastSeenSeq : ℕ → ℕ) (cursors : ℕ → Option Cursor) (id : ℕ) : ℕ :=
  match cursors id with
  | none => lastSeenSeq id
  | some server => server.seen

/-- `applyLiveSeen`. -/
def applyLiveSeen (lastSeenSeq : ℕ → ℕ) (id seq : ℕ) : ℕ → ℕ :=
  if seq ≤ lastSeenSeq id then lastSeenSeq else Function.update lastSeenSeq id seq

/-- `onCursors`. -/
def Tab.onCursors (tab : Tab) (bootId : ℕ) (cursors : ℕ → Option Cursor) : Tab :=
  let restarted := tab.knownBootId.any (· ≠ bootId)
  { tab with
    knownBootId := some bootId
    lastSeenSeq :=
      if restarted then adoptServerCursors tab.lastSeenSeq cursors
      else mergeCursorsFrame tab.lastSeenSeq cursors }

/-- A frame arrives: `onCursors`, `onEvent`, `onSeen`. -/
def Tab.onFrame (tab : Tab) : Frame → Tab
  | .cursors bootId cursors => tab.onCursors bootId cursors
  | .event id event =>
    { tab with events := addEvent tab.events id event, received := (id, event) :: tab.received }
  | .seen id seq => { tab with lastSeenSeq := applyLiveSeen tab.lastSeenSeq id seq }

/-- `markEventSeen`; `sendSeen` does nothing while the tab is not connected. -/
def Tab.markEventSeen (tab : Tab) (id seq : ℕ) : Tab :=
  { tab with
    lastSeenSeq :=
      if seq ≤ tab.lastSeenSeq id then tab.lastSeenSeq
      else Function.update tab.lastSeenSeq id seq
    link := tab.link.map fun link => { link with up := link.up ++ [(id, seq)] } }

/-- The tab is connected to the process. -/
def Tab.connectedTo (tab : Tab) (boot : ℕ) : Prop := ∃ link, tab.link = some link ∧ link.boot = boot

/-- A frame is sent to a tab that is connected to the process. -/
def Tab.push (tab : Tab) (boot : ℕ) (frame : Frame) : Tab :=
  { tab with
    link := tab.link.map fun link =>
      if link.boot = boot then { link with down := link.down ++ [frame] } else link }

/-! ## The system -/

structure Sys where
  server : Server := {}
  tabs : ℕ → Tab := fun _ => {}
  /-- the events that tabs have marked -/
  marks : List (ℕ × Event) := []

inductive Label
  /-- The process starts to track a session. -/
  | track (id : ℕ)
  /-- A session emits an event; `behind` are the tabs whose socket is too far behind. -/
  | emit (id : ℕ) (ts : ℤ) (behind : ℕ → Bool)
  /-- A tab connects; `replay` are the buffered events it is sent. -/
  | connect (tab : ℕ) (replay : List (ℕ × Event))
  /-- The tab takes the next frame. -/
  | deliver (tab : ℕ)
  /-- The process takes the next `seen` message of a tab and tells the others. -/
  | receive (tab : ℕ) (behind : ℕ → Bool)
  | markEventSeen (tab id : ℕ) (event : Event)
  | markSessionRead (tab id : ℕ)
  /-- The connection of a tab ends. -/
  | close (tab : ℕ)
  /-- The backend starts again. -/
  | restart

namespace Sys

def setTab (sys : Sys) (i : ℕ) (tab : Tab) : Sys :=
  { sys with tabs := Function.update sys.tabs i tab }

def setSession (sys : Sys) (id : ℕ) (session : Session) : Sys :=
  { sys with
    server := { sys.server with
      sessions := Function.update sys.server.sessions id (some session) } }

/-- A frame is sent to the connected tabs but those to skip. -/
def broadcast (sys : Sys) (skip : ℕ → Bool) (frame : Frame) : Sys :=
  { sys with
    tabs := fun i => if skip i then sys.tabs i else (sys.tabs i).push sys.server.boot frame }

/-- A tab marks an event it holds. -/
def mark (sys : Sys) (i id : ℕ) (event : Event) : Sys :=
  { sys.setTab i ((sys.tabs i).markEventSeen id event.seq) with marks := (id, event) :: sys.marks }

/-- The next `seen` message of a tab, and the link without it. -/
def takeSeen (sys : Sys) (i : ℕ) : Option (ℕ × ℕ × Sys) :=
  match (sys.tabs i).link with
  | none => none
  | some link =>
    match link.up with
    | [] => none
    | (id, seq) :: rest =>
      if link.boot = sys.server.boot then
        some (id, seq, sys.setTab i { sys.tabs i with link := some { link with up := rest } })
      else none

end Sys

/-- One step; `none` where the label is impossible. -/
def step (sys : Sys) : Label → Option Sys
  | .track id =>
    match sys.server.sessions id with
    | some _ => none
    | none => some (sys.setSession id {})
  | .emit id ts behind =>
    match sys.server.sessions id with
    | none => none
    | some session =>
      let emitted := session.emitEvent sys.server.boot ts
      some ((sys.setSession id emitted.1).broadcast behind (.event id emitted.2))
  | .connect i replay =>
    match (sys.tabs i).link with
    | some _ => none
    | none =>
      if replay.all sys.server.buffers then
        let down := Frame.cursors sys.server.boot sys.server.listCursors ::
          replay.map fun entry => Frame.event entry.1 entry.2
        some (sys.setTab i { sys.tabs i with link := some ⟨sys.server.boot, down, []⟩ })
      else none
  | .deliver i =>
    match (sys.tabs i).link with
    | none => none
    | some link =>
      match link.down with
      | [] => none
      | frame :: rest =>
        let tab := { sys.tabs i with link := some { link with down := rest } }
        some (sys.setTab i (tab.onFrame frame))
  | .receive i behind =>
    match sys.takeSeen i with
    | none => none
    | some (id, seq, sys') =>
      match sys'.server.sessions id with
      | none => some sys'
      | some session =>
        let marked := session.markEventsSeen seq
        if marked.2 then
          some ((sys'.setSession id marked.1).broadcast (fun j => j = i || behind j)
            (.seen id seq))
        else some sys'
  | .markEventSeen i id event =>
    if event ∈ (sys.tabs i).events id then some (sys.mark i id event) else none
  | .markSessionRead i id =>
    match ((sys.tabs i).events id).getLast? with
    | none => none
    | some event => some (sys.mark i id event)
  | .close i =>
    match (sys.tabs i).link with
    | none => none
    | some _ => some (sys.setTab i { sys.tabs i with link := none })
  | .restart => some { sys with server := ⟨sys.server.boot + 1, fun _ => none⟩ }

/-! ## What a tab must not hide -/

/-- A tab has marked the event `k` of a session, or a later one, as emitted by the running
process. -/
def Marked (sys : Sys) (id k : ℕ) : Prop :=
  ∃ m ∈ sys.marks, m.1 = id ∧ m.2.boot = sys.server.boot ∧ k ≤ m.2.seq

/-- A cursor that hides marked events only. -/
def Covered (sys : Sys) (id k : ℕ) : Prop := k = 0 ∨ Marked sys id k

/-- The running process tracks the session. -/
def Tracked (sys : Sys) (id : ℕ) : Prop := (sys.server.sessions id).isSome

/-- An event of the running process that a connected tab was sent and nobody marked counts as
unread in that tab. -/
def Unread (sys : Sys) : Prop :=
  ∀ i id event, (sys.tabs i).connectedTo sys.server.boot → (id, event) ∈ (sys.tabs i).received →
    event.boot = sys.server.boot → ¬ Marked sys id event.seq →
    (sys.tabs i).lastSeenSeq id < event.seq

/-- A tab marks an event of the running process, or one that hides nothing new, or is not
connected, or the session is not tracked. -/
def MarkGuarded (sys : Sys) (i id : ℕ) (event : Event) : Prop :=
  (sys.tabs i).connectedTo sys.server.boot → Tracked sys id →
    event.boot = sys.server.boot ∨ Covered sys id event.seq

/-- The cursor of the tab hides marked events only, or it is beyond the counter of the session
and the tab holds no unmarked event of the running process. -/
def CursorGuarded (sys : Sys) (tab : Tab) (id : ℕ) (session : Session) : Prop :=
  Covered sys id (tab.lastSeenSeq id) ∨
    session.eventSeq < tab.lastSeenSeq id ∧
      ∀ event, (id, event) ∈ tab.received → event.boot = sys.server.boot →
        Covered sys id event.seq

/-- The steps on which no cursor of an earlier process gets into the running one: a tab that
is connected marks no event of an earlier process beyond its cursor, a session that the process
starts to track has no such cursor in a connected tab, and a tab that connects to the process
again, which it does not see as a restart, has none that the numbers do not give away. -/
def Guarded (sys : Sys) : Label → Prop
  | .markEventSeen i id event => MarkGuarded sys i id event
  | .markSessionRead i id =>
    ∀ event, ((sys.tabs i).events id).getLast? = some event → MarkGuarded sys i id event
  | .track id =>
    ∀ i, (sys.tabs i).connectedTo sys.server.boot →
      Covered sys id ((sys.tabs i).lastSeenSeq id)
  | .connect i _ =>
    (∀ boot, (sys.tabs i).knownBootId = some boot → boot = sys.server.boot) →
      ∀ id session, sys.server.sessions id = some session →
        CursorGuarded sys (sys.tabs i) id session
  | _ => True

/-! ## The invariant -/

/-- A frame that the process `boot` may have sent. -/
def Frame.SentBy (boot : ℕ) : Frame → Prop
  | .cursors bootId _ => bootId = boot
  | .event _ e => e.boot = boot
  | .seen _ _ => True

/-- A frame that moves no cursor beyond what is covered. -/
def Frame.Quiet (boot : ℕ) (live : ℕ → Prop) (cov : ℕ → ℕ → Prop) : Frame → Prop
  | .cursors _ _ => False
  | .event id e => e.boot = boot ∧ 0 < e.seq ∧ live id
  | .seen id seq => cov id seq

section Invariant

variable (boot : ℕ) (live : ℕ → Prop) (cov : ℕ → ℕ → Prop)

/-- What a `cursors` frame on its way to a tab says of a session. -/
structure Entry (tab : Tab) (id : ℕ) (cursor : Cursor) : Prop where
  tracked : live id
  seen : cov id cursor.seen
  own : cov id (tab.lastSeenSeq id) ∨
    (∀ event, (id, event) ∈ tab.received → event.boot = boot → cov id event.seq) ∧
      ((∀ b, tab.knownBootId = some b → b = boot) → cursor.head < tab.lastSeenSeq id)

/-- A tab on a connection to the running process has its `cursors` frame, or it comes next. -/
inductive Phase (tab : Tab) (down : List Frame) : Prop
  | synced (known : tab.knownBootId = some boot)
    (quiet : ∀ frame ∈ down, frame.Quiet boot live cov)
    (cursor : ∀ id, live id → cov id (tab.lastSeenSeq id))
  | pending (cursors : ℕ → Option Cursor) (rest : List Frame)
    (next : down = .cursors boot cursors :: rest)
    (quiet : ∀ frame ∈ rest, frame.Quiet boot live cov)
    (entry : ∀ id cursor, cursors id = some cursor → Entry boot live cov tab id cursor)
    (absent : ∀ id, cursors id = none → live id → cov id (tab.lastSeenSeq id))

/-- A `seen` message on its way to the running process. -/
structure Carried (tab : Tab) (message : ℕ × ℕ) : Prop where
  tracked : live message.1 → cov message.1 message.2
  untracked : ¬ live message.1 → message.2 ≤ tab.lastSeenSeq message.1

/-- What holds of the connection of a tab. -/
structure LinkInv (tab : Tab) (link : Link) : Prop where
  boot_le : link.boot ≤ boot
  sent : ∀ frame ∈ link.down, frame.SentBy link.boot
  dead : link.boot ≠ boot → tab.knownBootId ≠ some boot
  carried : link.boot = boot → ∀ message ∈ link.up, Carried live cov tab message
  phase : link.boot = boot → Phase boot live cov tab link.down

/-- What holds of a tab. -/
structure TabInv (tab : Tab) : Prop where
  received_le : ∀ id event, (id, event) ∈ tab.received → event.boot ≤ boot
  received_own : ∀ id event, (id, event) ∈ tab.received → event.boot = boot →
    live id ∧ 0 < event.seq ∧ tab.knownBootId = some boot
  known_le : ∀ b, tab.knownBootId = some b → b ≤ boot
  link : ∀ link, tab.link = some link → LinkInv boot live cov tab link

/-- What holds of a session of the running process. -/
structure SessionInv (id : ℕ) (session : Session) : Prop where
  cursor : cov id session.lastSeenSeq
  events : ∀ event ∈ session.events, event.boot = boot ∧ 0 < event.seq

end Invariant

/-- What holds in every state of a guarded run. -/
structure Inv (sys : Sys) : Prop where
  session : ∀ id session, sys.server.sessions id = some session →
    SessionInv sys.server.boot (Covered sys) id session
  tab : ∀ i, TabInv sys.server.boot (Tracked sys) (Covered sys) (sys.tabs i)

/-! ## What is covered -/

theorem Covered.of_le {sys : Sys} {id k l : ℕ} (h : Covered sys id l) (hkl : k ≤ l) :
    Covered sys id k := by
  rcases h with rfl | ⟨m, hm, hid, hboot, hl⟩
  · left
    omega
  · right
    exact ⟨m, hm, hid, hboot, hkl.trans hl⟩

theorem Covered.marked {sys : Sys} {id k : ℕ} (h : Covered sys id k) (hk : 0 < k) :
    Marked sys id k := by
  rcases h with rfl | h
  · omega
  · exact h

/-- More marks in the same process cover more. -/
theorem Covered.mono {sys sys' : Sys} {id k : ℕ} (hboot : sys'.server.boot = sys.server.boot)
    (hmarks : ∀ m ∈ sys.marks, m ∈ sys'.marks) (h : Covered sys id k) : Covered sys' id k := by
  rcases h with h | ⟨m, hm, hid, hm', hk⟩
  · left
    exact h
  · right
    exact ⟨m, hmarks m hm, hid, hm'.trans hboot.symm, hk⟩

/-! ## What a tab does keeps its invariant -/

/-- The cursor of a session after a `cursors` frame. -/
theorem Tab.onCursors_lastSeenSeq (tab : Tab) (bootId : ℕ) (cursors : ℕ → Option Cursor)
    (id : ℕ) :
    (tab.onCursors bootId cursors).lastSeenSeq id =
      match cursors id with
      | none => tab.lastSeenSeq id
      | some cursor =>
        if tab.knownBootId.any (· ≠ bootId) then cursor.seen
        else mergeServerCursor (tab.lastSeenSeq id) cursor := by
  rw [Tab.onCursors]
  dsimp only
  split
  · rw [adoptServerCursors]
  · rw [mergeCursorsFrame]

section Tab

variable {boot : ℕ} {live : ℕ → Prop} {cov : ℕ → ℕ → Prop} {tab : Tab}

theorem Frame.Quiet.sentBy {frame : Frame} (h : frame.Quiet boot live cov) :
    frame.SentBy boot := by
  cases frame with
  | cursors bootId cursors => exact h.elim
  | event id event => exact h.1
  | seen id seq => trivial

theorem Frame.Quiet.mono {frame : Frame} {live' : ℕ → Prop} {cov' : ℕ → ℕ → Prop}
    (hlive : ∀ id, live id → live' id) (hcov : ∀ id k, cov id k → cov' id k)
    (h : frame.Quiet boot live cov) : frame.Quiet boot live' cov' := by
  cases frame with
  | cursors bootId cursors => exact h
  | event id event => exact ⟨h.1, h.2.1, hlive id h.2.2⟩
  | seen id seq => exact hcov id seq (show cov id seq from h)

theorem Entry.mono {id : ℕ} {cursor : Cursor} {live' : ℕ → Prop} {cov' : ℕ → ℕ → Prop}
    (hlive : ∀ id, live id → live' id) (hcov : ∀ id k, cov id k → cov' id k)
    (h : Entry boot live cov tab id cursor) : Entry boot live' cov' tab id cursor where
  tracked := hlive id h.tracked
  seen := hcov id _ h.seen
  own := h.own.imp (hcov id _) fun ⟨hev, hhead⟩ =>
    ⟨fun event he hb => hcov id _ (hev event he hb), hhead⟩

/-- The cursor may be raised to a covered number. -/
theorem Entry.raised {tab' : Tab} {id : ℕ} {cursor : Cursor}
    (hknown : tab'.knownBootId = tab.knownBootId) (hreceived : tab'.received = tab.received)
    (hle : tab.lastSeenSeq id ≤ tab'.lastSeenSeq id)
    (hcov : cov id (tab.lastSeenSeq id) → cov id (tab'.lastSeenSeq id))
    (h : Entry boot live cov tab id cursor) : Entry boot live cov tab' id cursor where
  tracked := h.tracked
  seen := h.seen
  own := by
    rw [hknown, hreceived]
    exact h.own.imp hcov fun ⟨hev, hhead⟩ => ⟨hev, fun hk => (hhead hk).trans_le hle⟩

theorem Phase.raised {tab' : Tab} {down : List Frame}
    (hknown : tab'.knownBootId = tab.knownBootId) (hreceived : tab'.received = tab.received)
    (hle : ∀ id, tab.lastSeenSeq id ≤ tab'.lastSeenSeq id)
    (hcov : ∀ id, live id → cov id (tab.lastSeenSeq id) → cov id (tab'.lastSeenSeq id))
    (h : Phase boot live cov tab down) : Phase boot live cov tab' down := by
  cases h with
  | synced known quiet cursor =>
    exact Phase.synced (hknown.trans known) quiet fun id hid => hcov id hid (cursor id hid)
  | pending cursors rest next quiet entry absent =>
    apply Phase.pending cursors rest next quiet
    · intro id cursor hc
      have he := entry id cursor hc
      exact he.raised hknown hreceived (hle id) (hcov id he.tracked)
    · intro id hid ht
      exact hcov id ht (absent id hid ht)

theorem Carried.raised {tab' : Tab} {message : ℕ × ℕ}
    (hle : ∀ id, tab.lastSeenSeq id ≤ tab'.lastSeenSeq id)
    (h : Carried live cov tab message) : Carried live cov tab' message :=
  ⟨h.tracked, fun hid => (h.untracked hid).trans (hle _)⟩

/-- A quiet frame may be sent. -/
theorem Phase.append {down : List Frame} {frame : Frame} (hframe : frame.Quiet boot live cov)
    (h : Phase boot live cov tab down) : Phase boot live cov tab (down ++ [frame]) := by
  have hquiet : ∀ frames : List Frame, (∀ f ∈ frames, f.Quiet boot live cov) →
      ∀ f ∈ frames ++ [frame], f.Quiet boot live cov := by
    intro frames hfs f hf
    rcases List.mem_append.1 hf with hf | hf
    · exact hfs f hf
    · rw [List.mem_singleton] at hf
      rw [hf]
      exact hframe
  cases h with
  | synced known quiet cursor => exact Phase.synced known (hquiet down quiet) cursor
  | pending cursors rest next quiet entry absent =>
    apply Phase.pending cursors (rest ++ [frame]) _ (hquiet rest quiet) entry absent
    rw [next, List.cons_append]

/-- A frame that is not the `cursors` frame comes after it. -/
theorem Phase.tail {down : List Frame} {frame : Frame}
    (h : Phase boot live cov tab (frame :: down)) (hframe : ∀ b f, frame ≠ .cursors b f) :
    tab.knownBootId = some boot ∧ frame.Quiet boot live cov ∧
      (∀ f ∈ down, f.Quiet boot live cov) ∧ ∀ id, live id → cov id (tab.lastSeenSeq id) := by
  cases h with
  | synced known quiet cursor =>
    rw [List.forall_mem_cons] at quiet
    exact ⟨known, quiet.1, quiet.2, cursor⟩
  | pending cursors rest next quiet entry absent =>
    rw [List.cons.injEq] at next
    exact absurd next.1 (hframe boot cursors)

/-- Marks are added. -/
theorem TabInv.mono {cov' : ℕ → ℕ → Prop} (hcov : ∀ id k, cov id k → cov' id k)
    (h : TabInv boot live cov tab) : TabInv boot live cov' tab where
  received_le := h.received_le
  received_own := h.received_own
  known_le := h.known_le
  link := by
    intro link hlink
    have hl := h.link link hlink
    refine ⟨hl.boot_le, hl.sent, hl.dead, ?_, ?_⟩
    · intro hb message hm
      have hc := hl.carried hb message hm
      exact ⟨fun ht => hcov _ _ (hc.tracked ht), hc.untracked⟩
    · intro hb
      cases hl.phase hb with
      | synced known quiet cursor =>
        apply Phase.synced known
        · intro frame hf
          exact (quiet frame hf).mono (fun _ hid => hid) hcov
        · intro id hid
          exact hcov id _ (cursor id hid)
      | pending cursors rest next quiet entry absent =>
        apply Phase.pending cursors rest next
        · intro frame hf
          exact (quiet frame hf).mono (fun _ hid => hid) hcov
        · intro id cursor hc
          exact (entry id cursor hc).mono (fun _ hid => hid) hcov
        · intro id hid ht
          exact hcov id _ (absent id hid ht)

/-- A frame that moves no cursor beyond what is covered may be sent. -/
theorem TabInv.push {frame : Frame} (hframe : frame.Quiet boot live cov)
    (h : TabInv boot live cov tab) : TabInv boot live cov (tab.push boot frame) where
  received_le := h.received_le
  received_own := h.received_own
  known_le := h.known_le
  link := by
    intro link' hlink'
    rw [Tab.push, Option.map_eq_some_iff] at hlink'
    obtain ⟨link, hlink, rfl⟩ := hlink'
    have hl := h.link link hlink
    by_cases hb : link.boot = boot
    · rw [if_pos hb]
      refine ⟨hl.boot_le, ?_, hl.dead, ?_, ?_⟩
      · intro f hf
        rcases List.mem_append.1 hf with hf | hf
        · exact hl.sent f hf
        · rw [List.mem_singleton] at hf
          rw [hf]
          exact hb ▸ hframe.sentBy
      · intro hb message hm
        apply (hl.carried hb message hm).raised
        intro _
        exact le_rfl
      · intro hb
        refine ((hl.phase hb).append hframe).raised ?_ ?_ ?_ ?_
        · rfl
        · rfl
        · exact fun _ => le_rfl
        · exact fun _ _ hc => hc
    · rw [if_neg hb]
      exact ⟨hl.boot_le, hl.sent, hl.dead, fun hlb => absurd hlb hb, fun hlb => absurd hlb hb⟩

/-- The cursors that a tab takes from the frame of the running process are covered. -/
theorem Entry.adopted {cursors : ℕ → Option Cursor} {id : ℕ}
    (entry : ∀ cursor, cursors id = some cursor → Entry boot live cov tab id cursor)
    (absent : cursors id = none → cov id (tab.lastSeenSeq id)) :
    cov id ((tab.onCursors boot cursors).lastSeenSeq id) := by
  rw [Tab.onCursors_lastSeenSeq]
  cases hc : cursors id with
  | none => exact absent hc
  | some cursor =>
    have he := entry cursor hc
    dsimp only
    split
    · exact he.seen
    · next hr =>
      rw [mergeServerCursor]
      split
      · exact he.seen
      · next hhead =>
        have hown : cov id (tab.lastSeenSeq id) := by
          rcases he.own with hown | ⟨-, hown⟩
          · exact hown
          · refine absurd (hown ?_) hhead
            intro b hb
            rw [hb] at hr
            simpa using hr
        rcases max_choice (tab.lastSeenSeq id) cursor.seen with hm | hm
        · rw [hm]
          exact hown
        · rw [hm]
          exact he.seen

theorem le_applyLiveSeen (lastSeenSeq : ℕ → ℕ) (id seq x : ℕ) :
    lastSeenSeq x ≤ applyLiveSeen lastSeenSeq id seq x := by
  rw [applyLiveSeen]
  split
  · exact le_rfl
  · by_cases hx : x = id
    · subst hx
      rw [Function.update_self]
      omega
    · rw [Function.update_of_ne hx]

theorem seq_le_applyLiveSeen (lastSeenSeq : ℕ → ℕ) (id seq : ℕ) :
    seq ≤ applyLiveSeen lastSeenSeq id seq id := by
  rw [applyLiveSeen]
  split
  · assumption
  · rw [Function.update_self]

/-- A cursor that is raised is the old one or the number it was raised to. -/
theorem applyLiveSeen_cov {lastSeenSeq : ℕ → ℕ} {id seq x : ℕ} (hx : cov x (lastSeenSeq x))
    (hseq : x = id → cov id seq) : cov x (applyLiveSeen lastSeenSeq id seq x) := by
  rw [applyLiveSeen]
  split
  · exact hx
  · by_cases hxi : x = id
    · subst hxi
      rw [Function.update_self]
      exact hseq rfl
    · rw [Function.update_of_ne hxi]
      exact hx

/-- A `cursors` frame arrives. -/
theorem TabInv.onCursors {link : Link} {rest : List Frame} {bootId : ℕ}
    {cursors : ℕ → Option Cursor} (hlink : tab.link = some link)
    (hdown : link.down = .cursors bootId cursors :: rest) (h : TabInv boot live cov tab) :
    TabInv boot live cov
      (Tab.onCursors { tab with link := some { link with down := rest } } bootId cursors) := by
  have hl := h.link link hlink
  have hboot : bootId = link.boot := hl.sent (.cursors bootId cursors) (by simp [hdown])
  subst hboot
  refine ⟨h.received_le, ?_, ?_, ?_⟩
  · intro id event he hb
    obtain ⟨hid, hseq, hknown⟩ := h.received_own id event he hb
    refine ⟨hid, hseq, ?_⟩
    by_cases hlb : link.boot = boot
    · exact congrArg some hlb
    · exact absurd hknown (hl.dead hlb)
  · intro b hb
    cases hb
    exact hl.boot_le
  · intro link' hlink'
    cases hlink'
    refine ⟨hl.boot_le, ?_, ?_, ?_, ?_⟩
    · intro f hf
      exact hl.sent f (by rw [hdown]; exact List.mem_cons_of_mem _ hf)
    · intro hlb hk
      exact hlb (Option.some.inj hk)
    · intro hlb message hm
      have hc := hl.carried hlb message hm
      refine ⟨hc.tracked, ?_⟩
      intro hid
      -- the frame does not name a session that is not tracked
      have hnone : cursors message.1 = none := by
        cases hl.phase hlb with
        | synced known quiet cursor =>
          exact (quiet (.cursors link.boot cursors) (by simp [hdown])).elim
        | pending cursors' rest' next quiet entry absent =>
          rw [hdown] at next
          cases next
          cases hcur : cursors message.1 with
          | none => rfl
          | some cursor => exact absurd (entry _ cursor hcur).tracked hid
      rw [Tab.onCursors_lastSeenSeq, hnone]
      exact hc.untracked hid
    · intro hlb
      cases hl.phase hlb with
      | synced known quiet cursor =>
        exact (quiet (.cursors link.boot cursors) (by simp [hdown])).elim
      | pending cursors' rest' next quiet entry absent =>
        rw [hdown] at next
        cases next
        apply Phase.synced (congrArg some hlb) quiet
        intro id hid
        have := Entry.adopted (fun cursor => entry id cursor) (fun hn => absent id hn hid)
        rw [← hlb] at this
        exact this

/-- An event arrives. -/
theorem TabInv.onEvent {link : Link} {rest : List Frame} {id : ℕ} {event : Event}
    (hlink : tab.link = some link) (hdown : link.down = .event id event :: rest)
    (h : TabInv boot live cov tab) :
    TabInv boot live cov
      (Tab.onFrame { tab with link := some { link with down := rest } } (.event id event)) := by
  have hl := h.link link hlink
  have hboot : event.boot = link.boot := hl.sent (.event id event) (by simp [hdown])
  have hphase (hlb : link.boot = boot) :=
    Phase.tail (hdown ▸ hl.phase hlb) (by simp)
  refine ⟨?_, ?_, h.known_le, ?_⟩
  · intro x e he
    rcases List.mem_cons.1 he with he | he
    · cases he
      rw [hboot]
      exact hl.boot_le
    · exact h.received_le x e he
  · intro x e he hb
    rcases List.mem_cons.1 he with he | he
    · cases he
      obtain ⟨known, quiet, -⟩ := hphase (hboot.symm.trans hb)
      exact ⟨quiet.2.2, quiet.2.1, known⟩
    · exact h.received_own x e he hb
  · intro link' hlink'
    cases hlink'
    refine ⟨hl.boot_le, ?_, hl.dead, ?_, ?_⟩
    · intro f hf
      exact hl.sent f (by rw [hdown]; exact List.mem_cons_of_mem _ hf)
    · intro hlb message hm
      refine (hl.carried hlb message hm).raised ?_
      exact fun _ => le_rfl
    · intro hlb
      obtain ⟨known, -, quiet, cursor⟩ := hphase hlb
      exact Phase.synced known quiet cursor

/-- A `seen` frame arrives. -/
theorem TabInv.onSeen {link : Link} {rest : List Frame} {id seq : ℕ}
    (hlink : tab.link = some link) (hdown : link.down = .seen id seq :: rest)
    (h : TabInv boot live cov tab) :
    TabInv boot live cov
      (Tab.onFrame { tab with link := some { link with down := rest } } (.seen id seq)) := by
  have hl := h.link link hlink
  refine ⟨h.received_le, h.received_own, h.known_le, ?_⟩
  intro link' hlink'
  cases hlink'
  refine ⟨hl.boot_le, ?_, hl.dead, ?_, ?_⟩
  · intro f hf
    exact hl.sent f (by rw [hdown]; exact List.mem_cons_of_mem _ hf)
  · intro hlb message hm
    refine (hl.carried hlb message hm).raised ?_
    exact le_applyLiveSeen _ _ _
  · intro hlb
    obtain ⟨known, hseen, quiet, cursor⟩ := Phase.tail (hdown ▸ hl.phase hlb) (by simp)
    refine Phase.synced known quiet ?_
    intro x hx
    exact applyLiveSeen_cov (cursor x hx) fun _ => hseen

theorem TabInv.deliver {link : Link} {frame : Frame} {rest : List Frame}
    (hlink : tab.link = some link) (hdown : link.down = frame :: rest)
    (h : TabInv boot live cov tab) :
    TabInv boot live cov
      (Tab.onFrame { tab with link := some { link with down := rest } } frame) := by
  cases frame with
  | cursors bootId cursors => exact h.onCursors hlink hdown
  | event id event => exact h.onEvent hlink hdown
  | seen id seq => exact h.onSeen hlink hdown

/-- The tab marks an event that is covered, or that the process would not take. -/
theorem TabInv.markEventSeen {id seq : ℕ}
    (hcov : tab.connectedTo boot → live id → cov id seq) (h : TabInv boot live cov tab) :
    TabInv boot live cov (tab.markEventSeen id seq) where
  received_le := h.received_le
  received_own := h.received_own
  known_le := h.known_le
  link := by
    intro link' hlink'
    rw [Tab.markEventSeen, Option.map_eq_some_iff] at hlink'
    obtain ⟨link, hlink, rfl⟩ := hlink'
    have hl := h.link link hlink
    refine ⟨hl.boot_le, hl.sent, hl.dead, ?_, ?_⟩
    · intro hlb message hm
      rcases List.mem_append.1 hm with hm | hm
      · refine (hl.carried hlb message hm).raised ?_
        exact le_applyLiveSeen _ _ _
      · rw [List.mem_singleton] at hm
        subst hm
        exact ⟨hcov ⟨link, hlink, hlb⟩, fun _ => seq_le_applyLiveSeen _ _ _⟩
    · intro hlb
      refine (hl.phase hlb).raised ?_ ?_ ?_ ?_
      · rfl
      · rfl
      · exact le_applyLiveSeen _ _ _
      · intro x hx hown
        apply applyLiveSeen_cov hown
        rintro rfl
        exact hcov ⟨link, hlink, hlb⟩ hx

/-- A `seen` message of the tab is taken. -/
theorem TabInv.takeSeen {link : Link} {message : ℕ × ℕ} {rest : List (ℕ × ℕ)}
    (hlink : tab.link = some link) (hup : link.up = message :: rest)
    (h : TabInv boot live cov tab) :
    TabInv boot live cov { tab with link := some { link with up := rest } } where
  received_le := h.received_le
  received_own := h.received_own
  known_le := h.known_le
  link := by
    intro link' hlink'
    cases hlink'
    have hl := h.link link hlink
    refine ⟨hl.boot_le, hl.sent, hl.dead, ?_, ?_⟩
    · intro hlb m hm
      have hmem : m ∈ link.up := by
        rw [hup]
        exact List.mem_cons_of_mem _ hm
      refine (hl.carried hlb m hmem).raised ?_
      exact fun _ => le_rfl
    · intro hlb
      refine (hl.phase hlb).raised ?_ ?_ ?_ ?_
      · rfl
      · rfl
      · exact fun _ => le_rfl
      · exact fun _ _ hc => hc

/-- The process starts to track a session of which a connected tab has a covered cursor. -/
theorem TabInv.track {id : ℕ} {live' : ℕ → Prop} (hlive : ∀ x, live x → live' x)
    (hnew : ∀ x, live' x → live x ∨ x = id) (hle : ∀ x k l, cov x l → k ≤ l → cov x k)
    (hcov : tab.connectedTo boot → cov id (tab.lastSeenSeq id)) (h : TabInv boot live cov tab) :
    TabInv boot live' cov tab where
  received_le := h.received_le
  received_own := by
    intro x event he hb
    obtain ⟨hx, hseq, hknown⟩ := h.received_own x event he hb
    exact ⟨hlive x hx, hseq, hknown⟩
  known_le := h.known_le
  link := by
    intro link hlink
    have hl := h.link link hlink
    refine ⟨hl.boot_le, hl.sent, hl.dead, ?_, ?_⟩
    · intro hlb message hm
      have hc := hl.carried hlb message hm
      refine ⟨?_, fun hid => hc.untracked fun hx => hid (hlive _ hx)⟩
      intro hid
      by_cases hx : live message.1
      · exact hc.tracked hx
      · have hm1 := (hnew _ hid).resolve_left hx
        have hseen := hc.untracked hx
        rw [hm1] at hseen ⊢
        exact hle _ _ _ (hcov ⟨link, hlink, hlb⟩) hseen
    · intro hlb
      have hid := hcov ⟨link, hlink, hlb⟩
      cases hl.phase hlb with
      | synced known quiet cursor =>
        apply Phase.synced known
        · intro f hf
          exact (quiet f hf).mono hlive fun _ _ hc => hc
        · intro x hx
          rcases hnew x hx with hx | rfl
          · exact cursor x hx
          · exact hid
      | pending cursors rest next quiet entry absent =>
        apply Phase.pending cursors rest next
        · intro f hf
          exact (quiet f hf).mono hlive fun _ _ hc => hc
        · intro x cursor hx
          exact (entry x cursor hx).mono hlive fun _ _ hc => hc
        · intro x hx ht
          rcases hnew x ht with ht | rfl
          · exact absent x hx ht
          · exact hid

theorem TabInv.close (h : TabInv boot live cov tab) :
    TabInv boot live cov { tab with link := none } :=
  ⟨h.received_le, h.received_own, h.known_le, fun _ hlink => by cases hlink⟩

/-- The tab connects: the frame names every tracked session. -/
theorem TabInv.connect {cursors : ℕ → Option Cursor} {replay : List Frame}
    (hquiet : ∀ frame ∈ replay, frame.Quiet boot live cov)
    (hentry : ∀ id cursor, cursors id = some cursor → Entry boot live cov tab id cursor)
    (habsent : ∀ id, cursors id = none → ¬ live id) (h : TabInv boot live cov tab) :
    TabInv boot live cov
      { tab with link := some ⟨boot, .cursors boot cursors :: replay, []⟩ } where
  received_le := h.received_le
  received_own := h.received_own
  known_le := h.known_le
  link := by
    intro link hlink
    cases hlink
    refine ⟨le_rfl, ?_, fun hb => absurd rfl hb, ?_, ?_⟩
    · intro f hf
      rcases List.mem_cons.1 hf with rfl | hf
      · exact rfl
      · exact (hquiet f hf).sentBy
    · intro _ message hm
      cases hm
    · intro _
      apply Phase.pending cursors replay rfl hquiet
      · intro x cursor hc
        refine (hentry x cursor hc).raised ?_ ?_ ?_ ?_
        · rfl
        · rfl
        · exact le_rfl
        · exact fun hown => hown
      · intro id hid ht
        exact absurd ht (habsent id hid)

/-- To the next process every tab is a tab of an earlier one. -/
theorem TabInv.restart {live' : ℕ → Prop} {cov' : ℕ → ℕ → Prop} (h : TabInv boot live cov tab) :
    TabInv (boot + 1) live' cov' tab where
  received_le id event he := (h.received_le id event he).trans (Nat.le_succ boot)
  received_own := by
    intro id event he hb
    have := h.received_le id event he
    omega
  known_le b hb := (h.known_le b hb).trans (Nat.le_succ boot)
  link := by
    intro link hlink
    have hl := h.link link hlink
    have hlt : link.boot ≠ boot + 1 := by
      have := hl.boot_le
      omega
    refine ⟨hl.boot_le.trans (Nat.le_succ boot), hl.sent, ?_, ?_, ?_⟩
    · intro _ hk
      have := h.known_le _ hk
      omega
    · intro hb
      exact absurd hb hlt
    · intro hb
      exact absurd hb hlt

/-- What the invariant is for. -/
theorem TabInv.covered (h : TabInv boot live cov tab) {id : ℕ} {event : Event}
    (hconn : tab.connectedTo boot) (he : (id, event) ∈ tab.received) (hb : event.boot = boot) :
    0 < event.seq ∧ (cov id event.seq ∨ cov id (tab.lastSeenSeq id)) := by
  obtain ⟨hid, hseq, -⟩ := h.received_own id event he hb
  refine ⟨hseq, ?_⟩
  obtain ⟨link, hlink, hlb⟩ := hconn
  cases (h.link link hlink).phase hlb with
  | synced known quiet cursor => exact Or.inr (cursor id hid)
  | pending cursors rest next quiet entry absent =>
    cases hc : cursors id with
    | none => exact Or.inr (absent id hc hid)
    | some cursor =>
      rcases (entry id cursor hc).own with hown | ⟨hev, -⟩
      · exact Or.inr hown
      · exact Or.inl (hev event he hb)

end Tab

/-! ## What a step keeps -/

namespace Inv

variable {sys sys' : Sys}

theorem setTab {i : ℕ} {tab : Tab}
    (htab : TabInv sys.server.boot (Tracked sys) (Covered sys) tab) (h : Inv sys) :
    Inv (sys.setTab i tab) where
  session := h.session
  tab := by
    intro j
    by_cases hj : j = i
    · subst hj
      have hsame : (sys.setTab j tab).tabs j = tab := Function.update_self ..
      rw [hsame]
      exact htab
    · have hsame : (sys.setTab i tab).tabs j = sys.tabs j := Function.update_of_ne hj ..
      rw [hsame]
      exact h.tab j

theorem broadcast {skip : ℕ → Bool} {frame : Frame}
    (hframe : frame.Quiet sys.server.boot (Tracked sys) (Covered sys)) (h : Inv sys) :
    Inv (sys.broadcast skip frame) where
  session := h.session
  tab := by
    intro i
    rw [Sys.broadcast]
    dsimp only
    split
    · exact h.tab i
    · exact (h.tab i).push hframe

/-- A tracked session changes. -/
theorem setSession {id : ℕ} {old session : Session} (hold : sys.server.sessions id = some old)
    (hsession : SessionInv sys.server.boot (Covered sys) id session) (h : Inv sys) :
    Inv (sys.setSession id session) where
  session := by
    intro x s hs
    by_cases hx : x = id
    · subst hx
      simp only [Sys.setSession, Function.update_self, Option.some.injEq] at hs
      subst hs
      exact hsession
    · simp only [Sys.setSession, Function.update_of_ne hx] at hs
      exact h.session x s hs
  tab := by
    intro i
    have hlive : Tracked (sys.setSession id session) = Tracked sys := by
      funext x
      by_cases hx : x = id
      · subst hx
        simp [Tracked, Sys.setSession, hold]
      · simp [Tracked, Sys.setSession, hx]
    rw [hlive]
    exact h.tab i

theorem track {id : ℕ} (hg : Guarded sys (.track id)) (h : Inv sys) :
    Inv (sys.setSession id {}) where
  session := by
    intro x s hs
    by_cases hx : x = id
    · subst hx
      simp only [Sys.setSession, Function.update_self, Option.some.injEq] at hs
      subst hs
      exact ⟨Or.inl rfl, by simp⟩
    · simp only [Sys.setSession, Function.update_of_ne hx] at hs
      exact h.session x s hs
  tab := by
    intro i
    apply (h.tab i).track _ _ _ (hg i)
    · intro x hx
      by_cases hxi : x = id
      · subst hxi
        simp [Tracked, Sys.setSession]
      · simpa [Tracked, Sys.setSession, hxi] using hx
    · intro x hx
      by_cases hxi : x = id
      · exact Or.inr hxi
      · left
        simpa [Tracked, Sys.setSession, hxi] using hx
    · intro x k l hl hkl
      exact hl.of_le hkl

theorem emit {id : ℕ} {ts : ℤ} {behind : ℕ → Bool} {session : Session}
    (hold : sys.server.sessions id = some session) (h : Inv sys) :
    Inv ((sys.setSession id (session.emitEvent sys.server.boot ts).1).broadcast behind
      (.event id (session.emitEvent sys.server.boot ts).2)) := by
  have hs := h.session id session hold
  apply Inv.broadcast
  · refine ⟨rfl, Nat.succ_pos _, ?_⟩
    simp [Tracked, Sys.setSession]
  · refine h.setSession hold ⟨hs.cursor, ?_⟩
    intro event he
    have hmem : event ∈ session.events ++ [⟨sys.server.boot, session.eventSeq + 1, ts⟩] := by
      simp only [Session.emitEvent] at he
      split at he
      · exact List.mem_of_mem_tail he
      · exact he
    rcases List.mem_append.1 hmem with hmem | hmem
    · exact hs.events event hmem
    · rw [List.mem_singleton] at hmem
      subst hmem
      exact ⟨rfl, Nat.succ_pos _⟩

theorem connect {i : ℕ} {replay : List (ℕ × Event)} (hg : Guarded sys (.connect i replay))
    (hreplay : replay.all sys.server.buffers) (h : Inv sys) :
    Inv (sys.setTab i { sys.tabs i with
      link := some ⟨sys.server.boot, .cursors sys.server.boot sys.server.listCursors ::
        replay.map fun entry => .event entry.1 entry.2, []⟩ }) := by
  apply h.setTab
  apply (h.tab i).connect
  · intro frame hf
    obtain ⟨⟨id, event⟩, hentry, rfl⟩ := List.mem_map.1 hf
    have hbuf := List.all_eq_true.1 hreplay _ hentry
    rw [Server.buffers, Option.any_eq_true] at hbuf
    obtain ⟨session, hs, he⟩ := hbuf
    have hev := (h.session id session hs).events event (by simpa using he)
    refine ⟨hev.1, hev.2, ?_⟩
    exact Option.isSome_iff_exists.2 ⟨session, hs⟩
  · intro id cursor hc
    rw [Server.listCursors, Option.map_eq_some_iff] at hc
    obtain ⟨session, hs, rfl⟩ := hc
    refine ⟨Option.isSome_iff_exists.2 ⟨session, hs⟩, (h.session id session hs).cursor, ?_⟩
    by_cases hk : ∀ boot, (sys.tabs i).knownBootId = some boot → boot = sys.server.boot
    · rcases hg hk id session hs with hown | ⟨hhead, hev⟩
      · exact Or.inl hown
      · exact Or.inr ⟨hev, fun _ => hhead⟩
    · right
      refine ⟨?_, fun hk' => absurd hk' hk⟩
      intro event he hb
      obtain ⟨-, -, hknown⟩ := (h.tab i).received_own id event he hb
      refine absurd ?_ hk
      intro b hb
      rw [hknown] at hb
      exact (Option.some.inj hb).symm
  · intro id hc ht
    rw [Server.listCursors, Option.map_eq_none_iff] at hc
    rw [Tracked, hc] at ht
    exact absurd ht (by simp)

theorem mark {i id : ℕ} {event : Event} (hg : MarkGuarded sys i id event) (h : Inv sys) :
    Inv (sys.mark i id event) := by
  have hcov : ∀ x k, Covered sys x k → Covered (sys.mark i id event) x k := by
    intro x k hk
    refine hk.mono ?_ ?_
    · rfl
    · exact fun m hm => List.mem_cons_of_mem _ hm
  constructor
  · intro x s hs
    have hx := h.session x s hs
    exact ⟨hcov x _ hx.cursor, hx.events⟩
  · intro j
    have hj := (h.tab j).mono hcov
    by_cases hji : j = i
    · subst hji
      have htab : (sys.mark j id event).tabs j = (sys.tabs j).markEventSeen id event.seq := by
        simp [Sys.mark, Sys.setTab]
      rw [htab]
      apply hj.markEventSeen
      intro hconn hid
      rcases hg hconn hid with hb | hk
      · right
        exact ⟨(id, event), List.mem_cons_self, rfl, hb, le_rfl⟩
      · exact hcov id _ hk
    · have htab : (sys.mark i id event).tabs j = sys.tabs j := by
        simp [Sys.mark, Sys.setTab, hji]
      rw [htab]
      exact hj

/-- The next `seen` message of a tab leaves it. -/
theorem takeSeen {i id seq : ℕ} (ht : sys.takeSeen i = some (id, seq, sys')) (h : Inv sys) :
    Inv sys' ∧ (Tracked sys' id → Covered sys' id seq) := by
  rw [Sys.takeSeen] at ht
  split at ht
  · cases ht
  · next link hlink =>
    split at ht
    · cases ht
    · next x k rest hup =>
      split at ht
      · next hb =>
        cases ht
        refine ⟨h.setTab ((h.tab i).takeSeen hlink hup), ?_⟩
        intro hid
        have hc := ((h.tab i).link link hlink).carried hb (id, seq) (by simp [hup])
        exact hc.tracked hid
      · cases ht

theorem receive {i : ℕ} {behind : ℕ → Bool}
    (hs : step sys (.receive i behind) = some sys') (h : Inv sys) : Inv sys' := by
  rw [step] at hs
  split at hs
  · cases hs
  · next id seq taken ht =>
    obtain ⟨hI, hcov⟩ := h.takeSeen ht
    split at hs
    · cases hs
      exact hI
    · next session hsession =>
      have hseq := hcov (Option.isSome_iff_exists.2 ⟨session, hsession⟩)
      dsimp only at hs
      split at hs
      · cases hs
        apply Inv.broadcast
        · exact hseq
        · apply hI.setSession hsession
          refine ⟨?_, ?_⟩
          · rw [Session.markEventsSeen]
            split
            · exact hseq
            · exact (hI.session id session hsession).cursor
          · rw [Session.markEventsSeen]
            split
            · exact (hI.session id session hsession).events
            · exact (hI.session id session hsession).events
      · cases hs
        exact hI

theorem restart (h : Inv sys) :
    Inv { sys with server := ⟨sys.server.boot + 1, fun _ => none⟩ } := by
  constructor
  · intro id session hs
    cases hs
  · intro i
    exact (h.tab i).restart

end Inv

/-- A guarded step keeps the invariant. -/
theorem Inv.step {sys sys' : Sys} {label : Label} (h : Inv sys) (hg : Guarded sys label)
    (hs : step sys label = some sys') : Inv sys' := by
  cases label with
  | track id =>
    rw [ReadCursor.step] at hs
    split at hs
    · cases hs
    · cases hs
      exact h.track hg
  | emit id ts behind =>
    rw [ReadCursor.step] at hs
    split at hs
    · cases hs
    · next session hold =>
      cases hs
      exact h.emit hold
  | connect i replay =>
    rw [ReadCursor.step] at hs
    split at hs
    · cases hs
    · split at hs
      · next hreplay =>
        cases hs
        exact h.connect hg hreplay
      · cases hs
  | deliver i =>
    rw [ReadCursor.step] at hs
    split at hs
    · cases hs
    · next link hlink =>
      split at hs
      · cases hs
      · next frame rest hdown =>
        cases hs
        exact h.setTab ((h.tab i).deliver hlink hdown)
  | receive i behind => exact h.receive hs
  | markEventSeen i id event =>
    rw [ReadCursor.step] at hs
    split at hs
    · cases hs
      exact h.mark hg
    · cases hs
  | markSessionRead i id =>
    rw [ReadCursor.step] at hs
    split at hs
    · cases hs
    · next event hlast =>
      cases hs
      exact h.mark (hg event hlast)
  | close i =>
    rw [ReadCursor.step] at hs
    split at hs
    · cases hs
    · cases hs
      exact h.setTab (h.tab i).close
  | restart =>
    cases hs
    exact h.restart

/-- Under the invariant no tab hides an event. -/
theorem Inv.unread {sys : Sys} (h : Inv sys) : Unread sys := by
  intro i id event hconn he hb hmarked
  obtain ⟨hseq, hcov⟩ := (h.tab i).covered hconn he hb
  rcases hcov with hcov | hcov
  · exact absurd (hcov.marked hseq) hmarked
  · by_contra hle
    exact hmarked ((hcov.of_le (not_lt.1 hle)).marked hseq)

/-- A process that tracks no session, and tabs that were never connected. -/
theorem Inv.start : Inv {} where
  session := by
    intro id session hs
    cases hs
  tab := by
    intro i
    refine ⟨?_, ?_, ?_, ?_⟩
    · intro id event he
      cases he
    · intro id event he
      cases he
    · intro b hb
      cases hb
    · intro link hlink
      cases hlink

/-! ## When no new event is hidden -/

/-- As long as no cursor of an earlier process gets into the running one, a tab shows every
event of the running process that nobody marked as unread. -/
theorem unread_of_guarded {labels : List Label} (h : Run.Meets step Guarded {} labels) :
    Run.Along step Unread {} labels :=
  Run.along_of_invariant (fun _ _ _ hI hg hs => hI.step hg hs) (fun _ hI => hI.unread)
    Inv.start h

/-- The new process tracks a session only after the tab is back. -/
def lateTracking : List Label :=
  [.track 1, .connect 0 [], .deliver 0, .emit 1 0 (fun _ => false), .deliver 0,
    .markSessionRead 0 1, .restart, .close 0, .connect 0 [], .deliver 0, .track 1,
    .emit 1 1 (fun _ => false), .deliver 0]

/-- The first event of the new process has the number that was read in the old one. -/
theorem late_session_hides_event : ¬ Run.Along step Unread {} lateTracking := by
  intro h
  have hcursor : (Run.play step {} lateTracking).map (fun sys =>
      ((sys.tabs 0).link.map Link.boot, sys.server.boot, (sys.tabs 0).lastSeenSeq 1)) =
      some (some 1, 1, 1) := by
    decide +kernel
  have hevents : (Run.play step {} lateTracking).map (fun sys =>
      ((sys.tabs 0).received, sys.marks)) =
      some ([(1, ⟨1, 1, 1⟩), (1, ⟨0, 1, 0⟩)], [(1, ⟨0, 1, 0⟩)]) := by
    decide +kernel
  obtain ⟨sys, hsys, hlast⟩ := Option.map_eq_some_iff.1 hcursor
  rw [hsys] at hevents
  simp only [Option.map_some, Option.some.injEq, Prod.mk.injEq] at hlast hevents
  obtain ⟨hlink, hboot, hseen⟩ := hlast
  obtain ⟨hreceived, hmarks⟩ := hevents
  have hnew := h.last hsys 0 1 ⟨1, 1, 1⟩ ?_ ?_ hboot.symm ?_
  · rw [hseen] at hnew
    exact absurd hnew (lt_irrefl 1)
  · obtain ⟨link, hl, hb⟩ := Option.map_eq_some_iff.1 hlink
    exact ⟨link, hl, hb.trans hboot.symm⟩
  · simp [hreceived]
  · rintro ⟨m, hm, -, hb, -⟩
    rw [hmarks, List.mem_singleton] at hm
    rw [hm, hboot] at hb
    cases hb

/-- A tab that has read a session, by its last event. -/
theorem step_markSessionRead {sys : Sys} {i id : ℕ} {event : Event}
    (h : ((sys.tabs i).events id).getLast? = some event) :
    step sys (.markSessionRead i id) = some (sys.mark i id event) := by
  rw [step, h]

set_option maxRecDepth 8000 in
/-- The new process tracks the session before the tab is back. -/
theorem early_session_shows_event :
    Run.Along step Unread {} [.track 1, .connect 0 [], .deliver 0, .emit 1 0 (fun _ => false),
      .deliver 0, .markSessionRead 0 1, .close 0, .restart, .track 1, .connect 0 [], .deliver 0,
      .emit 1 1 (fun _ => false), .deliver 0] := by
  apply unread_of_guarded
  apply Run.Meets.cons rfl
  · rintro i ⟨link, hlink, -⟩
    cases hlink
  apply Run.Meets.cons rfl
  · intro _ id session _
    exact Or.inl (Or.inl rfl)
  apply Run.Meets.cons rfl trivial
  apply Run.Meets.cons rfl trivial
  apply Run.Meets.cons rfl trivial
  refine Run.Meets.cons (@step_markSessionRead _ 0 1 ⟨0, 1, 0⟩ (by decide +kernel)) ?_ ?_
  · intro event hevent _ _
    have hread : some event = some ⟨0, 1, 0⟩ := hevent.symm.trans (by decide +kernel)
    cases hread
    exact Or.inl rfl
  apply Run.Meets.cons rfl trivial
  apply Run.Meets.cons rfl trivial
  apply Run.Meets.cons rfl
  · rintro i ⟨link, hlink, -⟩
    cases i with
    | zero => cases hlink
    | succ n => cases hlink
  apply Run.Meets.cons rfl
  · intro hk
    exact absurd (hk 0 rfl) (by decide)
  apply Run.Meets.cons rfl trivial
  apply Run.Meets.cons rfl trivial
  apply Run.Meets.cons rfl trivial
  trivial

end ReadCursor
end Mullion
