import Mullion.Lib.Run
import Mullion.Terminal.Attach

/-!
# No silent gap in a terminal stream

After the attachment and after every resync, what a browser reads is the replay that was announced
and then the chunks the session emitted from there on, with nothing left out; once a chunk was left
out there is no more output before the next resync. `NoSilentGap` says that of a list of items.

It is checked by a reader that goes over the items one by one and knows at any point whether the
stream goes on from the chunk `next` or is lost (`walk`); a stream the reader gets through has no
silent gap (`noSilentGap_of_walk`), and neither has a part of it from its beginning. What is left is
to follow the reader. For a direct attachment it is at the newest chunk while the socket is open,
or it is lost exactly while the attachment is dirty (`Attachment.Inv`). For a remote one there are
two sockets and a proxy between them, and while the proxy is live the reader of the browser's socket
is where the reader of the agent's items is (`Remote.Inv`). Each handler sends some items, and each
of these keeps the reader in step (`Follows.send`, `Follows.skip`). `no_silent_gap` is the result
along every run, direct or remote, for whatever part of the items has reached the browser.
-/

namespace Mullion
namespace Terminal

open StartupQuery (TerminalPalette)

/-! ## The property -/

/-- The binary frames of a replay and of the output after it. -/
def Mark.expected (emitted : List (List UInt8)) (m : Mark) : List (List UInt8) :=
  (if m.snapshot = [] then [] else [m.snapshot]) ++ emitted.drop m.emitted

/-- The binary frames among the items. -/
def binaries : List Item → List (List UInt8)
  | [] => []
  | .binary bytes :: rest => bytes :: binaries rest
  | .resync _ :: rest => binaries rest
  | .control _ :: rest => binaries rest
  | .skipped :: rest => binaries rest

/-- No resync among the items. -/
def Unbroken (items : List Item) : Prop := ∀ m, Item.resync m ∉ items

/-- `stretch` comes right after the attachment, or right after the resync of `m`, and has no
resync in it. -/
def ComesAfter (start m : Mark) (items stretch : List Item) : Prop :=
  Unbroken stretch ∧
    (m = start ∧ stretch <+: items ∨ ∃ before, before ++ Item.resync m :: stretch <+: items)

/-- After the attachment and after every resync the binary frames are the first of those
expected, in order; and none comes after a chunk that was not sent. -/
def NoSilentGap (emitted : List (List UInt8)) (start : Mark) (items : List Item) : Prop :=
  ∀ m stretch, ComesAfter start m items stretch →
    binaries stretch <+: m.expected emitted ∧
      ∀ before after, stretch = before ++ Item.skipped :: after → binaries after = []

/-- What has no silent gap has none in any part that has arrived. -/
theorem NoSilentGap.arrived {emitted : List (List UInt8)} {start : Mark}
    {items received : List Item} (h : NoSilentGap emitted start items)
    (hp : received <+: items) : NoSilentGap emitted start received := by
  rintro m stretch ⟨hunbroken, hafter⟩
  refine h m stretch ⟨hunbroken, hafter.imp ?_ ?_⟩
  · rintro ⟨hm, hs⟩
    exact ⟨hm, hs.trans hp⟩
  · rintro ⟨before, hs⟩
    exact ⟨before, hs.trans hp⟩

/-! ## A reader -/

/-- Where a reader of the stream is: before the snapshot that is still to come, if any, and
the chunk `next`; or lost. -/
inductive Cursor
  | following (pending : Option (List UInt8)) (next : Nat)
  | lost
  deriving DecidableEq, Repr

/-- Where a reader is after a resync. -/
def Mark.cursor (m : Mark) : Cursor :=
  .following (if m.snapshot = [] then none else some m.snapshot) m.emitted

/-- The reader takes a binary frame; `none` is a silent gap. -/
def Cursor.readBinary (emitted : List (List UInt8)) : Cursor → List UInt8 → Option Cursor
  | .following (some snapshot) n, bytes =>
    if bytes = snapshot then some (.following none n) else none
  | .following none n, bytes =>
    if emitted[n]? = some bytes then some (.following none (n + 1)) else none
  | .lost, _ => none

/-- The reader takes one item. -/
def Cursor.read (emitted : List (List UInt8)) (c : Cursor) : Item → Option Cursor
  | .binary bytes => c.readBinary emitted bytes
  | .resync m => some m.cursor
  | .control _ => some c
  | .skipped => some .lost

/-- The reader takes the items one by one. -/
def walk (emitted : List (List UInt8)) : Cursor → List Item → Option Cursor
  | c, [] => some c
  | c, item :: rest => (c.read emitted item).bind fun c' => walk emitted c' rest

variable {emitted : List (List UInt8)} {start : Mark}

theorem walk_append (c : Cursor) (v w : List Item) :
    walk emitted c (v ++ w) = (walk emitted c v).bind fun c' => walk emitted c' w := by
  induction v generalizing c with
  | nil => rfl
  | cons item v ih =>
    rw [List.cons_append, walk, walk, Option.bind_assoc]
    congr 1
    funext c'
    exact ih c'

theorem walk_concat {c c' : Cursor} {items : List Item} (h : walk emitted c items = some c')
    (item : Item) : walk emitted c (items ++ [item]) = c'.read emitted item := by
  rw [walk_append, h, Option.bind_some, walk]
  cases c'.read emitted item <;> rfl

/-- A resync takes the reader to its mark. -/
theorem walk_resync {c c' : Cursor} {items : List Item} {mark : Mark}
    (h : walk emitted c (items ++ [.resync mark]) = some c') : c' = mark.cursor := by
  rw [walk_append] at h
  obtain ⟨c₀, -, hc⟩ := Option.bind_eq_some_iff.1 h
  exact (Option.some.inj hc).symm

/-- A reader that gets through has got through every part. -/
theorem walk_prefix {c c' : Cursor} {v w : List Item} (hp : v <+: w)
    (h : walk emitted c w = some c') : ∃ c₀, walk emitted c v = some c₀ := by
  obtain ⟨rest, rfl⟩ := hp
  rw [walk_append] at h
  obtain ⟨c₀, hc₀, -⟩ := Option.bind_eq_some_iff.1 h
  exact ⟨c₀, hc₀⟩

/-- More output changes nothing for the reader. -/
theorem read_grow {c c' : Cursor} {item : Item} (h : c.read emitted item = some c')
    (more : List (List UInt8)) : c.read (emitted ++ more) item = some c' := by
  cases item with
  | binary bytes =>
    cases c with
    | lost => exact h
    | following pending n =>
      cases pending with
      | some snapshot => exact h
      | none =>
        rw [Cursor.read, Cursor.readBinary] at h ⊢
        split_ifs at h with hn
        obtain ⟨hlt, -⟩ := List.getElem?_eq_some_iff.1 hn
        rw [List.getElem?_append_left hlt, if_pos hn]
        exact h
  | resync m => exact h
  | control message => exact h
  | skipped => exact h

theorem walk_grow {c c' : Cursor} {items : List Item} (h : walk emitted c items = some c')
    (more : List (List UInt8)) : walk (emitted ++ more) c items = some c' := by
  induction items generalizing c with
  | nil => exact h
  | cons item rest ih =>
    rw [walk] at h ⊢
    obtain ⟨c₁, hread, hrest⟩ := Option.bind_eq_some_iff.1 h
    rw [read_grow hread more, Option.bind_some]
    exact ih hrest

/-! ## What the reader checks -/

theorem Unbroken.tail {item : Item} {items : List Item} (h : Unbroken (item :: items)) :
    Unbroken items := fun m hm => h m (List.mem_cons_of_mem item hm)

/-- A lost reader sees no more output before a resync. -/
theorem binaries_of_lost {items : List Item} {c : Cursor} (hu : Unbroken items)
    (h : walk emitted .lost items = some c) : binaries items = [] := by
  induction items with
  | nil => rfl
  | cons item rest ih =>
    cases item with
    | binary bytes => cases h
    | resync m => exact absurd List.mem_cons_self (hu m)
    | control message => exact ih hu.tail h
    | skipped => exact ih hu.tail h

/-- A reader that follows sees the first of what it expects. -/
theorem binaries_of_following {items : List Item} {c : Cursor} {pending : Option (List UInt8)}
    {n : Nat} (hu : Unbroken items) (h : walk emitted (.following pending n) items = some c) :
    binaries items <+: pending.toList ++ emitted.drop n := by
  induction items generalizing pending n with
  | nil => exact List.nil_prefix
  | cons item rest ih =>
    cases item with
    | resync m => exact absurd List.mem_cons_self (hu m)
    | control message => exact ih hu.tail h
    | skipped =>
      rw [binaries, binaries_of_lost hu.tail h]
      exact List.nil_prefix
    | binary bytes =>
      obtain ⟨c₁, hread, hrest⟩ := Option.bind_eq_some_iff.1 h
      rw [binaries]
      cases pending with
      | some snapshot =>
        rw [Cursor.read, Cursor.readBinary] at hread
        split_ifs at hread with hb
        cases hread
        rw [hb, Option.toList_some, List.singleton_append]
        exact (List.prefix_cons_inj snapshot).2 (ih hu.tail hrest)
      | none =>
        rw [Cursor.read, Cursor.readBinary] at hread
        split_ifs at hread with hb
        cases hread
        obtain ⟨hlt, hget⟩ := List.getElem?_eq_some_iff.1 hb
        rw [Option.toList_none, List.nil_append, List.drop_eq_getElem_cons hlt, hget]
        exact (List.prefix_cons_inj bytes).2 (ih hu.tail hrest)

/-- **The reader is enough.** A stream it gets through has no silent gap. -/
theorem noSilentGap_of_walk {items : List Item} {c : Cursor}
    (h : walk emitted start.cursor items = some c) : NoSilentGap emitted start items := by
  rintro m stretch ⟨hu, hafter⟩
  -- wherever the stretch begins, the reader is at the cursor of its mark
  have hwalk : ∃ c₀, walk emitted m.cursor stretch = some c₀ := by
    rcases hafter with ⟨rfl, hp⟩ | ⟨before, hp⟩
    · exact walk_prefix hp h
    · obtain ⟨c₀, hc₀⟩ := walk_prefix hp h
      rw [walk_append] at hc₀
      obtain ⟨c₁, -, hc₁⟩ := Option.bind_eq_some_iff.1 hc₀
      exact ⟨c₀, hc₁⟩
  obtain ⟨c₀, hc₀⟩ := hwalk
  constructor
  · have hb := binaries_of_following hu hc₀
    rw [Mark.expected]
    split_ifs at hb ⊢ <;> exact hb
  · rintro before after rfl
    rw [walk_append] at hc₀
    obtain ⟨c₁, -, hc₁⟩ := Option.bind_eq_some_iff.1 hc₀
    exact binaries_of_lost (fun m hm => hu m (by simp [hm])) hc₁

/-! ## Sockets -/

/-- The reader gets through the items of the socket, and is at `c` while it is open. -/
def Follows (emitted : List (List UInt8)) (start : Mark) (s : SocketLike) (c : Cursor) : Prop :=
  ∃ c₀, walk emitted start.cursor s.items = some c₀ ∧ (s.isOpen = true → c₀ = c)

variable {s : SocketLike} {c c' : Cursor}

theorem Follows.of_closed (h : Follows emitted start s c) (hs : s.isOpen = false) (c' : Cursor) :
    Follows emitted start s c' := by
  obtain ⟨c₀, hwalk, -⟩ := h
  exact ⟨c₀, hwalk, fun ho => by rw [hs] at ho; cases ho⟩

theorem Follows.close (h : Follows emitted start s c) (c' : Cursor) :
    Follows emitted start s.close c' :=
  of_closed (c := c) (by
    obtain ⟨c₀, hwalk, -⟩ := h
    exact ⟨c₀, hwalk, fun ho => by cases ho⟩) rfl c'

theorem Follows.send (h : Follows emitted start s c) {item : Item}
    (hread : c.read emitted item = some c') : Follows emitted start (s.send item) c' := by
  obtain ⟨c₀, hwalk, hopen⟩ := h
  rw [SocketLike.send]
  by_cases ho : s.isOpen = true
  · obtain rfl := hopen ho
    rw [if_pos ho]
    have hnext : walk emitted start.cursor (s.items ++ [item]) = some c' := by
      rw [walk_concat hwalk, hread]
    cases s.room with
    | none => exact ⟨c', hnext, fun _ => rfl⟩
    | some n =>
      cases n with
      | zero => exact ⟨c₀, hwalk, fun hc => by cases hc⟩
      | succ n => exact ⟨c', hnext, fun _ => rfl⟩
  · rw [if_neg ho]
    exact ⟨c₀, hwalk, fun hc => absurd hc ho⟩

theorem Follows.skip (h : Follows emitted start s c) : Follows emitted start s.skip .lost := by
  obtain ⟨c₀, hwalk, hopen⟩ := h
  rw [SocketLike.skip]
  by_cases ho : s.isOpen = true
  · rw [if_pos ho]
    refine ⟨.lost, ?_, fun _ => rfl⟩
    rw [walk_concat hwalk]
    rfl
  · rw [if_neg ho]
    exact ⟨c₀, hwalk, fun hc => absurd hc ho⟩

theorem Follows.grow (h : Follows emitted start s c) (more : List (List UInt8)) :
    Follows (emitted ++ more) start s c := by
  obtain ⟨c₀, hwalk, hopen⟩ := h
  exact ⟨c₀, walk_grow hwalk more, hopen⟩

theorem isOpen_of_send {item : Item} (h : (s.send item).isOpen = true) : s.isOpen = true := by
  rw [SocketLike.send] at h
  split_ifs at h with ho
  · exact ho
  · exact h

theorem items_send (s : SocketLike) (item : Item) : s.items <+: (s.send item).items := by
  rw [SocketLike.send]
  split_ifs
  · cases s.room with
    | none => exact List.prefix_append _ _
    | some n =>
      cases n with
      | zero => exact List.prefix_refl _
      | succ n => exact List.prefix_append _ _
  · exact List.prefix_refl _

theorem items_skip (s : SocketLike) : s.items <+: s.skip.items := by
  rw [SocketLike.skip]
  split_ifs
  · exact List.prefix_append _ _
  · exact List.prefix_refl _

/-! ## A direct attachment -/

namespace Attachment

variable {a a' : Attachment}

/-- Where the reader of an open socket is. -/
def cursor (a : Attachment) : Cursor :=
  if a.dirty then .lost else .following none a.emitted.length

/-- The reader of an open socket is at the newest chunk, or is lost while the attachment is
dirty; and an open socket still listens to the session. -/
structure Inv (start : Mark) (a : Attachment) : Prop where
  follows : Follows a.emitted start a.socket a.cursor
  subscribed : a.socket.isOpen = true → a.subscribed = true

/-- What has been emitted and what has been sent stays. -/
structure Extends (a a' : Attachment) : Prop where
  emitted : ∃ more, a'.emitted = a.emitted ++ more
  items : a.socket.items <+: a'.socket.items

theorem Extends.refl (a : Attachment) : a.Extends a := ⟨⟨[], by simp⟩, List.prefix_refl _⟩

theorem Extends.trans {a'' : Attachment} (h : a.Extends a') (h' : a'.Extends a'') :
    a.Extends a'' := by
  obtain ⟨more, hmore⟩ := h.emitted
  obtain ⟨more', hmore'⟩ := h'.emitted
  exact ⟨⟨more ++ more', by rw [hmore', hmore, List.append_assoc]⟩, h.items.trans h'.items⟩

theorem extends_of_items (he : a'.emitted = a.emitted)
    (hi : a.socket.items <+: a'.socket.items) : a.Extends a' := ⟨⟨[], by simp [he]⟩, hi⟩

/-! ### The replay -/

/-- After the announcement of a replay, the replay brings the reader to the newest chunk. -/
theorem follows_sendBacklog (h : Follows a.emitted start a.socket a.mark.cursor) :
    Follows a.emitted start a.sendBacklog.socket (.following none a.emitted.length) := by
  rw [sendBacklog]
  split_ifs with hne
  · exact h.send (by simp [Cursor.read, Mark.cursor, mark, hne, Cursor.readBinary])
  · have hempty : a.mark.snapshot = [] := not_not.1 hne
    rw [Mark.cursor, if_pos hempty] at h
    exact h

theorem sendBacklog_extends (a : Attachment) : a.Extends a.sendBacklog := by
  rw [sendBacklog]
  split_ifs
  · exact extends_of_items rfl (items_send _ _)
  · exact Extends.refl a

theorem sendBacklog_fields (a : Attachment) :
    a.sendBacklog.emitted = a.emitted ∧ a.sendBacklog.dirty = a.dirty ∧
      a.sendBacklog.subscribed = a.subscribed ∧
      (a.sendBacklog.socket.isOpen = true → a.socket.isOpen = true) := by
  rw [sendBacklog]
  split_ifs
  · exact ⟨rfl, rfl, rfl, isOpen_of_send⟩
  · exact ⟨rfl, rfl, rfl, id⟩

theorem Inv.sendGeometry (h : a.Inv start) : a.sendGeometry.Inv start :=
  ⟨h.follows.send rfl, fun ho => h.subscribed (isOpen_of_send ho)⟩

theorem sendGeometry_extends (a : Attachment) : a.Extends a.sendGeometry :=
  extends_of_items rfl (items_send _ _)

/-- The session is not what the invariant is about. -/
theorem Inv.withSession (h : a.Inv start) (session : Session) :
    Inv start { a with session := session } := ⟨h.follows, h.subscribed⟩

/-- After a backlog that was announced, a clean attachment is in step. -/
theorem inv_sendBacklog (h : Follows a.emitted start a.socket a.mark.cursor)
    (hdirty : a.dirty = false) (hsub : a.socket.isOpen = true → a.subscribed = true) :
    a.sendBacklog.Inv start := by
  obtain ⟨hemitted, hd, hs, ho⟩ := a.sendBacklog_fields
  refine ⟨?_, fun hopen => hs.trans (hsub (ho hopen))⟩
  rw [cursor, hd, hdirty, hemitted]
  exact follows_sendBacklog h

/-- **A resync** brings the reader to the newest chunk, wherever it was. -/
theorem inv_sendResync {c : Cursor} (h : Follows a.emitted start a.socket c)
    (hdirty : a.dirty = false) (hsub : a.socket.isOpen = true → a.subscribed = true) :
    a.sendResync.Inv start := by
  have hannounced : Follows a.emitted start (a.socket.send (.resync a.mark)) a.mark.cursor :=
    h.send rfl
  have hbacklog : Inv start (sendBacklog { a with socket := a.socket.send (.resync a.mark) }) :=
    inv_sendBacklog hannounced hdirty fun ho => hsub (isOpen_of_send ho)
  exact hbacklog.sendGeometry.withSession _

theorem requestRedraw_extends (a : Attachment) : a.Extends a.requestRedraw :=
  ⟨⟨[], (List.append_nil _).symm⟩, List.prefix_refl _⟩

theorem sendResync_extends (a : Attachment) : a.Extends a.sendResync := by
  have hannounce : a.Extends { a with socket := a.socket.send (.resync a.mark) } :=
    extends_of_items rfl (items_send _ _)
  have hsent := (hannounce.trans (sendBacklog_extends _)).trans (sendGeometry_extends _)
  exact hsent.trans (requestRedraw_extends _)

/-! ### The events -/

/-- A chunk that the reader does not have yet reaches the listener. -/
theorem inv_onData (h : a.Inv start) (chunk : List UInt8) :
    (({ a with emitted := a.emitted ++ [chunk] } : Attachment).onData chunk).Inv start := by
  have hgrow := h.follows.grow [chunk]
  rw [onData]
  split_ifs with hclosed hdirty hfull
  · exact ⟨hgrow.of_closed hclosed _, h.subscribed⟩
  · refine ⟨?_, fun ho => h.subscribed ?_⟩
    · rw [cursor, if_pos hdirty]
      exact hgrow.skip
    · rw [SocketLike.skip] at ho
      split_ifs at ho <;> assumption
  · refine ⟨hgrow.skip, fun ho => h.subscribed ?_⟩
    rw [SocketLike.skip] at ho
    split_ifs at ho <;> assumption
  · refine ⟨?_, fun ho => h.subscribed (isOpen_of_send ho)⟩
    rw [cursor] at hgrow ⊢
    rw [if_neg hdirty] at hgrow ⊢
    apply hgrow.send
    simp [Cursor.read, Cursor.readBinary]

theorem onData_extends (a : Attachment) (chunk : List UInt8) : a.Extends (a.onData chunk) := by
  rw [onData]
  split_ifs
  · exact Extends.refl a
  · exact extends_of_items rfl (items_skip _)
  · exact extends_of_items rfl (items_skip _)
  · exact extends_of_items rfl (items_send _ _)

theorem Inv.output (h : a.Inv start) (now : Nat) (palette : Option TerminalPalette)
    (rawData : List Char) : (a.output now palette rawData).Inv start := by
  rw [Attachment.output]
  generalize a.session.onData now palette rawData = outcome
  cases hfan : outcome.2.fanOut with
  | none => exact h.withSession _
  | some chunk =>
    have h' := h.withSession outcome.1
    simp only
    split_ifs with hsub
    · exact inv_onData h' chunk
    · have hclosed : a.socket.isOpen = false := by
        by_contra ho
        exact hsub (h.subscribed (by simpa using ho))
      exact ⟨(h.follows.grow [chunk]).of_closed hclosed _, h.subscribed⟩

theorem output_extends (a : Attachment) (now : Nat) (palette : Option TerminalPalette)
    (rawData : List Char) : a.Extends (a.output now palette rawData) := by
  rw [Attachment.output]
  generalize a.session.onData now palette rawData = outcome
  cases hfan : outcome.2.fanOut with
  | none => exact extends_of_items rfl (List.prefix_refl _)
  | some chunk =>
    have hemit : a.Extends
        { a with session := outcome.1, emitted := a.emitted ++ [chunk] } :=
      ⟨⟨[chunk], rfl⟩, List.prefix_refl _⟩
    simp only
    split_ifs
    · exact hemit.trans (onData_extends _ chunk)
    · exact hemit

theorem Inv.drainTick (h : a.Inv start) : a.drainTick.Inv start := by
  rw [Attachment.drainTick]
  split_ifs
  · exact ⟨h.follows, h.subscribed⟩
  · exact h
  · exact inv_sendResync (a := { a with drainTimer := false, dirty := false }) h.follows rfl
      h.subscribed

theorem Inv.onMessage (h : a.Inv start) (m : AttachMessage) : (a.onMessage m).Inv start := by
  cases m with
  | resize cols rows => exact (h.withSession _).sendGeometry
  | resyncRequest =>
    rw [Attachment.onMessage]
    split_ifs with hdirty
    · exact h
    · exact inv_sendResync h.follows (by simpa using hdirty) h.subscribed

theorem Inv.onExit (h : a.Inv start) (incompatible : Bool) : (a.onExit incompatible).Inv start := by
  rw [Attachment.onExit]
  simp only
  split_ifs
  · exact ⟨h.follows.send rfl, fun ho => h.subscribed (isOpen_of_send ho)⟩
  · exact h.withSession _

theorem Inv.onClose (h : a.Inv start) : a.onClose.Inv start :=
  ⟨h.follows.close _, fun ho => by cases ho⟩

/-- What else happens to the session changes only the session. -/
theorem next_session {e : SessionEvent} (hstep : a.next (.session e) = some a') :
    ∃ session, a' = { a with session := session } := by
  cases e with
  | data now palette rawData => cases hstep
  | exit => cases hstep
  | nudgeTimer =>
    change Option.map _ (a.session.next .nudgeTimer) = some a' at hstep
    obtain ⟨session, -, rfl⟩ := Option.map_eq_some_iff.1 hstep
    exact ⟨session, rfl⟩
  | resize cols rows => cases hstep; exact ⟨_, rfl⟩
  | requestRedraw => cases hstep; exact ⟨_, rfl⟩
  | attach => cases hstep; exact ⟨_, rfl⟩
  | kill => cases hstep; exact ⟨_, rfl⟩

/-- Every event of an attachment keeps its invariant. -/
theorem Inv.next (h : a.Inv start) {e : AttachEvent} (hstep : a.next e = some a') :
    a'.Inv start := by
  cases e with
  | output now palette rawData => cases hstep; exact h.output now palette rawData
  | session e =>
    obtain ⟨session, rfl⟩ := next_session hstep
    exact h.withSession session
  | exit incompatible => cases hstep; exact h.onExit incompatible
  | buffered amount => cases hstep; exact ⟨h.follows, h.subscribed⟩
  | drainTick =>
    rw [Attachment.next] at hstep
    split_ifs at hstep
    cases hstep
    exact h.drainTick
  | message m =>
    rw [Attachment.next] at hstep
    split_ifs at hstep
    cases hstep
    exact h.onMessage m
  | close => cases hstep; exact h.onClose

/-- No event takes back what was sent. -/
theorem next_extends {e : AttachEvent} (hstep : a.next e = some a') : a.Extends a' := by
  cases e with
  | output now palette rawData => cases hstep; exact output_extends a now palette rawData
  | session e =>
    obtain ⟨session, rfl⟩ := next_session hstep
    exact extends_of_items rfl (List.prefix_refl _)
  | exit incompatible =>
    cases hstep
    rw [Attachment.onExit]
    simp only
    split_ifs
    · exact extends_of_items rfl (items_send _ _)
    · exact extends_of_items rfl (List.prefix_refl _)
  | buffered amount => cases hstep; exact extends_of_items rfl (List.prefix_refl _)
  | drainTick =>
    rw [Attachment.next] at hstep
    split_ifs at hstep
    cases hstep
    rw [Attachment.drainTick]
    split_ifs
    · exact extends_of_items rfl (List.prefix_refl _)
    · exact Extends.refl a
    · have hsent := sendResync_extends { a with drainTimer := false, dirty := false }
      exact ⟨hsent.emitted, hsent.items⟩
  | message m =>
    rw [Attachment.next] at hstep
    split_ifs at hstep
    cases hstep
    cases m with
    | resize cols rows => exact extends_of_items rfl (items_send _ _)
    | resyncRequest =>
      rw [Attachment.onMessage]
      split_ifs
      · exact Extends.refl a
      · exact sendResync_extends a
  | close => cases hstep; exact extends_of_items rfl (List.prefix_refl _)

end Attachment

/-- What an attachment announces when it begins. -/
def startMark (session : Session) : Mark := ⟨session.getScrollback, 0⟩

theorem inv_attachSocketToSession (session : Session) (wasAlive : Bool) (bufferedAmount : Nat)
    (room : Option Nat) :
    (attachSocketToSession session wasAlive bufferedAmount room).Inv (startMark session) := by
  have hfresh : Follows [] (startMark session) ⟨true, bufferedAmount, room, []⟩
      (startMark session).cursor := ⟨_, rfl, fun _ => rfl⟩
  have hbacklog := Attachment.inv_sendBacklog
    (a := ⟨session, ⟨true, bufferedAmount, room, []⟩, false, false, true, []⟩) hfresh rfl
    fun _ => rfl
  cases wasAlive with
  | false => exact hbacklog.sendGeometry
  | true => exact hbacklog.sendGeometry.withSession _

/-! ## A remote attachment -/

namespace Remote

/-- What the proxy keeps of the stream: the reader gets through what the browser's socket was
given, and while the proxy is live it is where the reader of the agent's items is. -/
def Tracks (emitted : List (List UInt8)) (start : Mark) (taken : List Item) (p : Proxy) : Prop :=
  ∃ c, Follows emitted start p.browserSocket c ∧
    (p.resyncState = .live → walk emitted start.cursor taken = some c)

variable {taken : List Item} {p : Proxy}

theorem Tracks.grow (h : Tracks emitted start taken p) (more : List (List UInt8)) :
    Tracks (emitted ++ more) start taken p := by
  obtain ⟨c, hfollows, hlive⟩ := h
  exact ⟨c, hfollows.grow more, fun hl => walk_grow (hlive hl) more⟩

/-- A closed socket tracks whatever the agent sends. -/
theorem tracks_of_closed {c c' : Cursor} (h : Follows emitted start p.browserSocket c)
    (hclosed : p.browserSocket.isOpen = false)
    (hwalk : walk emitted start.cursor taken = some c') : Tracks emitted start taken p :=
  ⟨c', h.of_closed hclosed c', fun _ => hwalk⟩

/-- **A message from upstream** keeps the proxy on the stream: it is forwarded in step, or it
is left out while no output goes through, or it is the resync that brings the proxy back. -/
theorem tracks_onMessage (h : Tracks emitted start taken p) {item : Item} {c' : Cursor}
    (hwalk : walk emitted start.cursor (taken ++ [item]) = some c') :
    Tracks emitted start (taken ++ [item]) (p.onMessage item) := by
  obtain ⟨c, hfollows, hlive⟩ := h
  -- where the reader of the agent's items is, if the proxy is live
  have hread : p.resyncState = .live → c.read emitted item = some c' := fun hl => by
    rw [walk_concat (hlive hl)] at hwalk
    exact hwalk
  unfold Proxy.onMessage
  by_cases hopen : p.browserSocket.isOpen = false
  · rw [if_pos hopen]
    exact tracks_of_closed hfollows hopen hwalk
  · rw [if_neg hopen]
    cases item with
    | skipped =>
      refine ⟨.lost, hfollows.skip, fun hl => ?_⟩
      rw [hwalk, ← hread hl]
      rfl
    | control message => exact ⟨c, hfollows.send rfl, fun hl => by rw [hwalk, ← hread hl]; rfl⟩
    | resync mark =>
      -- a resync is forwarded in every state, and both readers are at its mark
      obtain rfl := walk_resync hwalk
      have hsent : Follows emitted start (p.browserSocket.send (.resync mark)) mark.cursor :=
        hfollows.send rfl
      cases p.resyncState with
      | live => exact ⟨mark.cursor, hsent, fun _ => hwalk⟩
      | dirty => exact ⟨mark.cursor, hsent, fun _ => hwalk⟩
      | awaiting => exact ⟨mark.cursor, hsent, fun _ => hwalk⟩
    | binary bytes =>
      cases hstate : p.resyncState with
      | live =>
        simp only
        split_ifs
        · exact ⟨.lost, hfollows.skip, fun hl => by cases hl⟩
        · exact ⟨c', hfollows.send (hread hstate), fun _ => hwalk⟩
      | dirty =>
        refine ⟨.lost, hfollows.skip, fun hl => ?_⟩
        rw [Proxy.discard, hstate] at hl
        cases hl
      | awaiting =>
        refine ⟨.lost, hfollows.skip, fun hl => ?_⟩
        rw [Proxy.discard, hstate] at hl
        cases hl

/-- The agent's attachment is in step, and the proxy is with what it has taken. -/
structure Inv (start : Mark) (r : Remote) : Prop where
  agent : r.agent.Inv start
  taken_le : r.proxy.taken ≤ r.agent.socket.items.length
  tracks : Tracks r.agent.emitted start (r.agent.socket.items.take r.proxy.taken) r.proxy

variable {r r' : Remote}

/-- The browser's socket is closed. -/
theorem Inv.closed (h : r.Inv start) {p : Proxy} (htaken : p.taken = r.proxy.taken)
    (hitems : p.browserSocket.items = r.proxy.browserSocket.items)
    (hclosed : p.browserSocket.isOpen = false) : Inv start { r with proxy := p } := by
  refine ⟨h.agent, htaken ▸ h.taken_le, ?_⟩
  obtain ⟨c, ⟨c₀, hwalk, -⟩, -⟩ := h.tracks
  obtain ⟨c₁, hagent, -⟩ := h.agent.follows
  obtain ⟨c₂, hc₂⟩ := walk_prefix (List.take_prefix p.taken _) hagent
  have hfollows : Follows r.agent.emitted start p.browserSocket c₀ :=
    ⟨c₀, by rw [hitems]; exact hwalk, fun _ => rfl⟩
  exact tracks_of_closed hfollows hclosed hc₂

/-- A step of the proxy that leaves the browser's items alone and does not make it live. -/
theorem Inv.withProxy (h : r.Inv start) {p : Proxy} (htaken : p.taken = r.proxy.taken)
    (hitems : p.browserSocket.items = r.proxy.browserSocket.items)
    (hopen : p.browserSocket.isOpen = r.proxy.browserSocket.isOpen)
    (hlive : p.resyncState = .live → r.proxy.resyncState = .live) :
    Inv start { r with proxy := p } := by
  refine ⟨h.agent, htaken ▸ h.taken_le, ?_⟩
  obtain ⟨c, ⟨c₀, hwalk, hc₀⟩, htracks⟩ := h.tracks
  refine ⟨c, ⟨c₀, by rw [hitems]; exact hwalk, fun ho => hc₀ (hopen ▸ ho)⟩, fun hl => ?_⟩
  rw [htaken]
  exact htracks (hlive hl)

theorem Inv.upstreamMessage (h : r.Inv start) {item : Item}
    (hitem : r.agent.socket.items[r.proxy.taken]? = some item) :
    Inv start { r with proxy := { r.proxy.onMessage item with taken := r.proxy.taken + 1 } } := by
  obtain ⟨hlt, hget⟩ := List.getElem?_eq_some_iff.1 hitem
  have htake : r.agent.socket.items.take (r.proxy.taken + 1) =
      r.agent.socket.items.take r.proxy.taken ++ [item] := by
    rw [List.take_add_one, hitem]
    rfl
  refine ⟨h.agent, hlt, ?_⟩
  obtain ⟨c₁, hagent, -⟩ := h.agent.follows
  obtain ⟨c', hc'⟩ := walk_prefix (List.take_prefix (r.proxy.taken + 1) _) hagent
  rw [htake] at hc' ⊢
  exact tracks_onMessage h.tracks hc'

theorem Inv.drainTick (h : r.Inv start) : Inv start { r with proxy := r.proxy.drainTick } := by
  rw [Proxy.drainTick, Proxy.requestUpstreamResync]
  split_ifs
  · exact h.withProxy rfl rfl rfl id
  · exact h
  · exact h.closed rfl rfl rfl
  · exact h.withProxy rfl rfl rfl fun hl => by cases hl

/-- Every event of a remote attachment keeps the invariant. -/
theorem Inv.next (h : r.Inv start) {e : RemoteEvent} (hstep : r.next e = some r') :
    r'.Inv start := by
  cases e with
  | agent e =>
    obtain ⟨a, ha, rfl⟩ := Option.map_eq_some_iff.1 hstep
    obtain ⟨⟨more, hmore⟩, rest, hrest⟩ := Attachment.next_extends ha
    refine ⟨h.agent.next ha, ?_, ?_⟩
    · have := h.taken_le
      simp only [← hrest, List.length_append]
      omega
    · simp only [hmore, ← hrest, List.take_append_of_le_length h.taken_le]
      exact h.tracks.grow more
  | upstreamOpen =>
    rw [Remote.next] at hstep
    split_ifs at hstep
    cases hstep
    exact h.withProxy rfl rfl rfl id
  | upstreamMessage =>
    rw [Remote.next] at hstep
    split_ifs at hstep
    obtain ⟨item, hitem, rfl⟩ := Option.map_eq_some_iff.1 hstep
    exact h.upstreamMessage hitem
  | upstreamClose => cases hstep; exact h.closed rfl rfl rfl
  | buffered amount => cases hstep; exact h.withProxy rfl rfl rfl id
  | drainTick =>
    rw [Remote.next] at hstep
    split_ifs at hstep
    cases hstep
    exact h.drainTick
  | ackTimeout =>
    rw [Remote.next] at hstep
    split_ifs at hstep
    cases hstep
    exact h.closed rfl rfl rfl
  | browserClose => cases hstep; exact h.closed rfl rfl rfl

/-- An agent's attachment and a proxy that has taken nothing. -/
theorem inv_proxyToRemoteAttach {a : Attachment} (h : a.Inv start) (bufferedAmount : Nat)
    (room : Option Nat) : Inv start ⟨a, proxyToRemoteAttach bufferedAmount room⟩ := by
  refine ⟨h, Nat.zero_le _, start.cursor, ⟨start.cursor, rfl, fun _ => rfl⟩, fun _ => ?_⟩
  rw [show (proxyToRemoteAttach bufferedAmount room).taken = 0 from rfl, List.take_zero]
  rfl

end Remote

/-! ## Every run -/

/-- Whatever part of the items has reached the browser, it has no silent gap. -/
def Gapless (emitted : List (List UInt8)) (start : Mark) (items : List Item) : Prop :=
  ∀ received, received <+: items → NoSilentGap emitted start received

theorem Follows.gapless (h : Follows emitted start s c) : Gapless emitted start s.items := by
  obtain ⟨c₀, hwalk, -⟩ := h
  intro received hp
  exact (noSilentGap_of_walk hwalk).arrived hp

/-- **No silent gap.** Attached directly or through a proxy, along every run, a browser that
has received any part of what was put on its socket has seen no silent gap. -/
theorem no_silent_gap (session : Session) (wasAlive : Bool) (bufferedAmount : Nat)
    (room : Option Nat) :
    (∀ events : List AttachEvent,
      Run.Along Attachment.next (fun a => Gapless a.emitted (startMark session) a.socket.items)
        (attachSocketToSession session wasAlive bufferedAmount room) events) ∧
    ∀ (browserBuffered : Nat) (browserRoom : Option Nat) (events : List RemoteEvent),
      Run.Along Remote.next
        (fun r => Gapless r.agent.emitted (startMark session) r.proxy.browserSocket.items)
        ⟨attachSocketToSession session wasAlive bufferedAmount room,
          proxyToRemoteAttach browserBuffered browserRoom⟩ events := by
  have hstart := inv_attachSocketToSession session wasAlive bufferedAmount room
  constructor
  · intro events
    exact Run.along_of_invariant (I := Attachment.Inv (startMark session)) (C := fun _ _ => True)
      (fun a e a' h _ hstep => h.next hstep) (fun a h => h.follows.gapless) hstart
      (Run.Meets.of_forall (fun _ _ => trivial) _ _)
  · intro browserBuffered browserRoom events
    exact Run.along_of_invariant (I := Remote.Inv (startMark session)) (C := fun _ _ => True)
      (fun r e r' h _ hstep => h.next hstep)
      (fun r h => by
        obtain ⟨c, hfollows, -⟩ := h.tracks
        exact hfollows.gapless)
      (Remote.inv_proxyToRemoteAttach hstart browserBuffered browserRoom)
      (Run.Meets.of_forall (fun _ _ => trivial) _ _)

end Terminal
end Mullion
