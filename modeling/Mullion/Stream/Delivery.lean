import Mullion.Lib.Run
import Mullion.Stream.Sending

/-!
# What a socket delivers

Two sockets bound to the ends of one channel, under any calls, any credit and any cutting of the
stream into frames. A socket sends messages and receives them; what is asked is that they arrive in
order, with their bytes and their flags (`InOrder`), and all of them before the close is seen
(`Complete`).

For each direction the bytes on the way and the messages at both ends are tied together by `Link`:
what was sent is what was received, what the receiver holds of an unfinished message, what is in
flight, and what waits for credit. `Parsed` has the receiver's part of that, a parser which was fed
a part of a stream and has read it without an error (`ingest_heard`). A call moves bytes from one
of these to the next, and `Inv.step` goes over the calls. At the close of the sender what still
waits for credit is dropped, so all is complete exactly if nothing was queued then (`Flushed`).
`delivered_iff` has the order always and the rest exactly so; `close_drops_queue` is a message
longer than the window that is lost to the close.
-/

namespace Mullion
namespace Stream

open Mux Station Lane Framing

/-! ## The property -/

namespace Wire

/-- The messages received are the first of the messages sent. -/
def InOrder (w : Wire) : Prop := ∀ e, (w e.peer).received <+: (w e).sent

/-- The `Close` of a peer that called `close` arrives, at a socket that was not ended by its
own side. -/
def AtClose (w : Wire) : End × Event → Prop
  | (e, .deliver _) => (∃ rest, (w e.peer).channel.out = .close :: rest) ∧
    (w e.peer).closeCalled = true ∧ ((w e).readyState ≠ .closed ∨ (w e).failed = true)
  | _ => False

/-- All that the peer sent has been received before its close is seen. -/
def Complete (w : Wire) (event : End × Event) (_ : Wire) : Prop :=
  w.AtClose event → (w event.1).received = (w event.1.peer).sent

/-- Nothing was queued when the peer called `close`. -/
def Flushed (w : Wire) (event : End × Event) : Prop :=
  w.AtClose event → (w event.1.peer).dropped = []

end Wire

/-! ## The direction in which a socket receives -/

/-- What an open socket has made of what was handed to it. `line` is what comes before the
messages. -/
def Parsed (line : List UInt8) (s : Socket) : Prop :=
  match s.headBuffer with
  | some kept => s.readyState = .connecting ∧ newline ∉ kept ∧ s.channel.handed = kept ∧
    s.received = [] ∧ s.parseBuffer = [] ∧ ∃ resumed, line = acceptLine resumed
  | none => s.readyState = .open_ ∧ ∃ body fs, s.channel.handed = line ++ body ∧
    messages.drain body = (fs, some s.parseBuffer) ∧ s.received = fs.map Message.ofFrame

section Reading

variable {line : List UInt8} {s : Socket} {ms : List Message}

/-- The loop of `drainMessages`: all messages, or the first of them and a call of `close`. -/
theorem drainMessages_spec (stop : Option Nat) (hopen : s.readyState = .open_) {fs : List Tagged}
    {kept : List UInt8} (hd : messages.drain s.parseBuffer = (fs, some kept)) :
    s.drainMessages stop =
      { s with parseBuffer := kept, received := s.received ++ fs.map Message.ofFrame } ∨
    stop ≠ none ∧ ∃ done left buffer, fs = done ++ left ∧ s.drainMessages stop = Socket.callClose
      { s with parseBuffer := buffer, received := s.received ++ done.map Message.ofFrame } := by
  fun_induction Socket.drainMessages stop s generalizing fs with
  | case1 s =>
    refine .inr ⟨Option.some_ne_none _, [], fs, s.parseBuffer, rfl, ?_⟩
    rw [List.map_nil, List.append_nil]
  | case2 stop s hstop hne => exact absurd hopen hne
  | case3 stop s hstop hne hfront =>
    rw [Format.drain_more _ hfront] at hd
    cases hd
    exact .inl (by rw [List.map_nil, List.append_nil])
  | case4 stop s hstop hne hfront =>
    rw [Format.drain_bad _ hfront] at hd
    cases hd
  | case5 stop s hstop hne f rest hfront ih =>
    rw [Format.drain_frame _ hfront] at hd
    obtain ⟨rfl, hrest⟩ := Prod.mk.inj hd
    rcases ih hopen (Prod.ext rfl hrest) with heq | ⟨hsome, done, left, buffer, hsplit, heq⟩
    · refine .inl (heq.trans ?_)
      simp only [List.map_cons, List.append_assoc, List.cons_append, List.nil_append]
    · have hstop' : stop ≠ none := fun hnone => hsome (by rw [hnone]; rfl)
      refine .inr ⟨hstop', f :: done, left, buffer, congrArg (f :: ·) hsplit, heq.trans ?_⟩
      simp only [List.map_cons, List.append_assoc, List.cons_append, List.nil_append]

/-- What is cut from the first bytes of messages is the first messages. -/
theorem received_prefix {body t kept : List UInt8} {fs : List Tagged}
    (hfits : ∀ m ∈ ms, m.payload.length ≤ maxStreamMessageBytes) (hbytes : encode ms = body ++ t)
    (hd : messages.drain body = (fs, some kept)) :
    ∃ left, ms = fs.map Message.ofFrame ++ left.map Message.ofFrame ∧
      messages.drain (kept ++ t) = (left, some []) := by
  have hall := drain_encode_messages hfits
  rw [hbytes] at hall
  obtain ⟨done, kept', left, hdone, hsplit, hleft⟩ := messages.drain_prefix hall
  rw [hd] at hdone
  cases hdone
  refine ⟨left, ?_, hleft⟩
  rw [← List.map_append, ← hsplit, map_ofFrame]

/-- A socket that goes on reading, or has ended on a call of its owner. -/
structure Heard (line : List UInt8) (ms : List Message) (stop : Option Nat) (s s' : Socket) :
    Prop where
  received : s'.received <+: ms
  goes_on : stop = none → s'.readyState ≠ .closed
  parsed : s'.readyState ≠ .closed → Parsed line s' ∧ s'.channel.handed = s.channel.handed
  failed : s'.failed = s.failed

theorem feed_heard {line' : List UInt8} (hown : Own line' s) (stop : Option Nat)
    (hopen : s.readyState = .open_)
    (hhead : s.headBuffer = none) {body rest t : List UInt8} {fs : List Tagged}
    (hhanded : s.channel.handed = line ++ (body ++ rest))
    (hd : messages.drain body = (fs, some s.parseBuffer))
    (hreceived : s.received = fs.map Message.ofFrame)
    (hfits : ∀ m ∈ ms, m.payload.length ≤ maxStreamMessageBytes)
    (hbytes : encode ms = body ++ rest ++ t) : Heard line ms stop s (s.feed stop rest) := by
  have hne : s.readyState ≠ .closed := by
    rw [hopen]
    nofun
  unfold Socket.feed
  split
  case isTrue hnil =>
    rw [List.length_eq_zero_iff] at hnil
    rw [hnil, List.append_nil] at hhanded hbytes
    obtain ⟨left, hms, -⟩ := received_prefix hfits hbytes hd
    refine ⟨?_, fun _ => hne, fun _ => ⟨?_, rfl⟩, rfl⟩
    · rw [hreceived, hms]
      exact List.prefix_append _ _
    · unfold Parsed
      rw [hhead]
      exact ⟨hopen, body, fs, hhanded, hd, hreceived⟩
  case isFalse =>
    have happend := messages.drain_append_some hd rest
    have hall := drain_encode_messages hfits
    rw [hbytes] at hall
    obtain ⟨done, kept, left, hdone, hsplit, -⟩ := messages.drain_prefix hall
    rw [happend] at hdone
    obtain ⟨rfl, hkept⟩ := Prod.mk.inj hdone
    obtain ⟨new, hnew⟩ : ∃ new, messages.drain (s.parseBuffer ++ rest) = (new, some kept) :=
      ⟨_, Prod.ext rfl hkept⟩
    rw [hnew] at hsplit happend
    have hms : ms = fs.map Message.ofFrame ++ new.map Message.ofFrame ++
        left.map Message.ofFrame := by
      rw [← List.map_append, ← List.map_append, ← hsplit, map_ofFrame]
    rcases @drainMessages_spec { s with parseBuffer := s.parseBuffer ++ rest } stop hopen new kept
      hnew with heq | ⟨hsome, first, others, buffer, hfirst, heq⟩
    · rw [heq]
      refine ⟨?_, fun _ => hne, fun _ => ⟨?_, rfl⟩, rfl⟩
      · show s.received ++ _ <+: ms
        rw [hms, hreceived]
        exact List.prefix_append _ _
      · unfold Parsed
        simp only [hhead]
        refine ⟨hopen, body ++ rest, fs ++ new, hhanded, happend, ?_⟩
        rw [hreceived, List.map_append]
    · rw [heq]
      have hown' : Own line' { s with
          parseBuffer := buffer
          received := s.received ++ first.map Message.ofFrame } :=
        ⟨hown.books, hown.started, hown.fits, hown.open_, hown.finished⟩
      have hended := callClose_ended (by exact hne) hown'
      refine ⟨?_, fun hnone => absurd hnone hsome, fun hne' => absurd hended.readyState hne', ?_⟩
      · rw [hended.received, hms, hreceived, hfirst, List.map_append, List.append_assoc,
          List.append_assoc]
        exact List.prefix_append_right_inj _ |>.2 (List.prefix_append _ _)
      · unfold Socket.callClose Socket.close Socket.finish
        simp [hopen]

theorem newline_not_mem_acceptText (resumed : Bool) : newline ∉ acceptText resumed := by
  cases resumed <;> decide

theorem length_acceptText (resumed : Bool) : (acceptText resumed).length ≤ maxHeadBytes := by
  cases resumed <;> decide

/-- `handleAccept` takes the accept head. -/
theorem handleAccept_text (json : HeadReader) (resumed : Bool) :
    s.handleAccept json (acceptText resumed) =
      ({ s with resumed := resumed, readyState := .open_ }, true) := by
  unfold Socket.handleAccept
  rw [json.parse_accept]
  exact if_neg fun h => h rfl

/-- A socket that has its head, or expects none. -/
theorem ingest_none (json : HeadReader) (stop : Option Nat) (hne : s.readyState ≠ .closed)
    (hhead : s.headBuffer = none) (p : List UInt8) :
    s.ingest json stop p =
      Socket.feed { s with channel := s.channel.acknowledge p.length } stop p := by
  unfold Socket.ingest
  simp only [if_neg hne, hhead]

/-- A part of the head. -/
theorem ingest_part (json : HeadReader) (stop : Option Nat) (hne : s.readyState ≠ .closed)
    {kept p : List UInt8} (hhead : s.headBuffer = some kept) (hnl : p.idxOf? newline = none)
    (hfits : (kept ++ p).length ≤ maxHeadBytes) :
    s.ingest json stop p =
      { s with
        channel := s.channel.acknowledge p.length
        headBuffer := some (kept ++ p) } := by
  unfold Socket.ingest
  simp only [if_neg hne, hhead, hnl, if_neg (Nat.not_lt.2 hfits)]

/-- The end of the accept head. -/
theorem ingest_line (json : HeadReader) (stop : Option Nat) (hne : s.readyState ≠ .closed)
    {kept p : List UInt8} {nl : Nat} {resumed : Bool} (hhead : s.headBuffer = some kept)
    (hnl : p.idxOf? newline = some nl) (hraw : kept ++ p.take nl = acceptText resumed) :
    s.ingest json stop p =
      Socket.feed { s with
        channel := s.channel.acknowledge p.length
        headBuffer := none
        resumed := resumed
        readyState := .open_ } stop (p.drop (nl + 1)) := by
  unfold Socket.ingest
  simp only [if_neg hne, hhead, hnl, hraw, if_neg (Nat.not_lt.2 (length_acceptText resumed)),
    handleAccept_text, if_true]

/-- The next bytes of a stream are read without an error. -/
theorem ingest_heard {line' : List UInt8} (json : HeadReader) (stop : Option Nat)
    (hown : Own line' s) (hne : s.readyState ≠ .closed) {handed p t : List UInt8}
    (hparsed : Parsed line { s with channel := { s.channel with handed := handed } })
    (hhanded : s.channel.handed = handed ++ p)
    (hfits : ∀ m ∈ ms, m.payload.length ≤ maxStreamMessageBytes)
    (hbytes : line ++ encode ms = handed ++ (p ++ t)) :
    Heard line ms stop s (s.ingest json stop p) ∧ Keeps line' s (s.ingest json stop p) := by
  have hown₂ := (acknowledge_keeps p.length hown).1
  have hhanded₂ : (s.channel.acknowledge p.length).handed = handed ++ p := by
    rw [acknowledge_handed, hhanded]
  have hback : (s.channel.acknowledge p.length).handed = s.channel.handed := acknowledge_handed _ _
  unfold Parsed at hparsed
  rcases Option.eq_none_or_eq_some s.headBuffer with hhead | ⟨kept, hhead⟩
  · simp only [hhead] at hparsed
    obtain ⟨hopen, body, fs, hbody, hd, hreceived⟩ := hparsed
    rw [hbody, List.append_assoc] at hbytes hhanded₂
    rw [ingest_none json stop hne hhead]
    have h := feed_heard hown₂ stop hopen hhead hhanded₂ hd hreceived hfits
      ((List.append_cancel_left hbytes).trans (List.append_assoc _ _ _).symm)
    refine ⟨⟨h.received, h.goes_on, fun hne' => ⟨(h.parsed hne').1, (h.parsed hne').2.trans hback⟩,
      h.failed⟩, ?_⟩
    exact (acknowledge_keeps p.length).trans (feed_keeps stop p)
  · simp only [hhead] at hparsed
    obtain ⟨hconn, hkept, rfl, hnone, hempty, resumed, rfl⟩ := hparsed
    have hline : acceptText resumed ++ newline :: encode ms = handed ++ (p ++ t) := by
      rw [← hbytes, acceptLine, List.append_assoc]
      rfl
    rcases Option.eq_none_or_eq_some (p.idxOf? newline) with hnl | ⟨nl, hnl⟩
    · have hno : newline ∉ handed ++ p := by
        intro hmem
        exact (List.mem_append.1 hmem).elim hkept (List.idxOf?_eq_none_iff.1 hnl)
      have hpart := line_part hno (hline.trans (List.append_assoc _ _ _).symm)
      have hlen := hpart.length_le.trans (length_acceptText resumed)
      rw [ingest_part json stop hne hhead hnl hlen]
      refine ⟨⟨?_, fun _ => hne, fun _ => ⟨?_, hback⟩, rfl⟩, ?_⟩
      · show s.received <+: ms
        rw [hnone]
        exact List.nil_prefix
      · exact ⟨hconn, hno, hhanded₂, hnone, hempty, resumed, rfl⟩
      · refine (acknowledge_keeps p.length).trans ?_
        exact Keeps.of_same rfl rfl rfl rfl Iff.rfl
    · obtain ⟨hraw, hrest⟩ :=
        line_split hkept (newline_not_mem_acceptText resumed) hnl hline
      rw [ingest_line json stop hne hhead hnl hraw]
      have hown₃ : Own line' { s with
          channel := s.channel.acknowledge p.length
          headBuffer := none
          resumed := resumed
          readyState := .open_ } :=
        ⟨hown₂.books, hown₂.started, hown₂.fits, fun _ => hown₂.open_ hne, nofun⟩
      have hbody : handed ++ p = acceptLine resumed ++ ([] ++ p.drop (nl + 1)) := by
        have hcancel : handed ++ p ++ t = acceptLine resumed ++ ([] ++ p.drop (nl + 1)) ++ t := by
          rw [List.append_assoc, ← hline, hrest, acceptLine]
          simp only [List.append_assoc, List.cons_append, List.nil_append]
        exact List.append_cancel_right hcancel
      have h := @feed_heard (acceptLine resumed) _ ms line' hown₃ stop rfl rfl []
        (p.drop (nl + 1)) t [] (hhanded₂.trans hbody) (by rw [hempty]; rfl) hnone hfits hrest
      refine ⟨⟨h.received, h.goes_on, fun hne' => ⟨(h.parsed hne').1, (h.parsed hne').2.trans hback⟩,
        h.failed⟩, ?_⟩
      refine (acknowledge_keeps p.length).trans (Keeps.trans ?_ (feed_keeps stop _))
      exact Keeps.of_same rfl rfl rfl rfl ⟨nofun, fun h => absurd h hne⟩

end Reading

/-! ## One direction -/

/-- What an operation that reads nothing does to the direction in which its end receives. -/
structure Incoming (s s' : Socket) : Prop where
  received : s'.received = s.received
  handed : s'.channel.handed = s.channel.handed
  same : s'.readyState ≠ .closed → s'.readyState = s.readyState ∧ s'.headBuffer = s.headBuffer ∧
    s'.parseBuffer = s.parseBuffer
  failed : s'.failed = s.failed

theorem Incoming.refl (s : Socket) : Incoming s s := ⟨rfl, rfl, fun _ => ⟨rfl, rfl, rfl⟩, rfl⟩

theorem Incoming.trans {s₁ s₂ s₃ : Socket} (h : Incoming s₁ s₂) (h' : Incoming s₂ s₃) :
    Incoming s₁ s₃ := by
  refine ⟨h'.received.trans h.received, h'.handed.trans h.handed, fun hne => ?_,
    h'.failed.trans h.failed⟩
  obtain ⟨hstate, hhead, hparse⟩ := h'.same hne
  obtain ⟨hstate', hhead', hparse'⟩ := h.same (hstate ▸ hne)
  exact ⟨hstate.trans hstate', hhead.trans hhead', hparse.trans hparse'⟩

theorem Ended.incoming {s s' : Socket} (h : Ended s s') (hfailed : s'.failed = s.failed) :
    Incoming s s' :=
  ⟨h.received, h.handed, fun hne => absurd h.readyState hne, hfailed⟩

theorem Parsed.of_incoming {line : List UInt8} {s s' : Socket} (h : Parsed line s)
    (hin : Incoming s s') (hne : s'.readyState ≠ .closed) : Parsed line s' := by
  obtain ⟨hstate, hhead, hparse⟩ := hin.same hne
  unfold Parsed at h ⊢
  rw [hhead, hstate, hparse, hin.received, hin.handed]
  exact h

/-- The direction from `S` to `R`. -/
structure Link (line : List UInt8) (S R : Socket) : Prop where
  wire : R.readyState ≠ .closed →
    S.channel.sent = R.channel.handed ++ payloads S.channel.out
  closing : Closing S.channel.out
  last : S.readyState ≠ .closed → .close ∉ S.channel.out
  parsed : R.readyState ≠ .closed → Parsed line R
  received : R.received <+: S.sent
  sound : R.failed = false

section Link

variable {line : List UInt8} {S S' R R' : Socket}

theorem Link.outgoing (h : Link line S R) (hout : Outgoing S S') : Link line S' R := by
  obtain ⟨ps, hps, hsent, hclosing, hno, hnil⟩ := hout.out
  constructor
  case wire =>
    intro hne
    rw [hsent, h.wire hne, hps, payloads_append, List.append_assoc]
  case closing =>
    rw [hps]
    refine closing_append.2 ⟨h.closing, hclosing, fun hmem => ?_⟩
    have hgone : S.readyState = .closed := by
      by_contra hopen
      exact h.last hopen hmem
    rw [hnil hgone, payloads_nil]
  case last =>
    intro hopen hmem
    rw [hps] at hmem
    rcases List.mem_append.1 hmem with hmem | hmem
    · exact h.last (fun hc => hopen (hout.closed hc)) hmem
    · exact hno hopen hmem
  case parsed => exact h.parsed
  case received => exact h.received.trans hout.sent
  case sound => exact h.sound

theorem Link.incoming (h : Link line S R) (hin : Incoming R R') : Link line S R' := by
  have hopen : R'.readyState ≠ .closed → R.readyState ≠ .closed := by
    intro hne
    rw [← (hin.same hne).1]
    exact hne
  constructor
  case wire =>
    intro hne
    rw [hin.handed]
    exact h.wire (hopen hne)
  case closing => exact h.closing
  case last => exact h.last
  case parsed => exact fun hne => (h.parsed (hopen hne)).of_incoming hin hne
  case received =>
    rw [hin.received]
    exact h.received
  case sound => exact hin.failed.trans h.sound

/-- The frames on the way change, and not their bytes. -/
theorem Link.relink (h : Link line S R) {out : List Packet}
    (hbytes : R.readyState ≠ .closed → payloads out = payloads S.channel.out)
    (hclosing : Closing out) (hmem : .close ∈ out → .close ∈ S.channel.out) :
    Link line { S with channel := { S.channel with out := out } } R := by
  constructor
  case wire =>
    intro hne
    show S.channel.sent = _ ++ payloads out
    rw [hbytes hne]
    exact h.wire hne
  case closing => exact hclosing
  case last => exact fun hopen hyes => h.last hopen (hmem hyes)
  case parsed => exact h.parsed
  case received => exact h.received
  case sound => exact h.sound

end Link

section Operations

variable {line : List UInt8} {s : Socket}

theorem channel_incoming {channel : Station} (h : channel.handed = s.channel.handed) :
    Incoming s { s with channel := channel } := ⟨rfl, h, fun _ => ⟨rfl, rfl, rfl⟩, rfl⟩

theorem pumped_incoming : Incoming s s.pumped := by
  obtain ⟨chunks, -, -, -, hhanded⟩ := pump_spec s.channel s.queue
  exact ⟨rfl, hhanded, fun _ => ⟨rfl, rfl, rfl⟩, rfl⟩

theorem close_incoming (hown : Own line s) : Incoming s s.close := by
  by_cases hc : s.readyState = .closed
  · unfold Socket.close
    rw [if_pos hc]
    exact Incoming.refl s
  · refine (close_ended hc hown).incoming ?_
    unfold Socket.close Socket.finish
    rw [if_neg hc, if_neg hc]

theorem callClose_incoming (hown : Own line s) : Incoming s s.callClose := by
  unfold Socket.callClose
  split
  · exact Incoming.refl s
  · obtain ⟨h₁, h₂, h₃, h₄⟩ := close_incoming hown
    exact ⟨h₁, h₂, h₃, h₄⟩

theorem lost_incoming : Incoming s s.lost := by
  unfold Socket.lost Socket.finish
  split
  · exact channel_incoming rfl
  · exact ⟨rfl, rfl, nofun, rfl⟩

theorem send_incoming (hown : Own line s) (data : SocketData) (binary : Option Bool) :
    Incoming s (s.send data binary) := by
  unfold Socket.send
  split
  · exact Incoming.refl s
  case isFalse hopen =>
    split
    · exact close_incoming hown
    case isFalse hfits =>
      have hqueued : Keeps line s (Socket.pumped _) :=
        (queued_keeps (not_not.1 hopen) (Nat.not_lt.1 hfits)).trans pumped_keeps
      have hin : Incoming s (Socket.pumped { s with
          queue := s.queue ++ (data.message binary).buffers
          sent := s.sent ++ [data.message binary] }) := by
        refine Incoming.trans ?_ pumped_incoming
        exact ⟨rfl, rfl, fun _ => ⟨rfl, rfl, rfl⟩, rfl⟩
      simp only []
      split
      · exact hin.trans (close_incoming (hqueued hown).1)
      · exact hin

/-- The arrival of a frame that carries no data. -/
theorem arrive_spec (json : HeadReader) (id : Nat) (stop : Option Nat) (hown : Own line s)
    {p : Packet} (hp : ∀ payload, p ≠ .data payload) :
    Keeps line s (s.arrive json id stop p) ∧ Incoming s (s.arrive json id stop p) := by
  unfold Socket.arrive
  split
  · exact ⟨Keeps.refl, Incoming.refl s⟩
  case isFalse hopen =>
    have hne : s.readyState ≠ .closed := fun hc => hopen (hown.finished hc).2
    obtain ⟨ch, hlive⟩ := not_closed hopen
    -- while the channel stays open only its phase changes
    have hkeeps : ∀ ch', ch'.dataAttached = ch.dataAttached → Keeps line s { s with
        channel := { s.channel with phase := .live ch' } } := by
      intro ch' hdata
      refine channel_keeps [] rfl List.not_mem_nil (List.append_nil _).symm rfl
        (fun hc => absurd hc hopen) fun ch'' hp'' => ?_
      cases hlive.symm.trans hp''
      exact ⟨ch', rfl, hdata⟩
    cases p with
    | openAck =>
      rw [handle_openAck hlive]
      exact ⟨Keeps.refl, Incoming.refl s⟩
    | data payload => exact absurd rfl (hp payload)
    | windowAdjust n =>
      rw [handle_windowAdjust hlive]
      constructor
      · refine Keeps.trans ?_ pumped_keeps
        exact hkeeps (ch.handleWindowAdjust n) rfl
      · refine Incoming.trans ?_ pumped_incoming
        exact channel_incoming rfl
    | eof =>
      rw [handle_eof hlive]
      have hstep := hkeeps ch.handleEof (by unfold Channel.handleEof; split <;> rfl)
      constructor
      · refine Keeps.trans ?_ close_keeps
        exact hstep
      · refine Incoming.trans ?_ (close_incoming (hstep hown).1)
        exact channel_incoming rfl
    | close =>
      rw [handle_close hlive]
      exact ⟨lost_keeps, lost_incoming⟩

end Operations

/-! ## Both directions -/

/-- What an end sends before its messages. -/
def headLine (resumed : Bool) : End → List UInt8
  | .a => []
  | .b => acceptLine resumed

/-- The invariant of the two sockets. -/
structure Inv (resumed : Bool) (w : Wire) : Prop where
  own : ∀ e, Own (headLine resumed e) (w e)
  link : ∀ e, Link (headLine resumed e) (w e) (w e.peer)

section Inv

variable {resumed : Bool} {w : Wire}

theorem eq_or_peer (e x : End) : x = e ∨ x = e.peer := by
  cases e <;> cases x <;> decide

theorem update_self (e : End) (s : Socket) : w.update e s e = s := if_pos rfl

theorem update_peer (e : End) (s : Socket) : w.update e s e.peer = w e.peer := if_neg e.peer_ne

/-- A socket does something that is not reading. -/
theorem Inv.update (h : Inv resumed w) (e : End) {s : Socket}
    (hkeeps : Keeps (headLine resumed e) (w e) s) (hin : Incoming (w e) s) :
    Inv resumed (w.update e s) := by
  obtain ⟨hown, hout⟩ := hkeeps (h.own e)
  constructor
  case own =>
    intro x
    rcases eq_or_peer e x with rfl | rfl
    · rw [update_self]
      exact hown
    · rw [update_peer]
      exact h.own _
  case link =>
    intro x
    rcases eq_or_peer e x with rfl | rfl
    · rw [update_self, update_peer]
      exact (h.link x).outgoing hout
    · rw [End.peer_peer, update_self, update_peer]
      have hlink := h.link e.peer
      rw [End.peer_peer] at hlink
      exact hlink.incoming hin

/-- The frames on the way to an end change, and not their bytes. -/
theorem Inv.relink (h : Inv resumed w) (e : End) (out : List Packet)
    (hbytes : (w e).readyState ≠ .closed → payloads out = payloads (w e.peer).channel.out)
    (hclosing : Closing out) (hmem : .close ∈ out → .close ∈ (w e.peer).channel.out) :
    Inv resumed (w.relink e out) := by
  have hpeer : w.relink e out e.peer =
      { w e.peer with channel := { (w e.peer).channel with out := out } } := update_self _ _
  have hself : w.relink e out e = w e := if_neg e.peer_ne.symm
  constructor
  case own =>
    intro x
    rcases eq_or_peer e x with rfl | rfl
    · rw [hself]
      exact h.own x
    · rw [hpeer]
      obtain ⟨hbooks, hstarted, hfits, hopen, hfinished⟩ := h.own e.peer
      exact ⟨hbooks, hstarted, hfits, hopen, hfinished⟩
  case link =>
    intro x
    rcases eq_or_peer e x with rfl | rfl
    · rw [hself, hpeer]
      exact (h.link x).incoming (channel_incoming rfl)
    · rw [End.peer_peer, hself, hpeer]
      have hlink := h.link e.peer
      rw [End.peer_peer] at hlink
      exact hlink.relink hbytes hclosing hmem

/-- Data arrives at an open socket, which goes on reading. -/
theorem Inv.heard (h : Inv resumed w) (json : HeadReader) (id : Nat) (stop : Option Nat) (e : End)
    {p : List UInt8} {rest : List Packet} (hout : (w e.peer).channel.out = .data p :: rest)
    (hne : (w e).readyState ≠ .closed) :
    Heard (headLine resumed e.peer) (w e.peer).sent stop
        { w e with channel := { (w e).channel with handed := (w e).channel.handed ++ p } }
        ((w e).arrive json id stop (.data p)) ∧
      Keeps (headLine resumed e) (w e) ((w e).arrive json id stop (.data p)) := by
  have hown := h.own e
  have hfrom := h.link e.peer
  rw [End.peer_peer] at hfrom
  obtain ⟨-, ch, hlive, hdata⟩ := hown.open_ hne
  have hopen := closed_of_live hlive
  obtain ⟨s, hs⟩ : ∃ s : Socket, s = { w e with
    channel := { (w e).channel with handed := (w e).channel.handed ++ p } } := ⟨_, rfl⟩
  have harrive : (w e).arrive json id stop (.data p) = s.ingest json stop p := by
    unfold Socket.arrive
    rw [hopen, handle_data hlive id hdata, hs]
    rfl
  have hkeeps : Keeps (headLine resumed e) (w e) s := by
    rw [hs]
    refine channel_keeps [] rfl List.not_mem_nil (List.append_nil _).symm rfl
      (fun hc => absurd (hopen.symm.trans hc) Bool.false_ne_true) fun ch' hp' => ?_
    exact ⟨ch', hp', rfl⟩
  have hwire := hfrom.wire hne
  rw [hout, payloads_cons] at hwire
  have hbytes : headLine resumed e.peer ++ encode (w e.peer).sent =
      (w e).channel.handed ++ (p ++ (payloads rest ++ (w e.peer).queue.flatten ++
        (w e.peer).dropped)) := by
    rw [(h.own e.peer).books, hwire]
    simp only [List.append_assoc]
    rfl
  obtain ⟨hheard, hread⟩ := @ingest_heard (headLine resumed e.peer) s (w e.peer).sent
    (headLine resumed e) json stop (hkeeps hown).1 (by rw [hs]; exact hne) (w e).channel.handed p _
    (by rw [hs]; exact hfrom.parsed hne) (by rw [hs]) (h.own e.peer).fits hbytes
  rw [harrive, ← hs]
  exact ⟨hheard, hkeeps.trans hread⟩

/-- Data arrives at an open socket. -/
theorem Inv.data (h : Inv resumed w) (json : HeadReader) (id : Nat) (stop : Option Nat) (e : End)
    {p : List UInt8} {rest : List Packet} (hout : (w e.peer).channel.out = .data p :: rest)
    (hne : (w e).readyState ≠ .closed) :
    Inv resumed ((w.relink e rest).update e ((w e).arrive json id stop (.data p))) := by
  obtain ⟨hheard, hkeeps⟩ := h.heard json id stop e hout hne
  have hall := hkeeps (h.own e)
  have hfrom := h.link e.peer
  rw [End.peer_peer] at hfrom
  have hwire := hfrom.wire hne
  rw [hout, payloads_cons] at hwire
  obtain ⟨s, hs⟩ : ∃ s, s = (w e).arrive json id stop (.data p) := ⟨_, rfl⟩
  rw [← hs] at hheard hall ⊢
  have hself : (w.relink e rest).update e s e = s := update_self _ _
  have hpeer : (w.relink e rest).update e s e.peer =
      { w e.peer with channel := { (w e.peer).channel with out := rest } } := by
    rw [update_peer]
    exact update_self _ _
  constructor
  case own =>
    intro x
    rcases eq_or_peer e x with rfl | rfl
    · rw [hself]
      exact hall.1
    · rw [hpeer]
      obtain ⟨hbooks, hstarted, hfits, hopen, hfinished⟩ := h.own e.peer
      exact ⟨hbooks, hstarted, hfits, hopen, hfinished⟩
  case link =>
    intro x
    rcases eq_or_peer e x with rfl | rfl
    · rw [hself, hpeer]
      have hin : Incoming (w x.peer)
          { w x.peer with channel := { (w x.peer).channel with out := rest } } :=
        channel_incoming rfl
      exact ((h.link x).incoming hin).outgoing hall.2
    · rw [End.peer_peer, hself, hpeer]
      have hclosing := hfrom.closing
      rw [hout] at hclosing
      constructor
      case wire =>
        intro hne'
        rw [(hheard.parsed hne').2]
        show (w e.peer).channel.sent = (w e).channel.handed ++ p ++ payloads rest
        rw [hwire, List.append_assoc]
        rfl
      case closing => exact hclosing.2
      case last =>
        intro hopen' hmem
        exact hfrom.last hopen' (by rw [hout]; exact List.mem_cons_of_mem _ hmem)
      case parsed => exact fun hne' => (hheard.parsed hne').1
      case received => exact hheard.received
      case sound => exact hheard.failed.trans hfrom.sound

theorem Inv.deliver (h : Inv resumed w) (json : HeadReader) (id : Nat) (stop : Option Nat) (e : End)
    {p : Packet} {rest : List Packet} (hout : (w e.peer).channel.out = p :: rest) :
    Inv resumed ((w.relink e rest).update e ((w e).arrive json id stop p)) := by
  have hfrom := h.link e.peer
  have hclosing := hfrom.closing
  rw [hout] at hclosing
  have hmem : .close ∈ rest → .close ∈ (w e.peer).channel.out := by
    rw [hout]
    exact List.mem_cons_of_mem _
  have hself : w.relink e rest e = w e := if_neg e.peer_ne.symm
  -- nothing changes at an end that is closed
  by_cases hc : (w e).readyState = .closed
  · have hsame : (w e).arrive json id stop p = w e := by
      unfold Socket.arrive
      exact if_pos ((h.own e).finished hc).2
    have hrelink := h.relink e rest (fun hne => absurd hc hne) hclosing.2 hmem
    refine hrelink.update e ?_ ?_
    · rw [hsame, hself]
      exact Keeps.refl
    · rw [hsame, hself]
      exact Incoming.refl _
  · by_cases hp : ∃ payload, p = .data payload
    · obtain ⟨payload, rfl⟩ := hp
      exact h.data json id stop e hout hc
    · have hp' : ∀ payload, p ≠ .data payload := fun payload heq => hp ⟨payload, heq⟩
      have hempty : payload p = [] := by
        cases p with
        | data bytes => exact absurd rfl (hp' bytes)
        | openAck | windowAdjust | eof | close => rfl
      obtain ⟨hkeeps, hin⟩ := arrive_spec json id stop (h.own e) hp'
      have hrelink := h.relink e rest (fun _ => by rw [hout, payloads_cons, hempty]; rfl)
        hclosing.2 hmem
      refine hrelink.update e ?_ ?_
      · rw [hself]
        exact hkeeps
      · rw [hself]
        exact hin

/-- Every step keeps the invariant. -/
theorem Inv.step {json : HeadReader} {id : Nat} {w' : Wire} {event : End × Wire.Event}
    (h : Inv resumed w) (hs : w.step json id event = some w') : Inv resumed w' := by
  obtain ⟨e, event⟩ := event
  have hown := h.own e
  cases event with
  | send data binary =>
    cases hs
    exact h.update e (send_keeps data binary) (send_incoming hown data binary)
  | close =>
    cases hs
    exact h.update e callClose_keeps (callClose_incoming hown)
  | terminate =>
    cases hs
    exact h.update e close_keeps (close_incoming hown)
  | deliver stop =>
    rw [Wire.step] at hs
    split at hs
    · cases hs
    case h_2 p rest hout =>
      cases hs
      exact h.deliver json id stop e hout
  | cut n =>
    rw [Wire.step] at hs
    split at hs
    case h_1 p rest hout =>
      cases hs
      have hfrom := (h.link e.peer).closing
      rw [hout] at hfrom
      refine h.relink e _ (fun _ => ?_) ⟨nofun, nofun, hfrom.2⟩ fun hmem => ?_
      · rw [hout, payloads_cons, payloads_cons, payloads_cons, ← List.append_assoc]
        exact congrArg (· ++ payloads rest) (List.take_append_drop n p)
      · rw [hout]
        simpa using hmem
    · cases hs
  | join =>
    rw [Wire.step] at hs
    split at hs
    case h_1 p q rest hout =>
      cases hs
      have hfrom := (h.link e.peer).closing
      rw [hout] at hfrom
      refine h.relink e _ (fun _ => ?_) ⟨nofun, hfrom.2.2⟩ fun hmem => ?_
      · rw [hout, payloads_cons, payloads_cons, payloads_cons, ← List.append_assoc]
        rfl
      · rw [hout]
        simpa using hmem
    · cases hs
  | windowAdjust n =>
    cases hs
    obtain ⟨hkeeps, hin⟩ := arrive_spec json id none hown (p := .windowAdjust n) nofun
    exact h.update e hkeeps hin
  | lost =>
    cases hs
    exact h.update e lost_keeps lost_incoming

/-- The agent has sent the accept head. -/
theorem bound_agent (id openHeadBytes : Nat) (resumed : Bool) :
    ∃ ch, ch.dataAttached = true ∧
      ch.sendWindowBytes = channelWindowBytes - (acceptLine resumed).length ∧
      Wire.bound id openHeadBytes resumed .b =
      { readyState := .open_
        headBuffer := none
        channel :=
          { phase := .live ch
            out := [.data (acceptLine resumed)]
            sent := acceptLine resumed } } := by
  have hpos : 0 < (acceptLine resumed).length := by cases resumed <;> decide
  have hshort : (acceptLine resumed).length ≤ writeChunkBytes := by cases resumed <;> decide
  have hfits : (acceptLine resumed).length ≤ channelWindowBytes :=
    hshort.trans (by decide)
  have hpump := @pump_short _ (Wire.channel id openHeadBytes .b) rfl _ hpos hshort hfits []
  refine ⟨{ (Channel.new id).onData.onEof with
    sendWindowBytes := channelWindowBytes - (acceptLine resumed).length
    unacknowledgedBytes := openHeadBytes }, rfl, rfl, ?_⟩
  show Socket.pumped
    { readyState := .open_
      headBuffer := none
      queue := [acceptLine resumed]
      channel := Wire.channel id openHeadBytes .b } = _
  unfold Socket.pumped
  rw [hpump, pump]
  rfl

/-- What the sockets start with. -/
theorem Inv.bound (id openHeadBytes : Nat) (resumed : Bool) :
    Inv resumed (Wire.bound id openHeadBytes resumed) := by
  obtain ⟨ch, hdata, -, hb⟩ := bound_agent id openHeadBytes resumed
  have ha : Parsed [] (Wire.bound id openHeadBytes resumed .b) := by
    rw [hb]
    exact ⟨rfl, [], [], rfl, rfl, rfl⟩
  constructor
  case own =>
    intro e
    cases e with
    | a =>
      refine ⟨rfl, List.prefix_rfl, fun m hm => absurd hm List.not_mem_nil, fun _ => ⟨rfl, _, rfl, rfl⟩,
        nofun⟩
    | b =>
      rw [hb]
      refine ⟨?_, List.prefix_rfl, fun m hm => absurd hm List.not_mem_nil,
        fun _ => ⟨rfl, ch, rfl, hdata⟩, nofun⟩
      simp [headLine]
  case link =>
    intro e
    cases e with
    | a =>
      refine ⟨fun _ => ?_, trivial, fun _ => List.not_mem_nil, fun _ => ha, ?_, ?_⟩
      · show [] = (Wire.bound id openHeadBytes resumed .b).channel.handed ++ []
        rw [hb]
        rfl
      · show (Wire.bound id openHeadBytes resumed .b).received <+: []
        rw [hb]
      · show (Wire.bound id openHeadBytes resumed .b).failed = false
        rw [hb]
    | b =>
      rw [hb]
      refine ⟨fun _ => ?_, ⟨nofun, trivial⟩, fun _ => by simp, fun _ => ?_, List.nil_prefix, rfl⟩
      · show acceptLine resumed = [] ++ (acceptLine resumed ++ [])
        rw [List.append_nil, List.nil_append]
      · exact ⟨rfl, List.not_mem_nil, rfl, rfl, rfl, resumed, rfl⟩

/-- At the close all has been received exactly when nothing was dropped. -/
theorem Inv.complete_iff (h : Inv resumed w) {e : End} {rest : List Packet}
    (hout : (w e.peer).channel.out = .close :: rest) (hne : (w e).readyState ≠ .closed) :
    (w e).received = (w e.peer).sent ↔ (w e.peer).dropped = [] := by
  have hown := h.own e.peer
  have hlink := h.link e.peer
  rw [End.peer_peer] at hlink
  have hclosed : (w e.peer).readyState = .closed := by
    by_contra hopen
    exact hlink.last hopen (by rw [hout]; exact List.mem_cons_self)
  have hclosing := hlink.closing
  rw [hout] at hclosing
  have hwire := hlink.wire hne
  rw [hout, payloads_cons, hclosing.1 rfl, List.append_nil] at hwire
  have hbytes := hown.books
  rw [hwire, (hown.finished hclosed).1, List.flatten_nil] at hbytes
  replace hwire : (w e.peer).channel.sent = (w e).channel.handed := hwire.trans (List.append_nil _)
  replace hbytes : headLine resumed e.peer ++ encode (w e.peer).sent =
      (w e).channel.handed ++ (w e.peer).dropped := by
    rw [hbytes]
    simp [payload]
  have hparsed := hlink.parsed hne
  unfold Parsed at hparsed
  rcases Option.eq_none_or_eq_some (w e).headBuffer with hhead | ⟨kept, hhead⟩
  · simp only [hhead] at hparsed
    obtain ⟨-, body, fs, hhanded, hd, hreceived⟩ := hparsed
    rw [hhanded, List.append_assoc] at hbytes
    replace hbytes := List.append_cancel_left hbytes
    obtain ⟨left, hsplit, hleft⟩ := received_prefix hown.fits hbytes hd
    constructor
    · intro heq
      -- no message is left, so no byte is
      rw [heq] at hreceived
      rw [hreceived] at hsplit
      have hnil : left = [] := List.map_eq_nil_iff.1 (List.append_right_eq_self.1 hsplit.symm)
      rw [hnil] at hleft
      exact (List.append_eq_nil_iff.1 (messages.eq_nil_of_drain hleft)).2
    · intro hnone
      rw [hnone, List.append_nil] at hbytes
      rw [← hbytes, drain_encode_messages hown.fits] at hd
      rw [hreceived, ← (Prod.mk.inj hd).1, map_ofFrame]
  · -- the line has arrived, so the head has been read
    simp only [hhead] at hparsed
    obtain ⟨-, hkept, hhanded, -, -, resumed', hline⟩ := hparsed
    have hstarted := hown.started
    rw [hwire, hhanded, hline] at hstarted
    have hmem : newline ∈ acceptLine resumed' :=
      List.mem_append_right _ (List.mem_singleton_self _)
    exact absurd (hstarted.subset hmem) hkept

theorem Inv.atClose_ne (h : Inv resumed w) {event : End × Wire.Event} (hclose : w.AtClose event) :
    (∃ rest, (w event.1.peer).channel.out = .close :: rest) ∧
      (w event.1).readyState ≠ .closed := by
  obtain ⟨e, event⟩ := event
  cases event with
  | deliver stop =>
    obtain ⟨hout, -, hne⟩ := hclose
    have hsound := (h.link e.peer).sound
    rw [End.peer_peer] at hsound
    exact ⟨hout, hne.resolve_right (by rw [hsound]; exact Bool.false_ne_true)⟩
  | send | close | terminate | cut | join | windowAdjust | lost => exact absurd hclose id

end Inv

/-- **What is delivered.** Under any calls at the two ends, any credit and any cutting of the
streams, the messages received are the first of those sent, with their bytes and their
flags. The messages sent before a call of `close` are all received before the close is seen
exactly when nothing was queued at the call. -/
theorem delivered_iff (json : HeadReader) (id openHeadBytes : Nat) (resumed : Bool)
    (events : List (End × Wire.Event)) :
    Run.Along (Wire.step json id) Wire.InOrder (Wire.bound id openHeadBytes resumed) events ∧
      (Run.AlongSteps (Wire.step json id) Wire.Complete (Wire.bound id openHeadBytes resumed)
          events ↔
        Run.Meets (Wire.step json id) Wire.Flushed (Wire.bound id openHeadBytes resumed)
          events) := by
  have hinit := Inv.bound id openHeadBytes resumed
  constructor
  · refine Run.along_of_invariant (I := Inv resumed) (C := fun _ _ => True)
      (fun _ _ _ h _ hs => h.step hs) (fun w h e => (h.link e).received) hinit
      (Run.Meets.of_forall (fun _ _ => trivial) _ _)
  · refine Run.alongSteps_iff_meets (I := Inv resumed) (fun _ _ _ h _ hs => h.step hs)
      (fun w event w' h _ => ?_) hinit
    refine forall_congr' fun hclose => ?_
    obtain ⟨⟨rest, hout⟩, hne⟩ := h.atClose_ne hclose
    exact h.complete_iff hout hne

/-! ## What is dropped -/

/-- A piece of a long buffer. -/
theorem pump_piece {ch : Channel} {channel : Station} (hp : channel.phase = .live ch)
    {head : List UInt8} {n : Nat} (hn : n = min (min writeChunkBytes head.length) ch.sendWindowBytes)
    (hpos : 0 < n) (hlt : n < head.length) (queue : List (List UInt8)) :
    pump channel (head :: queue) = pump (channel.wrote ch (head.take n)) (head.drop n :: queue) := by
  have hlen : (head.take n).length = n := List.length_take_of_le (Nat.le_of_lt hlt)
  rw [pump]
  simp only [sendWindow_live hp, ← hn]
  rw [dif_neg (Nat.pos_iff_ne_zero.1 hpos), act_send_live hp (by omega)]
  simp only [if_neg (Nat.ne_of_lt hlt)]

/-- The pieces of a long buffer. -/
theorem pump_pieces (k : Nat) {ch : Channel} {channel : Station} (hp : channel.phase = .live ch)
    {head : List UInt8} (hwindow : writeChunkBytes * k ≤ ch.sendWindowBytes)
    (hlong : writeChunkBytes * k < head.length) :
    ∃ pieces : List (List UInt8), pieces.length = k ∧ ∃ channel', pump channel [head] =
        pump channel' [head.drop (writeChunkBytes * k)] ∧
      channel'.phase =
        .live { ch with sendWindowBytes := ch.sendWindowBytes - writeChunkBytes * k } ∧
      channel'.out = channel.out ++ pieces.map .data := by
  induction k generalizing ch channel head with
  | zero => exact ⟨[], rfl, channel, rfl, hp, (List.append_nil _).symm⟩
  | succ k ih =>
    rw [Nat.mul_succ] at hwindow hlong ⊢
    have hpiece := @pump_piece ch channel hp head writeChunkBytes
      (by rw [Nat.min_eq_left, Nat.min_eq_left] <;> omega) (by decide) (by omega) []
    have hlen : (head.take writeChunkBytes).length = writeChunkBytes :=
      List.length_take_of_le (by omega)
    have hp' : (channel.wrote ch (head.take writeChunkBytes)).phase =
        .live { ch with sendWindowBytes := ch.sendWindowBytes - writeChunkBytes } := by
      unfold wrote
      rw [hlen]
    obtain ⟨pieces, hk, channel', hrest, hphase, hout⟩ := ih hp'
      (by show _ ≤ ch.sendWindowBytes - writeChunkBytes; omega)
      (by rw [List.length_drop]; omega : _ < (head.drop writeChunkBytes).length)
    refine ⟨head.take writeChunkBytes :: pieces, congrArg (· + 1) hk, channel', ?_, ?_, ?_⟩
    · rw [hpiece, hrest, List.drop_drop, Nat.add_comm]
    · rw [hphase, Nat.add_comm, Nat.sub_add_eq]
    · rw [hout, wrote_out, List.append_assoc]
      rfl

/-- The frames before a `Close` arrive, and what was dropped is missing. -/
theorem Inv.not_complete {resumed : Bool} (json : HeadReader) (id : Nat) (chunks : List (List UInt8))
    {w : Wire} (h : Inv resumed w) {rest : List Packet}
    (hout : (w .b).channel.out = chunks.map .data ++ .close :: rest)
    (hopen : (w .a).readyState ≠ .closed) (hcalled : (w .b).closeCalled = true)
    (hdropped : (w .b).dropped ≠ []) :
    ¬ Run.AlongSteps (Wire.step json id) Wire.Complete w
      (List.replicate (chunks.length + 1) (.a, .deliver none)) := by
  induction chunks generalizing w with
  | nil =>
    intro hall
    have hstep : w.step json id (.a, .deliver none) =
        some ((w.relink .a rest).update .a ((w .a).arrive json id none .close)) := by
      unfold Wire.step
      simp only [End.peer, hout, List.map_nil, List.nil_append]
    rw [List.length_nil, Nat.zero_add, List.replicate_one, Run.AlongSteps, hstep] at hall
    exact hdropped ((h.complete_iff (e := .a) hout hopen).1 (hall.1 ⟨⟨rest, hout⟩, hcalled, .inl hopen⟩))
  | cons chunk chunks ih =>
    intro hall
    have hstep : w.step json id (.a, .deliver none) =
        some ((w.relink .a (chunks.map .data ++ .close :: rest)).update .a
          ((w .a).arrive json id none (.data chunk))) := by
      unfold Wire.step
      simp only [End.peer, hout, List.map_cons, List.cons_append]
    rw [List.length_cons, List.replicate_succ, Run.AlongSteps, hstep] at hall
    obtain ⟨hheard, -⟩ := h.heard json id none .a hout hopen
    refine ih (h.data json id none .a hout hopen) ?_ ?_ ?_ ?_ hall.2
    · rfl
    · exact hheard.goes_on rfl
    · exact hcalled
    · exact hdropped

/-- A message that the window does not hold: a part of it waits. -/
theorem send_waits {s : Socket} {ch : Channel} {payload : List UInt8} {k n : Nat}
    (hopen : s.readyState = .open_) (hqueue : s.queue = []) (hp : s.channel.phase = .live ch)
    (hwindow : ch.sendWindowBytes = 5 + writeChunkBytes * k + n) (hpos : 0 < n)
    (hn : n < writeChunkBytes) (hlong : writeChunkBytes * k + n < payload.length)
    (hcap : payload.length ≤ maxStreamMessageBytes) :
    ∃ pieces : List (List UInt8), pieces.length = k + 2 ∧ ∃ channel,
      s.send (.buffer payload) none =
        { s with
          queue := [payload.drop (writeChunkBytes * k + n)]
          sent := s.sent ++ [⟨payload, true⟩]
          channel := channel } ∧
      (∃ ch, channel.phase = .live ch) ∧ channel.out = s.channel.out ++ pieces.map .data := by
  obtain ⟨header, hheader⟩ : ∃ header, header = [1] ++ be32 payload.length := ⟨_, rfl⟩
  have hlen : header.length = 5 := by rw [hheader]; rfl
  have hshort := @pump_short ch s.channel hp header (by omega) (by rw [hlen]; decide) (by omega)
    [payload]
  have hp' : (s.channel.wrote ch header).phase =
      .live { ch with sendWindowBytes := ch.sendWindowBytes - 5 } := by
    unfold wrote
    rw [hlen]
  obtain ⟨pieces, hk, channel, hpump, hphase, hout⟩ := @pump_pieces k _ _ hp' payload
    (by show _ ≤ ch.sendWindowBytes - 5; omega) (by omega)
  have hlast := @pump_piece _ channel hphase (payload.drop (writeChunkBytes * k)) n
    (by
      show n = min _ (ch.sendWindowBytes - 5 - writeChunkBytes * k)
      rw [List.length_drop]
      omega)
    hpos (by rw [List.length_drop]; omega) []
  -- the last piece is what is left of the window
  obtain ⟨final, hfinal⟩ : ∃ final, final = channel.wrote
      { ch with sendWindowBytes := ch.sendWindowBytes - 5 - writeChunkBytes * k }
      ((payload.drop (writeChunkBytes * k)).take n) := ⟨_, rfl⟩
  have hshut : final.sendWindow = 0 := by
    rw [hfinal, sendWindow_live (wrote_phase _ _)]
    show ch.sendWindowBytes - 5 - writeChunkBytes * k - _ = 0
    rw [List.length_take_of_le (by rw [List.length_drop]; omega)]
    omega
  rw [hlast, ← hfinal, pump_shut hshut, List.drop_drop] at hpump
  have hall := hshort.trans hpump
  refine ⟨header :: pieces ++ [(payload.drop (writeChunkBytes * k)).take n], ?_,
    final, ?_, ?_, ?_⟩
  · simp [hk]
  · have hbuffers : (SocketData.message (.buffer payload) none).buffers = [header, payload] := by
      unfold Message.buffers
      rw [hheader]
      exact congrArg (_ :: ·) (if_neg (by omega : ¬ payload.length = 0))
    have hpumped : Socket.pumped { s with
        queue := s.queue ++ (SocketData.message (.buffer payload) none).buffers
        sent := s.sent ++ [SocketData.message (.buffer payload) none] } = { s with
        queue := [payload.drop (writeChunkBytes * k + n)]
        sent := s.sent ++ [⟨payload, true⟩]
        channel := final } := by
      unfold Socket.pumped
      simp only [hqueue, List.nil_append, hbuffers, hall]
      rfl
    unfold Socket.send
    rw [if_neg (fun h => h hopen), if_neg (by exact Nat.not_lt.2 hcap)]
    simp only [hpumped]
    rw [if_neg]
    unfold Socket.queuedBytes
    rw [List.flatten_cons, List.flatten_nil, List.append_nil, List.length_drop]
    have hbuffered : maxStreamMessageBytes ≤ maxBufferedBytes := by decide
    omega
  · rw [hfinal]
    exact ⟨_, wrote_phase _ _⟩
  · rw [hfinal, wrote_out, hout, wrote_out]
    simp

/-- What a call of `close` leaves. -/
theorem callClose_eq {s : Socket} {ch : Channel} (hopen : s.readyState ≠ .closed)
    (hp : s.channel.phase = .live ch) :
    s.callClose = { s with
      readyState := .closed
      queue := []
      dropped := s.queue.flatten
      closeCalled := true
      channel := { s.channel with phase := .gone, out := s.channel.out ++ [.close] } } := by
  unfold Socket.callClose Socket.close Socket.finish
  rw [if_neg hopen, if_neg hopen, if_neg hopen, close_live hp]

/-- The agent sends 300000 bytes and calls `close`: 37876 of them are dropped. -/
theorem close_drops_queue : ¬ Run.AlongSteps (Wire.step default 1) Wire.Complete
    (Wire.bound 1 40 false)
    ([(.b, .send (.buffer (List.replicate 300000 0)) none), (.b, .close)] ++
      List.replicate 11 (.a, .deliver none)) := by
  obtain ⟨payload, hpayload⟩ : ∃ p : List UInt8, p = List.replicate 300000 0 := ⟨_, rfl⟩
  have hlen : payload.length = 300000 := by rw [hpayload, List.length_replicate]
  rw [← hpayload]
  obtain ⟨ch, -, hwindow, hb⟩ := bound_agent 1 40 false
  obtain ⟨pieces, hk, channel, hsend, ⟨ch', hp'⟩, hout⟩ :=
    @send_waits (Wire.bound 1 40 false .b) ch payload 7 32748 (by rw [hb]) (by rw [hb]) (by rw [hb])
      (by rw [hwindow]; decide) (by decide) (by decide) (by rw [hlen]; decide)
      (by rw [hlen]; decide)
  rw [hb] at hsend hout
  -- the state after the two calls
  obtain ⟨s, hs⟩ : ∃ s, s = (Wire.bound 1 40 false .b).send (.buffer payload) none := ⟨_, rfl⟩
  have hinv := (Inv.bound 1 40 false).update .b (send_keeps (.buffer payload) none)
    (send_incoming ((Inv.bound 1 40 false).own .b) (.buffer payload) none)
  rw [← hs] at hinv
  have hinv' := hinv.update .b callClose_keeps (callClose_incoming (hinv.own .b))
  rw [update_self] at hinv'
  have hclose := callClose_eq (s := s) (by rw [hs, hb, hsend]; nofun)
    (by rw [hs, hb, hsend]; exact hp')
  have hout' : s.callClose.channel.out =
      (acceptLine false :: pieces).map .data ++ .close :: [] := by
    rw [hclose]
    show s.channel.out ++ _ = _
    rw [hs, hb, hsend]
    show channel.out ++ _ = _
    rw [hout]
    rfl
  have hdropped : s.callClose.dropped ≠ [] := by
    rw [hclose]
    show s.queue.flatten ≠ []
    rw [hs, hb, hsend]
    intro hnil
    have hzero := congrArg List.length hnil
    rw [List.flatten_cons, List.flatten_nil, List.append_nil, List.length_drop, hlen] at hzero
    exact absurd hzero (by decide)
  intro hall
  have hcalled : s.callClose.closeCalled = true := by rw [hclose]
  refine hinv'.not_complete default 1 (acceptLine false :: pieces) hout' nofun hcalled hdropped ?_
  have hlast := hall.2.2
  rw [update_self] at hlast
  rw [List.length_cons, hk, hs]
  exact hlast

end Stream
end Mullion
