import Mullion.Lib.Run
import Mullion.Stream.Received
import Mullion.Stream.Replies

/-!
# A tunnelled request

`exchange` at the primary and `serveChannel` at the agent, over the two directions of one channel.
However the two sides interleave, and wherever the channel breaks, the route should be called at
most once, with the head and the body that were meant, and never for an exchange that failed
before-send; and a response that is returned in full should be the whole response of the route.
`Sound` is that.

`Sys` has the two sides and how much each has heard of what the other has sent. `Inv` keeps the
books of each. Upwards, what the primary has written is a part of the request from its beginning,
the agent has read what it has heard of it, and calls its route only when the request is complete.
Downwards, the primary has read the part of the agent's frames that it has heard, and resolves only
with a reply that was ended. One step of one side leaves the books of the other as they were, so
`Inv.step` is a case for each event, and `tunnel_sound` follows along every run.
-/

namespace Mullion
namespace Tunnel

open Mullion.Stream Serve Exchange Replay

/-- The two sides of a channel. What is in flight to a side is what the other has sent behind what
it has heard. -/
structure Sys where
  primary : State
  agent : Agent
  /-- of the frames of the primary, this many have reached the agent -/
  heardUp : ℕ
  /-- of the frames of the agent, this many have reached the primary -/
  heardDown : ℕ

inductive Event
  /-- the primary, but for what it hears -/
  | primary (e : Exchange.Event)
  /-- the agent, but for what it hears -/
  | agent (e : Replay.Event)
  /-- the next frame reaches the agent -/
  | up
  /-- the next frame reaches the primary -/
  | down (torn : Bool)

def start (req : Request) : Sys := ⟨.start req, .start, 0, 0⟩

variable (req : Request) (readHead : List UInt8 → Option ResponseHead) (env : Env)

/-- What a frame is to the primary. -/
def arrives (torn : Bool) : Frame → Exchange.Event
  | .data chunk => .data chunk torn
  | .eof => .eof

def step (y : Sys) : Event → Option Sys
  | .primary e =>
    if e.own then
      (Exchange.step req readHead y.primary e).map fun primary => { y with primary }
    else none
  | .agent e => (y.agent.step env e).map fun agent => { y with agent }
  | .up =>
    if y.agent.channel.closed then none
    else match y.primary.frames[y.heardUp]? with
      | some frame => some { y with agent := y.agent.hear env frame, heardUp := y.heardUp + 1 }
      | none => none
  | .down torn =>
    match y.agent.frames[y.heardDown]? with
    | some frame =>
      (Exchange.step req readHead y.primary (arrives torn frame)).map fun primary =>
        { y with primary, heardDown := y.heardDown + 1 }
    | none => none

/-- What a tunnelled request promises. -/
structure Sound (y : Sys) : Prop where
  once : y.agent.injections.length ≤ 1
  meant : ∀ injection ∈ y.agent.injections, ∃ body, y.primary.wholeBody req = some body ∧
    replay env (some req.headLine.bytes) body = .ok injection
  beforeSend : ∀ reason tooLarge,
    y.primary.point = .done (.error (.transport reason .beforeSend tooLarge)) →
      y.agent.injections = []
  whole : ∀ line body headLine, y.primary.point = .done (.ok (.whole line body)) →
    y.agent.replayed = some headLine →
      line = headLine.bytes ∧ body = y.agent.produced ∧ y.agent.complete = true

/-! ## The invariant -/

/-- What has reached the agent: data alone, and nothing was called; or all of the request. -/
def Up (y : Sys) : Prop :=
  (∃ chunks : List (List UInt8), y.primary.frames.take y.heardUp = chunks.map .data ∧
    (y.agent.channel.closed = false →
      y.agent.channel = chunks.foldl (Channel.data env.reader env.handlers) (.waiting [])) ∧
    y.agent.injections = []) ∨
  ∃ body, Complete y.primary.frames (req.line ++ body) ∧ y.heardUp = y.primary.frames.length ∧
    y.agent.injections.length ≤ 1 ∧
    ∀ injection ∈ y.agent.injections,
      replay env (some req.headLine.bytes) body = .ok injection

/-- Nobody has listened at the primary, and nothing was sent. -/
structure Fresh (y : Sys) : Prop where
  frames : y.primary.frames = []
  heard : y.heardDown = 0
  parser : y.primary.parser = .initial
  pendingData : y.primary.pendingData = []
  pendingEof : y.primary.pendingEof = false
  out : y.primary.out = false
  reply : y.primary.reply = .pending

structure Inv (y : Sys) : Prop where
  sent : Sent req y.primary
  replies : Replies y.agent
  up : Up req env y
  heardUp : y.heardUp ≤ y.primary.frames.length
  heardDown : y.heardDown ≤ y.agent.frames.length
  /-- the agent waits for a first frame -/
  reading : y.heardUp = 0 → y.agent.point = .reading
  running : y.primary.point.running = true → y.primary.listening = true
  early : y.primary.point.early = true → y.primary.listening = false
  fresh : y.primary.listening = false → Fresh y
  reads : y.primary.listening = true → y.primary.reply = .pending →
    ∃ bytes, Unfinished (y.agent.frames.take y.heardDown) bytes ∧ Reads y.primary bytes
  whole : ∀ line body, y.primary.reply = .resolved (.whole line body) →
    newline ∉ line ∧ Complete y.agent.frames (line ++ newline :: body)

variable {req readHead env} {y : Sys}

/-! ## The primary -/

theorem Point.writes_running {point : Exchange.Point} (h : point.writes = true) :
    point.running = true := by
  cases point with
  | sending rest part => rfl
  | nextPiece piece => rfl
  | _ => cases h

/-- Behind its EOF the primary sends nothing. -/
theorem complete_idle {s : State} (h : Sent req s) {bytes : List UInt8}
    (hcomplete : Complete s.frames bytes) : s.point.writes = false := by
  have hprogress := h.progress
  refine Bool.eq_false_of_not_eq_true fun hwrites => ?_
  cases hpoint : s.point with
  | sending rest part =>
    rw [hpoint] at hprogress
    obtain ⟨sent, hsent, -⟩ := hprogress
    exact hsent.eof_notMem hcomplete.eof_mem
  | nextPiece piece =>
    rw [hpoint] at hprogress
    obtain ⟨sent, hsent, -⟩ := hprogress
    exact hsent.eof_notMem hcomplete.eof_mem
  | _ =>
    rw [hpoint] at hwrites
    cases hwrites

/-- An EOF of the primary ends the whole request. -/
theorem complete_of_eof {s : State} (h : Sent req s) (heof : Frame.eof ∈ s.frames) :
    ∃ body, Complete s.frames (req.line ++ body) ∧ s.wholeBody req = some body := by
  have hprogress := h.progress
  have hnone : ∀ sent, ¬ Unfinished s.frames sent := fun sent hsent => hsent.eof_notMem heof
  unfold Progress at hprogress
  split at hprogress
  · rw [hprogress.1] at heof
    cases heof
  · rw [hprogress.1] at heof
    cases heof
  · obtain ⟨sent, hsent, -⟩ := hprogress
    exact absurd hsent (hnone sent)
  · obtain ⟨sent, hsent, -⟩ := hprogress
    exact absurd hsent (hnone sent)
  · obtain ⟨sent, hsent, -⟩ := hprogress
    exact absurd hsent (hnone sent)
  · rcases hprogress with ⟨sent, hsent⟩ | hcomplete
    · exact absurd hsent (hnone sent)
    · exact hcomplete
  · rcases hprogress with ⟨sent, hsent⟩ | hcomplete
    · exact absurd hsent (hnone sent)
    · exact hcomplete

/-- More frames leave what was heard alone. -/
theorem Up.grow (h : Up req env y) (hle : y.heardUp ≤ y.primary.frames.length) {t : State}
    (hframes : ∃ more, t.frames = y.primary.frames ++ more)
    (hidle : ∀ bytes, Complete y.primary.frames bytes → t.frames = y.primary.frames) :
    Up req env { y with primary := t } := by
  rcases h with ⟨chunks, htake, hchannel, hnone⟩ | ⟨body, hcomplete, hall, honce, hmeant⟩
  · obtain ⟨more, hmore⟩ := hframes
    refine .inl ⟨chunks, ?_, hchannel, hnone⟩
    rw [hmore, List.take_append_of_le_length hle]
    exact htake
  · have hsame := hidle _ hcomplete
    refine .inr ⟨body, ?_, ?_, honce, hmeant⟩
    · rw [hsame]
      exact hcomplete
    · rw [hsame]
      exact hall

/-- The primary does something of itself. -/
theorem Inv.own (h : Inv req env y) {t : State} (hsent : Sent req t) (ht : Own y.primary t) :
    Inv req env { y with primary := t } where
  sent := hsent
  replies := h.replies
  up := h.up.grow h.heardUp ht.frames fun _ hcomplete => ht.idle (complete_idle h.sent hcomplete)
  heardUp := by
    obtain ⟨more, hmore⟩ := ht.frames
    rw [hmore, List.length_append]
    exact Nat.le_add_right_of_le h.heardUp
  heardDown := h.heardDown
  reading := h.reading
  running hrun := ht.deaf.listening.trans (h.running (ht.running hrun))
  early hearly := ht.deaf.listening.trans (h.early (ht.early hearly))
  fresh hlisten := by
    have hs := ht.deaf.listening.symm.trans hlisten
    obtain ⟨hframes, hheard, hparser, hdata, heof, hout, hreply⟩ := h.fresh hs
    have hidle : y.primary.point.writes = false :=
      Bool.eq_false_of_not_eq_true fun hwrites => by
        rw [h.running (Point.writes_running hwrites)] at hs
        cases hs
    refine ⟨(ht.idle hidle).trans hframes, hheard, ht.deaf.parser.trans hparser, ?_,
      ht.deaf.pendingEof.trans heof, ht.deaf.out.trans hout, ?_⟩
    · rcases ht.deaf.pendingData with heq | heq
      · exact heq.trans hdata
      · exact heq
    · rcases ht.deaf.reply with heq | ⟨htrue, -⟩
      · exact heq.trans hreply
      · rw [hs] at htrue
        cases htrue
  reads hlisten hpending := by
    have hs : y.primary.reply = .pending := by
      rcases ht.deaf.reply with heq | ⟨-, hs, -⟩
      · exact heq.symm.trans hpending
      · exact hs
    obtain ⟨bytes, hbytes, hreads⟩ := h.reads (ht.deaf.listening.symm.trans hlisten) hs
    refine ⟨bytes, hbytes, fun _ => ?_⟩
    obtain ⟨hout, hparsed⟩ := hreads hs
    refine ⟨ht.deaf.out.trans hout, ?_⟩
    rw [show State.parser _ = t.parser from rfl, ht.deaf.parser]
    exact hparsed
  whole line body hreply := by
    rcases ht.deaf.reply with heq | ⟨-, -, failure, hrejected⟩
    · exact h.whole line body (heq.symm.trans hreply)
    · rw [show t.reply = .resolved (.whole line body) from hreply] at hrejected
      cases hrejected

/-- Nothing has arrived before the listeners are attached. -/
theorem attach_fresh {s : State} (hdata : s.pendingData = []) (heof : s.pendingEof = false)
    (torn : Bool) : attach req readHead s torn = { s with listening := true } := by
  unfold attach hearPending
  simp only [hdata, List.foldl_nil, ne_eq, not_true_eq_false, and_false, if_false, heof,
    Bool.false_eq_true]

/-- The primary attaches its listeners. -/
theorem Inv.attach (h : Inv req env y) {t : State} (hsent : Sent req t)
    (ht : Attaches req readHead y.primary t) : Inv req env { y with primary := t } := by
  obtain ⟨hpoint, torn, heq⟩ := ht
  have hdeaf : y.primary.listening = false := h.early (by rw [hpoint]; rfl)
  obtain ⟨hframes, hheard, hparser, hdata, heof, hout, hreply⟩ := h.fresh hdeaf
  rw [attach_fresh hdata heof] at heq
  subst heq
  exact {
    sent := hsent
    replies := h.replies
    up := h.up.grow h.heardUp ⟨[], (List.append_nil _).symm⟩ fun _ _ => rfl
    heardUp := h.heardUp
    heardDown := h.heardDown
    reading := h.reading
    running := fun _ => rfl
    early := Bool.noConfusion
    fresh := Bool.noConfusion
    reads := fun _ _ => by
      refine ⟨[], ?_, fun _ => ⟨hout, ?_⟩⟩
      · rw [show Sys.heardDown _ = y.heardDown from rfl, hheard]
        exact unfinished_nil
      · rw [show State.parser _ = y.primary.parser from rfl, hparser]
        exact parsed_initial
    whole := fun line body hwhole => by
      rw [show y.primary.reply = .resolved (.whole line body) from hwhole] at hreply
      cases hreply }

/-! ## The agent -/

/-- Behind its EOF the agent is finished. -/
theorem complete_finished {a : Agent} (h : Replies a) {bytes : List UInt8}
    (hcomplete : Complete a.frames bytes) : a.point = .finished := by
  by_contra hpoint
  obtain ⟨sent, hsent⟩ := unfinished_of_stage h.stage hpoint
  exact hsent.eof_notMem hcomplete.eof_mem

theorem complete_of_eof_mem {a : Agent} (h : Replies a) (heof : Frame.eof ∈ a.frames) :
    ∃ bytes, Complete a.frames bytes := by
  by_cases hpoint : a.point = .finished
  · have hstage := h.stage
    rw [hpoint] at hstage
    rcases hstage with ⟨sent, hsent⟩ | ⟨bytes, hcomplete, -⟩
    · exact absurd heof hsent.eof_notMem
    · exact ⟨bytes, hcomplete⟩
  · obtain ⟨sent, hsent⟩ := unfinished_of_stage h.stage hpoint
    exact absurd heof hsent.eof_notMem

/-- The agent does something of itself. -/
theorem Inv.works (h : Inv req env y) {b : Agent} (hb : Keeps y.agent b) :
    Inv req env { y with agent := b } where
  sent := h.sent
  replies := hb.replies
  up := by
    rcases h.up with ⟨chunks, htake, hchannel, hnone⟩ | ⟨body, hcomplete, hall, honce, hmeant⟩
    · refine .inl ⟨chunks, htake, fun hopen => ?_, hb.works.injections.trans hnone⟩
      rcases hb.works.channel with heq | heq
      · rw [show Agent.channel _ = b.channel from rfl, heq] at hopen ⊢
        exact hchannel hopen
      · rw [show Agent.channel _ = b.channel from rfl, heq] at hopen
        cases hopen
    · refine .inr ⟨body, hcomplete, hall, ?_, ?_⟩
      · rw [show Agent.injections _ = b.injections from rfl, hb.works.injections]
        exact honce
      · rw [show Agent.injections _ = b.injections from rfl, hb.works.injections]
        exact hmeant
  heardUp := h.heardUp
  heardDown := by
    obtain ⟨more, hmore⟩ := hb.works.frames
    rw [hmore, List.length_append]
    exact Nat.le_add_right_of_le h.heardDown
  reading hheard := hb.works.reading (h.reading hheard)
  running := h.running
  early := h.early
  fresh hlisten :=
    have hfresh := h.fresh hlisten
    ⟨hfresh.frames, hfresh.heard, hfresh.parser, hfresh.pendingData, hfresh.pendingEof, hfresh.out,
      hfresh.reply⟩
  reads hlisten hpending := by
    obtain ⟨bytes, hbytes, hreads⟩ := h.reads hlisten hpending
    obtain ⟨more, hmore⟩ := hb.works.frames
    refine ⟨bytes, ?_, hreads⟩
    rw [hmore, List.take_append_of_le_length h.heardDown]
    exact hbytes
  whole line body hreply := by
    obtain ⟨hline, hcomplete⟩ := h.whole line body hreply
    refine ⟨hline, ?_⟩
    rw [(hb.works.finished (complete_finished h.replies hcomplete)).1]
    exact hcomplete

/-- A frame reaches the agent. -/
theorem Inv.hear (h : Inv req env y) (hopen : y.agent.channel.closed = false) {frame : Frame}
    (hframe : y.primary.frames[y.heardUp]? = some frame) :
    Inv req env { y with agent := y.agent.hear env frame, heardUp := y.heardUp + 1 } := by
  obtain ⟨hreplies, hears⟩ := @Replies.hear env y.agent h.replies frame
  have hlt : y.heardUp < y.primary.frames.length := (List.getElem?_eq_some_iff.1 hframe).1
  have htake : y.primary.frames.take (y.heardUp + 1) =
      y.primary.frames.take y.heardUp ++ [frame] := by
    rw [List.take_add_one, hframe]
    rfl
  exact {
    sent := h.sent
    replies := hreplies
    up := by
      rcases h.up with ⟨chunks, hchunks, hchannel, hnone⟩ | ⟨-, -, hall, -, -⟩
      · have hheard := hchannel hopen
        cases frame with
        | data chunk =>
          refine .inl ⟨chunks ++ [chunk], ?_, fun hopen' => ?_, ?_⟩
          · rw [htake, hchunks, List.map_append]
            rfl
          · rw [hears.channel hopen', hheard, List.foldl_concat]
            rfl
          · rcases hears.injections with heq | ⟨headLine, body, injection, hanswer, -, -⟩
            · exact heq.trans hnone
            · have hrefused := (@hearing_foldl env.reader env.handlers (chunks ++ [chunk])).refused
              rw [List.foldl_concat, ← hheard] at hrefused
              rcases hrefused with hnone | hsome
              · rw [show answer (heard env y.agent.channel (.data chunk)) = none from hnone]
                  at hanswer
                cases hanswer
              · rw [show answer (heard env y.agent.channel (.data chunk)) = _ from hsome]
                  at hanswer
                cases hanswer
        | eof =>
          obtain ⟨body, hcomplete, -⟩ := complete_of_eof h.sent (List.mem_of_getElem? hframe)
          obtain ⟨hbefore, hlast⟩ := hcomplete.at_eof hframe
          have hflat : chunks.flatten = req.headLine.bytes ++ newline :: body := by
            have hbytes := Unfinished.unique ⟨chunks, hchunks, rfl⟩ hbefore
            rw [hbytes, Request.line, List.append_assoc]
            rfl
          have hsmall : ∀ chunk ∈ chunks, chunk.length ≤ Mux.channelWindowBytes := by
            intro chunk hmem
            refine h.sent.small chunk (List.mem_of_mem_take (i := y.heardUp) ?_)
            rw [hchunks]
            exact List.mem_map_of_mem hmem
          refine .inr ⟨body, hcomplete, hlast, ?_⟩
          rcases hears.injections with heq | ⟨headLine, payload, injection, hanswer, hreplay, heq⟩
          · rw [show Agent.injections _ = _ from heq, hnone]
            exact ⟨Nat.zero_le _, fun injection hmem => by cases hmem⟩
          · rw [show Agent.injections _ = _ from heq, hnone]
            rw [hheard] at hanswer hopen
            obtain ⟨rfl, rfl⟩ :=
              answer_eof req.headLine.unbroken hsmall hflat hopen hanswer
            refine ⟨Nat.le_refl _, fun injection' hmem => ?_⟩
            rw [List.mem_singleton.1 hmem]
            exact hreplay
      · rw [hall] at hlt
        exact absurd hlt (Nat.lt_irrefl _)
    heardUp := hlt
    heardDown := by
      rw [show Agent.frames _ = y.agent.frames from hears.frames]
      exact h.heardDown
    reading := fun hzero => absurd hzero (Nat.succ_ne_zero _)
    running := h.running
    early := h.early
    fresh := fun hlisten =>
      have hfresh := h.fresh hlisten
      ⟨hfresh.frames, hfresh.heard, hfresh.parser, hfresh.pendingData, hfresh.pendingEof,
        hfresh.out, hfresh.reply⟩
    reads := fun hlisten hpending => by
      rw [show Agent.frames _ = y.agent.frames from hears.frames]
      exact h.reads hlisten hpending
    whole := fun line body hreply => by
      rw [show Agent.frames _ = y.agent.frames from hears.frames]
      exact h.whole line body hreply }

/-! ## A frame reaches the primary -/

/-- Before somebody listens at the primary, no frame is on its way. -/
theorem Inv.silent (h : Inv req env y) (hlisten : y.primary.listening = false) :
    y.agent.frames = [] := by
  have hzero : y.heardUp = 0 := by
    have hle := h.heardUp
    rw [(h.fresh hlisten).frames] at hle
    exact Nat.le_zero.1 hle
  have hstage := h.replies.stage
  rw [h.reading hzero] at hstage
  exact hstage.1

/-- A listener of the primary hears the next frame of the agent. -/
theorem Inv.arrive (h : Inv req env y) {t : State} (hsent : Sent req t)
    (hsilent : Silent y.primary t) (hlisten : t.listening = true)
    (hlisten' : y.primary.listening = true) (hlt : y.heardDown < y.agent.frames.length)
    (hreads : t.reply = .pending → ∃ bytes,
      Unfinished (y.agent.frames.take (y.heardDown + 1)) bytes ∧ Reads t bytes)
    (hwhole : ∀ line body, t.reply = .resolved (.whole line body) →
      newline ∉ line ∧ Complete y.agent.frames (line ++ newline :: body)) :
    Inv req env { y with primary := t, heardDown := y.heardDown + 1 } where
  sent := hsent
  replies := h.replies
  up := h.up.grow h.heardUp ⟨[], by rw [hsilent.sent.1, List.append_nil]⟩ fun _ _ => hsilent.sent.1
  heardUp := by
    rw [show State.frames _ = y.primary.frames from hsilent.sent.1]
    exact h.heardUp
  heardDown := hlt
  reading := h.reading
  running _ := hlisten
  early hearly := by
    have hs := h.early (hsilent.early.symm.trans hearly)
    rw [hlisten'] at hs
    cases hs
  fresh hdeaf := by
    rw [show t.listening = false from hdeaf] at hlisten
    cases hlisten
  reads _ := hreads
  whole := hwhole

/-- A chunk reaches the primary. -/
theorem Inv.data (h : Inv req env y) {chunk : List UInt8} {torn : Bool} {t : State}
    (hframe : y.agent.frames[y.heardDown]? = some (.data chunk))
    (ht : Exchange.step req readHead y.primary (.data chunk torn) = some t) :
    Inv req env { y with primary := t, heardDown := y.heardDown + 1 } := by
  have hlt : y.heardDown < y.agent.frames.length := (List.getElem?_eq_some_iff.1 hframe).1
  have hsent := h.sent.step ht
  have hlisten : y.primary.listening = true := by
    refine Bool.eq_true_of_not_eq_false fun hdeaf => ?_
    rw [h.silent hdeaf] at hlt
    exact absurd hlt (Nat.not_lt_zero _)
  simp only [Exchange.step, hlisten, if_true] at ht
  split at ht
  · rename_i hopen
    cases ht
    have hears := @hears_onData req readHead (fun response => ∃ headLine, response =
      .stream headLine) (fun headLine => ⟨headLine, rfl⟩) y.primary chunk torn
    refine h.arrive hsent hears.silent (hears.listening.trans hlisten) hlisten hlt
      (fun hpending => ?_) fun line body hreply => ?_
    · obtain ⟨bytes, hbytes, hreads⟩ := h.reads hlisten (hears.pending hpending)
      refine ⟨bytes ++ chunk, ?_,
        onData_reads hreads hlisten (Bool.eq_false_of_not_eq_true hopen.2) chunk torn⟩
      rw [List.take_add_one, hframe]
      exact hbytes.data chunk
    · rcases hears.settled with heq | ⟨-, hgiven⟩
      · exact h.whole line body (heq.symm.trans hreply)
      · rw [hreply] at hgiven
        obtain ⟨headLine, heq⟩ := hgiven
        cases heq
  · cases ht

/-- The EOF reaches the primary. -/
theorem Inv.eof (h : Inv req env y) {t : State}
    (hframe : y.agent.frames[y.heardDown]? = some .eof)
    (ht : Exchange.step req readHead y.primary .eof = some t) :
    Inv req env { y with primary := t, heardDown := y.heardDown + 1 } := by
  have hlt : y.heardDown < y.agent.frames.length := (List.getElem?_eq_some_iff.1 hframe).1
  have hsent := h.sent.step ht
  have hlisten : y.primary.listening = true := by
    refine Bool.eq_true_of_not_eq_false fun hdeaf => ?_
    rw [h.silent hdeaf] at hlt
    exact absurd hlt (Nat.not_lt_zero _)
  obtain ⟨bytes, hcomplete⟩ := complete_of_eof_mem h.replies (List.mem_of_getElem? hframe)
  obtain ⟨hbefore, -⟩ := hcomplete.at_eof hframe
  have hreads : y.primary.reply = .pending → Reads y.primary bytes := fun hpending => by
    obtain ⟨bytes', hbytes', hreads⟩ := h.reads hlisten hpending
    rw [hbefore.unique hbytes']
    exact hreads
  simp only [Exchange.step, hlisten, if_true] at ht
  split at ht
  · cases ht
    have hears := @hears_onEof readHead Any y.primary fun _ _ _ _ => trivial
    refine h.arrive hsent hears.silent (hears.listening.trans hlisten) hlisten hlt
      (fun hpending => ?_) fun line body hreply => ?_
    · have hnone := hears.pending hpending
      exact absurd (onEof_reads (hreads hnone) hpending) fun _ =>
        onEof_ne_pending y.primary (fun hout => by
          rw [(hreads hnone hnone).1] at hout
          cases hout) hpending
    · by_cases hpending : y.primary.reply = .pending
      · rcases onEof_whole (hreads hpending) hreply with hs | ⟨hline, heq⟩
        · exact h.whole line body hs
        · rw [heq] at hcomplete
          exact ⟨hline, hcomplete⟩
      · rcases hears.settled with heq | ⟨hs, -⟩
        · exact h.whole line body (heq.symm.trans hreply)
        · exact absurd hs hpending
  · cases ht

/-! ## Runs -/

/-- **The step lemma.** Every event keeps the books of both sides and of the channel. -/
theorem Inv.step (h : Inv req env y) {e : Event} {z : Sys}
    (hz : step req readHead env y e = some z) : Inv req env z := by
  cases e with
  | primary e =>
    simp only [Tunnel.step] at hz
    split at hz
    · rename_i hown
      obtain ⟨t, ht, rfl⟩ := Option.map_eq_some_iff.1 hz
      rcases own_step hown ht with hstep | hattach
      · exact h.own (h.sent.step ht) hstep
      · exact h.attach (h.sent.step ht) hattach
    · cases hz
  | agent e =>
    obtain ⟨b, hb, rfl⟩ := Option.map_eq_some_iff.1 hz
    exact h.works (h.replies.step hb)
  | up =>
    simp only [Tunnel.step] at hz
    split at hz
    · cases hz
    · rename_i hopen
      split at hz
      · rename_i frame hframe
        cases hz
        exact h.hear (Bool.eq_false_of_not_eq_true hopen) hframe
      · cases hz
  | down torn =>
    simp only [Tunnel.step] at hz
    split at hz
    · rename_i frame hframe
      obtain ⟨t, ht, rfl⟩ := Option.map_eq_some_iff.1 hz
      cases frame with
      | data chunk => exact h.data hframe ht
      | eof => exact h.eof hframe ht
    · cases hz

theorem inv_start (req : Request) (env : Env) : Inv req env (start req) where
  sent := sent_start req
  replies := ⟨⟨rfl, rfl, rfl⟩, fun hpoint => absurd rfl hpoint, Replay.Point.noConfusion⟩
  up := .inl ⟨[], rfl, fun _ => rfl, rfl⟩
  heardUp := Nat.zero_le _
  heardDown := Nat.zero_le _
  reading _ := rfl
  running hrun := by
    have hstart : (State.start req).point.running = true := hrun
    rcases start_point req with hpoint | ⟨result, hpoint⟩ <;> rw [hpoint] at hstart <;>
      cases hstart
  early _ := rfl
  fresh _ := ⟨rfl, rfl, rfl, rfl, rfl, rfl, rfl⟩
  reads hlisten := by cases hlisten
  whole _ _ hreply := by cases hreply

/-- The books say what a tunnelled request promises. -/
theorem Inv.sound (h : Inv req env y) : Sound req env y where
  once := by
    rcases h.up with ⟨-, -, -, hnone⟩ | ⟨-, -, -, honce, -⟩
    · rw [hnone]
      exact Nat.zero_le _
    · exact honce
  meant injection hmem := by
    rcases h.up with ⟨-, -, -, hnone⟩ | ⟨body, hcomplete, -, -, hmeant⟩
    · rw [hnone] at hmem
      cases hmem
    · obtain ⟨body', hcomplete', hwhole⟩ := complete_of_eof h.sent hcomplete.eof_mem
      have hbody := List.append_cancel_left (hcomplete.unique hcomplete')
      rw [← hbody] at hwhole
      exact ⟨body, hwhole, hmeant injection hmem⟩
  beforeSend reason tooLarge hpoint := by
    rcases h.up with ⟨-, -, -, hnone⟩ | ⟨body, hcomplete, -⟩
    · exact hnone
    · obtain ⟨sent, hsent⟩ := h.sent.beforeSend reason tooLarge hpoint
      exact absurd hcomplete.eof_mem hsent.eof_notMem
  whole line body headLine hpoint hreplayed := by
    obtain ⟨hline, hcomplete⟩ := h.whole line body (h.sent.resolved _ hpoint)
    have hstage := h.replies.stage
    rw [complete_finished h.replies hcomplete] at hstage
    rcases hstage with ⟨sent, hsent⟩ | ⟨bytes, hcomplete', hall⟩
    · exact absurd hcomplete.eof_mem hsent.eof_notMem
    · obtain ⟨heq, hdone⟩ := hall headLine hreplayed
      have hbytes := hcomplete.unique hcomplete'
      rw [heq, Agent.response] at hbytes
      obtain ⟨hlines, hbodies⟩ := line_unique hline headLine.unbroken hbytes
      exact ⟨hlines, hbodies, hdone⟩

/-- **A tunnelled request is sound.** In every state of every run. -/
theorem tunnel_sound (req : Request) (readHead : List UInt8 → Option ResponseHead) (env : Env)
    (es : List Event) : Run.Along (step req readHead env) (Sound req env) (start req) es :=
  Run.along_of_invariant (fun _ _ _ hinv _ hz => hinv.step hz) (fun _ hinv => hinv.sound)
    (inv_start req env) (Run.Meets.of_forall (fun _ _ => trivial) _ _)

end Tunnel
end Mullion
