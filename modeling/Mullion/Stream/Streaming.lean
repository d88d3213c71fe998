import Mullion.Stream.Refusal
import Mullion.Stream.Tunnel

/-!
# A streamed response

`channelFetchStream` hands the response over as a `Readable` as soon as its head is there, and the
listeners of `exchange` push the body into it.  What may the consumer of that stream conclude, when
the body is cut anywhere and the channel can go at any moment?  `streamed_sound` answers for every
run: what it has read is the beginning of one response, the route's or one of the agent's own, an
end means the whole of it, and a response that is cut off is destroyed and never ends.

Two books carry this.  At the agent, `Prefixed` and `Owns` say that the bytes sent are a beginning
of the response in question.  At the primary, `Flow` says that the stream holds what has been heard
behind the head line, as long as nothing was lost.  Both are kept by every event, and since neither
a head line nor the bytes before it depend on how the frames were cut, the two meet at the first
line break.
-/

namespace Mullion
namespace Streaming

open Mullion.Stream Serve Exchange State Replay Tunnel

/-! ## The stream -/

/-- The `Readable` of a streamed response. -/
structure Readable where
  /-- what was pushed -/
  pushed : List UInt8
  /-- `push(null)` -/
  ended : Bool
  destroyed : Bool
  deriving DecidableEq, Repr

namespace Readable

def start : Readable := ⟨[], false, false⟩

/-- `push`, which a stream that is over ignores. -/
def push (r : Readable) (chunk : List UInt8) : Readable :=
  if r.destroyed || r.ended then r else { r with pushed := r.pushed ++ chunk }

/-- `push(null)`. -/
def finish (r : Readable) : Readable :=
  if r.destroyed then r else { r with ended := true }

/-- The listener of `onClose`. -/
def watch (r : Readable) (s : State) : Readable :=
  if s.out && s.closed && !r.ended then { r with destroyed := true } else r

end Readable

variable (req : Request) (readHead : List UInt8 → Option ResponseHead) (env : Env)

/-- What the listeners of `exchange` make of the stream when a frame comes; `t` is the state behind
the frame. -/
def hear (s t : State) (r : Readable) : Frame → Readable
  | .data chunk =>
    if s.out then
      -- `destroy` is what the close of the channel leads to
      if req.responseCap < s.bodyBytes + chunk.length then r else r.push chunk
    else if t.out then r.push t.parser.body
    else r
  | .eof => if s.out then r.finish else r

/-- A tunnel and the stream of its response. Nothing has come before the listeners are attached, so
that only a frame leads to a push. -/
structure Tap where
  sys : Sys
  stream : Readable

namespace Tap

def start (req : Request) : Tap := ⟨Tunnel.start req, .start⟩

/-- The frame that an event delivers to the primary. -/
def delivered (y : Sys) : Tunnel.Event → Option Frame
  | .down _ => y.agent.frames[y.heardDown]?
  | _ => none

def step (p : Tap) (e : Tunnel.Event) : Option Tap :=
  (Tunnel.step req readHead env p.sys e).map fun z =>
    let stream := match delivered p.sys e with
      | some frame => hear req p.sys.primary z.primary p.stream frame
      | none => p.stream
    ⟨z, stream.watch z.primary⟩

end Tap

/-- What a streamed response promises. -/
structure StreamSound (env : Env) (p : Tap) : Prop where
  /-- it is the response of the route -/
  route : ∀ line headLine, p.sys.primary.point = .done (.ok (.stream line)) →
    p.sys.agent.replayed = some headLine →
      line = headLine.bytes ∧ p.stream.pushed <+: p.sys.agent.produced ∧
        (p.stream.ended = true →
          p.stream.pushed = p.sys.agent.produced ∧ p.sys.agent.complete = true)
  /-- or one of the agent itself -/
  own : ∀ line, p.sys.primary.point = .done (.ok (.stream line)) →
    p.sys.agent.replayed = none → ∃ status headLine body,
      OwnReply env p.sys.agent.injections status headLine body ∧ line = headLine.bytes ∧
        p.stream.pushed <+: body ∧ (p.stream.ended = true → p.stream.pushed = body)
  /-- cut off, it is destroyed -/
  cutOff : ∀ line, p.sys.primary.point = .done (.ok (.stream line)) →
    p.sys.primary.closed = true → p.stream.destroyed = !p.stream.ended
  ended : p.stream.ended = true → p.stream.destroyed = false

/-- A stream is destroyed by the close of the channel alone, and then stays as it is. -/
structure Destroys (p q : Tap) : Prop where
  closed : p.stream.destroyed = false → q.stream.destroyed = true → q.sys.primary.closed = true
  stays : p.stream.destroyed = true → q.stream = p.stream

/-! ## What the agent has sent -/

/-- The bytes of data frames. -/
def carried (frames : List Frame) : List UInt8 :=
  frames.flatMap fun
    | .data chunk => chunk
    | .eof => []

theorem carried_append (frames more : List Frame) :
    carried (frames ++ more) = carried frames ++ carried more :=
  List.flatMap_append

theorem carried_of_unfinished {frames : List Frame} {bytes : List UInt8}
    (h : Unfinished frames bytes) : carried frames = bytes := by
  obtain ⟨chunks, rfl, rfl⟩ := h
  rw [carried, List.flatMap_map]
  exact List.flatMap_id'

theorem carried_of_complete {frames : List Frame} {bytes : List UInt8}
    (h : Complete frames bytes) : carried frames = bytes := by
  obtain ⟨before, hbefore, rfl⟩ := h
  rw [carried_append, carried_of_unfinished hbefore]
  exact List.append_nil bytes

/-- What the agent has sent of a route's response is its beginning. -/
def Prefixed (a : Agent) : Prop :=
  ∀ line, a.replayed = some line → carried a.frames <+: a.response line

variable {req readHead env} {a b : Agent}

theorem response_part {line : Line} (h : a.produced <+: b.produced) :
    a.response line <+: b.response line := by
  obtain ⟨more, hmore⟩ := h
  refine ⟨more, ?_⟩
  rw [Agent.response, Agent.response, ← hmore, List.append_assoc]
  rfl

/-- Nothing but an EOF is sent. -/
theorem Prefixed.of_same (h : Prefixed a)
    (hframes : b.frames = a.frames ∨ b.frames = a.frames ++ [.eof])
    (hreplayed : b.replayed = a.replayed) (hproduced : a.produced <+: b.produced) : Prefixed b := by
  intro line hline
  have hcarried : carried b.frames = carried a.frames := by
    rcases hframes with heq | heq
    · rw [heq]
    · rw [heq, carried_append]
      exact List.append_nil _
  rw [hcarried]
  exact (h line (hreplayed.symm.trans hline)).trans (response_part hproduced)

theorem Prefixed.of_frames (h : Prefixed a) (hframes : b.frames = a.frames)
    (hreplayed : b.replayed = a.replayed) (hproduced : b.produced = a.produced) : Prefixed b :=
  h.of_same (.inl hframes) hreplayed (by rw [hproduced])

theorem Prefixed.sendEof (h : Prefixed a) (torn : Bool) : Prefixed (a.sendEof torn) := by
  unfold Agent.sendEof
  split
  · exact h.of_frames rfl rfl rfl
  · exact h.of_same (.inr rfl) rfl (List.prefix_refl _)

theorem Prefixed.written (h : Prefixed a) (next : Next) (torn : Bool) :
    Prefixed (a.written next torn) := by
  unfold Agent.written
  split
  · exact h.of_frames rfl rfl rfl
  · exact h.sendEof torn
  · split
    · exact Prefixed.sendEof (a := { a with complete := true }) h torn
    · exact h.of_frames rfl rfl rfl
  · exact h.of_frames rfl rfl rfl

/-- An open channel has exactly what is missing still to send. -/
theorem Prefixed.send {rest : List UInt8} {next : Next} (hstage : Stage a (.writing rest next))
    (hopen : a.channel.closed = false) (window n : ℕ) (point : Replay.Point) :
    Prefixed { a with window, point, frames := a.frames ++ [.data (rest.take n)] } := by
  intro line hline
  have hsent : ∀ sent, Unfinished a.frames sent → sent ++ rest = a.response line →
      carried (a.frames ++ [.data (rest.take n)]) <+: a.response line := by
    intro sent hsent hall
    rw [carried_append, carried_of_unfinished hsent, ← hall]
    refine (List.prefix_append_right_inj sent).2 ?_
    rw [show carried [.data (rest.take n)] = rest.take n from List.append_nil _]
    exact List.take_prefix n rest
  cases next with
  | refusalBody body =>
    cases hstage.1.symm.trans hline
  | refusalEnd =>
    cases hstage.1.symm.trans hline
  | head bodyless cap =>
    obtain ⟨line', sent, hline', -, hframes, hall⟩ := hstage
    rw [show a.replayed = some line from hline] at hline'
    cases hline'
    exact hsent sent hframes (hall hopen)
  | piece cap =>
    obtain ⟨line', sent, hline', hframes, hall⟩ := hstage
    rw [show a.replayed = some line from hline] at hline'
    cases hline'
    exact hsent sent hframes (hall hopen)

theorem Prefixed.writeRound (h : Prefixed a) {rest : List UInt8} {next : Next}
    (hstage : Stage a (.writing rest next)) {torn : Bool}
    (ht : a.writeRound rest next torn = some b) : Prefixed b := by
  unfold Agent.writeRound at ht
  split at ht
  · cases ht
    exact h.written next torn
  · split at ht
    · cases ht
      exact h.of_frames rfl rfl rfl
    · next hopen =>
      dsimp only at ht
      generalize min (min Exchange.writeChunkBytes rest.length) a.window = n at ht
      split at ht
      · cases ht
      · cases ht
        cases torn with
        | true => exact h.of_frames rfl rfl rfl
        | false => exact Prefixed.send hstage (Bool.eq_false_of_not_eq_true hopen) _ n _

/-- The step lemma of the agent. -/
theorem Prefixed.step (h : Prefixed a) (hreplies : Replies a) {e : Replay.Event}
    (ht : a.step env e = some b) : Prefixed b := by
  cases e with
  | responded status headers =>
    simp only [Agent.step] at ht
    split at ht
    · next hpoint =>
      have hstage := hreplies.stage
      rw [hpoint] at hstage
      cases ht
      unfold Agent.responded
      dsimp only
      split
      · exact h.of_frames rfl rfl rfl
      · split
        · exact h.of_frames rfl rfl rfl
        · intro line hline
          rw [show Agent.frames _ = a.frames from rfl, hstage.1]
          exact List.nil_prefix
    · cases ht
  | rejected =>
    simp only [Agent.step] at ht
    split at ht
    · cases ht
      exact h.of_frames rfl rfl rfl
    · cases ht
  | piece data =>
    simp only [Agent.step] at ht
    split at ht
    · cases ht
      split
      · exact h.of_same (.inl rfl) rfl (List.prefix_append _ _)
      · exact h.of_same (.inl rfl) rfl (List.prefix_append _ _)
    · cases ht
  | ended torn =>
    simp only [Agent.step] at ht
    split at ht
    · cases ht
      exact Prefixed.sendEof (a := { a with complete := true }) h torn
    · cases ht
  | failed =>
    simp only [Agent.step] at ht
    split at ht
    · cases ht
      exact h.of_frames rfl rfl rfl
    · cases ht
  | closed =>
    cases ht
    exact h
  | windowAdjust bytes =>
    cases ht
    exact h
  | proceed torn =>
    simp only [Agent.step] at ht
    split at ht
    · next rest next hpoint =>
      have hstage := hreplies.stage
      rw [hpoint] at hstage
      exact h.writeRound hstage ht
    · split at ht
      · cases ht
        exact h.of_frames rfl rfl rfl
      · cases ht
    · split at ht
      · cases ht
        exact h.of_frames rfl rfl rfl
      · cases ht
    · cases ht

/-- A frame that the agent hears. -/
theorem Prefixed.hear (h : Prefixed a) (frame : Frame) : Prefixed (a.hear env frame) := by
  unfold Agent.hear
  dsimp only
  split
  · next answer _ _ =>
    unfold Agent.dispatch
    split
    · exact h.of_frames rfl rfl rfl
    · split
      · exact h.of_frames rfl rfl rfl
      · split
        · exact h.of_frames rfl rfl rfl
        · exact h.of_frames rfl rfl rfl
  · exact h.of_frames rfl rfl rfl

/-- What the agent has sent is the beginning of a response. -/
structure Sends (env : Env) (a : Agent) : Prop where
  prefixed : Prefixed a
  owns : Owns env a

theorem Sends.step (h : Sends env a) (hreplies : Replies a) {e : Replay.Event}
    (ht : a.step env e = some b) : Sends env b :=
  ⟨h.prefixed.step hreplies ht, h.owns.step hreplies ht⟩

theorem Sends.hear (h : Sends env a) (hreplies : Replies a) (frame : Frame) :
    Sends env (a.hear env frame) :=
  ⟨h.prefixed.hear frame, h.owns.hear hreplies frame⟩

/-- As long as no head of a route is written, it is a response of the agent itself. -/
theorem Sends.own (h : Sends env a) (hreplies : Replies a) (hnone : a.replayed = none)
    {line body : List UInt8} (hline : newline ∉ line)
    (hpart : line ++ newline :: body <+: carried a.frames) :
    ∃ status headLine whole, OwnReply env a.injections status headLine whole ∧
      line = headLine.bytes ∧ body <+: whole ∧
        (Complete a.frames (line ++ newline :: body) → body = whole) := by
  rcases h.owns.sent hreplies hnone with hframes | ⟨status, headLine, whole, hown, hsent⟩
  · rw [hframes] at hpart
    obtain ⟨more, hmore⟩ := hpart
    cases line <;> cases hmore
  · have hbegun : line ++ newline :: body <+: told headLine whole := by
      rcases hsent with ⟨sent, hsent, hbegun⟩ | hcomplete
      · rw [carried_of_unfinished hsent] at hpart
        exact hpart.trans hbegun
      · rwa [carried_of_complete hcomplete] at hpart
    obtain ⟨more, hmore⟩ := hbegun
    rw [List.append_assoc, told] at hmore
    obtain ⟨heq, hbody⟩ := line_unique hline headLine.unbroken hmore
    refine ⟨status, headLine, whole, hown, heq, ⟨more, hbody⟩, fun hcomplete => ?_⟩
    rcases hsent with ⟨sent, hsent, -⟩ | hcomplete'
    · exact absurd hcomplete.eof_mem hsent.eof_notMem
    · exact (line_unique hline headLine.unbroken (hcomplete.unique hcomplete')).2

/-! ## What the listeners push -/

section Listeners

variable {s : State} {bytes chunk : List UInt8} {torn : Bool} {line : List UInt8}

/-- A response that is refused was a stream before. -/
theorem refuse_stream {reason : Reason} {tooLarge : Bool}
    (h : (s.refuse reason tooLarge).reply = .resolved (.stream line)) :
    s.reply = .resolved (.stream line) := by
  rcases (@hears_refuse (fun _ => False) s reason tooLarge).settled with heq | ⟨-, hgiven⟩
  · exact heq.symm.trans h
  · rw [h] at hgiven
    exact absurd hgiven id

theorem closeChannel_stream (h : s.closeChannel.reply = .resolved (.stream line)) :
    s.reply = .resolved (.stream line) := by
  rcases (@hears_closeChannel (fun _ => False) s).settled with heq | ⟨-, hgiven⟩
  · exact heq.symm.trans h
  · rw [h] at hgiven
    exact absurd hgiven id

/-- The chunk with which the response becomes a stream completes its head. -/
theorem onData_starts (h : Reads s bytes) (hpending : s.reply = .pending)
    (hlisten : s.listening = true) (hopen : s.closed = false)
    (ht : (onData req readHead s chunk torn).reply = .resolved (.stream line)) :
    (onData req readHead s chunk torn).out = true ∧
      newline ∉ line ∧
      bytes ++ chunk = line ++ newline :: (onData req readHead s chunk torn).parser.body := by
  obtain ⟨hout, hparsed⟩ := h hpending
  have htouch : (s.touch req).parser = s.parser ∧ (s.touch req).out = false ∧
      (s.touch req).listening = true ∧ (s.touch req).closed = false ∧
      (s.touch req).reply = .pending := by
    unfold State.touch
    split
    · exact ⟨rfl, hout, hlisten, hopen, hpending⟩
    · exact ⟨rfl, hout, hlisten, hopen, hpending⟩
  revert ht
  unfold onData
  rw [← htouch.1] at hparsed
  generalize s.touch req = s at *
  obtain ⟨-, hout, hlisten, hopen, hpending⟩ := htouch
  simp only [hout, Bool.false_eq_true, if_false]
  cases torn with
  | true =>
    -- the listeners of the close have settled the response
    have hnone : ∀ line, s.closeChannel.reply ≠ .resolved (.stream line) := by
      intro line ht
      rw [closeChannel_stream ht] at hpending
      cases hpending
    have hne : s.closeChannel.reply ≠ .pending := by
      rcases (@hears_closeChannel Any s).told (closeChannel_closed s) with h | h | h | h
      · exact absurd (hopen.symm.trans h) Bool.false_ne_true
      · exact absurd (h.symm.trans hlisten) Bool.false_ne_true
      · exact absurd (hout.symm.trans h) Bool.false_ne_true
      · exact h
    simp only [if_true]
    generalize s.closeChannel = s at hnone hne ⊢
    split
    · exact fun ht => absurd (refuse_stream ht) (hnone _)
    · split
      · exact fun ht => absurd ht (hnone _)
      · split
        · exact fun ht => absurd (refuse_stream ht) (hnone _)
        · split
          · unfold startStream
            split
            · unfold State.settle
              simp only [hne, if_false]
              exact fun ht => absurd ht (hnone _)
            · exact fun ht => absurd (refuse_stream ht) (hnone _)
          · exact fun ht => absurd ht (hnone _)
  | false =>
    have hnone : ∀ line, s.reply ≠ .resolved (.stream line) := fun line => by
      rw [hpending]
      exact Reply.noConfusion
    simp only [Bool.false_eq_true, if_false]
    split
    · exact fun ht => absurd (refuse_stream ht) (hnone _)
    · next hfits =>
      have hpushed := hparsed.push (Bool.eq_true_of_not_eq_false hfits)
      split
      · exact fun ht => absurd ht (hnone _)
      · next headLine hline =>
        split
        · exact fun ht => absurd (refuse_stream ht) (hnone _)
        · split
          · unfold startStream
            split
            · unfold State.settle
              simp only [hpending, if_true]
              intro ht
              cases ht
              unfold Exchange.Parsed at hpushed
              rw [hline] at hpushed
              exact ⟨trivial, hpushed⟩
            · exact fun ht => absurd (refuse_stream ht) (hnone _)
          · exact fun ht => absurd ht (hnone _)

theorem wake_reply (ok : Bool) : (s.wake ok).reply = s.reply ∧ (s.wake ok).out = s.out := by
  unfold State.wake
  split
  · exact ⟨rfl, rfl⟩
  · exact ⟨rfl, rfl⟩

/-- The close of the channel settles nothing once the response is a stream. -/
theorem closeChannel_out (hout : s.out = true) :
    s.closeChannel.reply = s.reply ∧ s.closeChannel.out = true := by
  unfold State.closeChannel
  split
  · exact ⟨rfl, hout⟩
  · dsimp only
    split
    · rw [State.responseClosed, if_pos hout]
      exact ⟨(wake_reply false).1, (wake_reply false).2.trans hout⟩
    · exact ⟨rfl, hout⟩

/-- A chunk for the stream settles nothing; beyond the limit it closes the channel. -/
theorem onData_out (hout : s.out = true) :
    (onData req readHead s chunk torn).reply = s.reply ∧
      (onData req readHead s chunk torn).out = true ∧
      (req.responseCap < s.bodyBytes + chunk.length →
        (onData req readHead s chunk torn).closed = true) := by
  have htouch : (s.touch req).out = true ∧ (s.touch req).reply = s.reply ∧
      (s.touch req).bodyBytes = s.bodyBytes := by
    unfold State.touch
    split
    · exact ⟨hout, rfl, rfl⟩
    · exact ⟨hout, rfl, rfl⟩
  unfold onData
  obtain ⟨hout', hreply, hbytes⟩ := htouch
  rw [← hreply, ← hbytes]
  generalize s.touch req = s at *
  dsimp only
  rw [if_pos hout']
  split
  · obtain ⟨hsame, hstill⟩ :=
      @closeChannel_out { s with bodyBytes := s.bodyBytes + chunk.length } hout'
    exact ⟨hsame, hstill, fun _ => closeChannel_closed _⟩
  · next hsmall =>
    rw [not_or] at hsmall
    exact ⟨rfl, hout', fun hlt => absurd hlt hsmall.1⟩

end Listeners

/-! ## The invariant -/

/-- The books of a stream. -/
structure Flow (req : Request) (env : Env) (p : Tap) : Prop where
  inv : Inv req env p.sys
  sends : Sends env p.sys.agent
  /-- before the response is settled nothing was pushed -/
  idle : p.sys.primary.reply = .pending → p.stream = .start
  out : ∀ line, p.sys.primary.reply = .resolved (.stream line) → p.sys.primary.out = true
  pushed : ∀ line, p.sys.primary.reply = .resolved (.stream line) → newline ∉ line ∧
    line ++ newline :: p.stream.pushed <+:
      carried (p.sys.agent.frames.take p.sys.heardDown)
  flows : ∀ line, p.sys.primary.reply = .resolved (.stream line) → p.stream.destroyed = false →
    p.stream.ended = false →
      carried (p.sys.agent.frames.take p.sys.heardDown) = line ++ newline :: p.stream.pushed
  ended : ∀ line, p.sys.primary.reply = .resolved (.stream line) → p.stream.ended = true →
    Complete p.sys.agent.frames (line ++ newline :: p.stream.pushed) ∧
      p.sys.heardDown = p.sys.agent.frames.length

variable {p : Tap} {z : Sys}

theorem out_of_pending {y : Sys} (h : Inv req env y) (hpending : y.primary.reply = .pending) :
    y.primary.out = false := by
  cases hlisten : y.primary.listening with
  | true =>
    obtain ⟨bytes, -, hreads⟩ := h.reads hlisten hpending
    exact (hreads hpending).1
  | false => exact (h.fresh hlisten).out

@[simp] theorem watch_pushed (r : Readable) (s : State) : (r.watch s).pushed = r.pushed := by
  unfold Readable.watch
  split <;> rfl

@[simp] theorem watch_ended (r : Readable) (s : State) : (r.watch s).ended = r.ended := by
  unfold Readable.watch
  split <;> rfl

theorem destroyed_of_watch {r : Readable} {s : State} (h : (r.watch s).destroyed = false) :
    r.destroyed = false := by
  unfold Readable.watch at h
  split at h
  · cases h
  · exact h

theorem watch_of_out {r : Readable} {s : State} (h : s.out = false) : r.watch s = r := by
  rw [Readable.watch, h]
  rfl

/-- No frame is pushed. -/
theorem Flow.same (h : Flow req env p) (hinv : Inv req env z) (hsends : Sends env z.agent)
    (hreply : z.primary.reply = p.sys.primary.reply ∨ p.sys.primary.reply = .pending ∧
      z.primary.reply ≠ .pending ∧ ∀ line, z.primary.reply ≠ .resolved (.stream line))
    (hout : z.primary.out = p.sys.primary.out)
    (hheard : z.agent.frames.take z.heardDown = p.sys.agent.frames.take p.sys.heardDown)
    (hcomplete : ∀ bytes, Complete p.sys.agent.frames bytes →
      z.agent.frames = p.sys.agent.frames ∧ z.heardDown = p.sys.heardDown) :
    Flow req env ⟨z, p.stream.watch z.primary⟩ := by
  have hstream : ∀ {line}, z.primary.reply = .resolved (.stream line) →
      p.sys.primary.reply = .resolved (.stream line) := by
    intro line hline
    rcases hreply with heq | ⟨-, -, hnone⟩
    · exact heq.symm.trans hline
    · exact absurd hline (hnone line)
  exact {
    inv := hinv
    sends := hsends
    idle := fun hpending => by
      rcases hreply with heq | ⟨-, hne, -⟩
      · rw [show Tap.stream _ = p.stream.watch z.primary from rfl,
          watch_of_out (out_of_pending hinv hpending)]
        exact h.idle (heq.symm.trans hpending)
      · exact absurd hpending hne
    out := fun line hline => hout.trans (h.out line (hstream hline))
    pushed := fun line hline => by
      rw [hheard, watch_pushed]
      exact h.pushed line (hstream hline)
    flows := fun line hline hdestroyed hended => by
      rw [hheard, watch_pushed]
      rw [watch_ended] at hended
      exact h.flows line (hstream hline) (destroyed_of_watch hdestroyed) hended
    ended := fun line hline hended => by
      rw [watch_ended] at hended
      obtain ⟨hall, hlast⟩ := h.ended line (hstream hline) hended
      obtain ⟨hframes, hheard'⟩ := hcomplete _ hall
      rw [hframes, watch_pushed, hheard']
      exact ⟨hall, hlast⟩ }

/-! ## The steps -/

theorem carried_take {frames : List Frame} {n : ℕ} {frame : Frame} (h : frames[n]? = some frame) :
    carried (frames.take (n + 1)) = carried (frames.take n) ++ carried [frame] := by
  rw [List.take_add_one, h, carried_append]
  rfl

theorem carried_take_part {frames : List Frame} (n : ℕ) :
    carried (frames.take n) <+: carried (frames.take (n + 1)) := by
  obtain ⟨more, hmore⟩ := List.take_prefix_take_left (l := frames) (Nat.le_succ n)
  rw [← hmore, carried_append]
  exact List.prefix_append _ _

theorem carried_take_all {frames : List Frame} (n : ℕ) :
    carried (frames.take n) <+: carried frames := by
  refine ⟨carried (frames.drop n), ?_⟩
  rw [← carried_append, List.take_append_drop]

/-- A stream that has ended hears no frame. -/
theorem Flow.ended_of_frame (h : Flow req env p) {line : List UInt8} {frame : Frame}
    (hline : p.sys.primary.reply = .resolved (.stream line))
    (hframe : p.sys.agent.frames[p.sys.heardDown]? = some frame) : p.stream.ended = false := by
  refine Bool.eq_false_of_not_eq_true fun hended => ?_
  have hlt := (List.getElem?_eq_some_iff.1 hframe).1
  rw [(h.ended line hline hended).2] at hlt
  exact absurd hlt (Nat.lt_irrefl _)

/-- The primary does something of itself. -/
theorem Flow.primary (h : Flow req env p) {e : Exchange.Event} {t : State}
    (hinv : Inv req env { p.sys with primary := t }) (hown : e.own = true)
    (ht : Exchange.step req readHead p.sys.primary e = some t) :
    Flow req env ⟨{ p.sys with primary := t }, p.stream.watch t⟩ := by
  rcases own_step hown ht with hstep | ⟨hpoint, torn, heq⟩
  · refine h.same hinv h.sends ?_ hstep.deaf.out rfl fun _ _ => ⟨rfl, rfl⟩
    refine hstep.deaf.reply.imp id ?_
    rintro ⟨-, hpending, failure, hrejected⟩
    refine ⟨hpending, ?_, fun line hline => ?_⟩
    · rw [show State.reply _ = t.reply from rfl, hrejected]
      exact Reply.noConfusion
    · rw [show t.reply = .resolved (.stream line) from hline] at hrejected
      cases hrejected
  · have hdeaf : p.sys.primary.listening = false := h.inv.early (by rw [hpoint]; rfl)
    have hfresh := h.inv.fresh hdeaf
    rw [attach_fresh hfresh.pendingData hfresh.pendingEof] at heq
    refine h.same hinv h.sends (.inl ?_) ?_ rfl fun _ _ => ⟨rfl, rfl⟩
    · rw [heq]
    · rw [heq]

/-- The agent does something of itself. -/
theorem Flow.agent (h : Flow req env p) {e : Replay.Event} {b : Agent}
    (hinv : Inv req env { p.sys with agent := b }) (hb : p.sys.agent.step env e = some b) :
    Flow req env ⟨{ p.sys with agent := b }, p.stream.watch p.sys.primary⟩ := by
  have hkeeps := h.inv.replies.step hb
  refine h.same hinv (h.sends.step h.inv.replies hb) (.inl rfl) rfl ?_ fun bytes hcomplete => ?_
  · obtain ⟨more, hmore⟩ := hkeeps.works.frames
    rw [hmore]
    exact List.take_append_of_le_length h.inv.heardDown
  · exact ⟨(hkeeps.works.finished (complete_finished h.inv.replies hcomplete)).1, rfl⟩

/-- A frame reaches the agent. -/
theorem Flow.up (h : Flow req env p) {frame : Frame}
    (hinv : Inv req env { p.sys with
      agent := p.sys.agent.hear env frame, heardUp := p.sys.heardUp + 1 }) :
    Flow req env ⟨{ p.sys with
      agent := p.sys.agent.hear env frame, heardUp := p.sys.heardUp + 1 },
      p.stream.watch p.sys.primary⟩ := by
  have hframes : (p.sys.agent.hear env frame).frames = p.sys.agent.frames :=
    (@Replies.hear env p.sys.agent h.inv.replies frame).2.frames
  refine h.same hinv (h.sends.hear h.inv.replies frame) (.inl rfl) rfl ?_ fun _ _ => ⟨hframes, rfl⟩
  rw [hframes]

/-- A frame that settles no stream and pushes nothing. -/
theorem Flow.of_none (hinv : Inv req env z) (hsends : Sends env z.agent) {r : Readable}
    (hidle : z.primary.reply = .pending → r = .start)
    (hnone : ∀ line, z.primary.reply ≠ .resolved (.stream line)) :
    Flow req env ⟨z, r.watch z.primary⟩ where
  inv := hinv
  sends := hsends
  idle hpending := by
    rw [show Tap.stream _ = r.watch z.primary from rfl,
      watch_of_out (out_of_pending hinv hpending)]
    exact hidle hpending
  out line hline := absurd hline (hnone line)
  pushed line hline := absurd hline (hnone line)
  flows line hline := absurd hline (hnone line)
  ended line hline := absurd hline (hnone line)

/-- A chunk for a stream that was handed over. -/
theorem Flow.chunk (h : Flow req env p) {line chunk : List UInt8} {t : State}
    (hline : p.sys.primary.reply = .resolved (.stream line))
    (hframe : p.sys.agent.frames[p.sys.heardDown]? = some (.data chunk))
    (hinv : Inv req env { p.sys with primary := t, heardDown := p.sys.heardDown + 1 })
    (hreply : t.reply = p.sys.primary.reply) (hout : t.out = true)
    (hover : req.responseCap < p.sys.primary.bodyBytes + chunk.length → t.closed = true) :
    Flow req env ⟨{ p.sys with primary := t, heardDown := p.sys.heardDown + 1 },
      (hear req p.sys.primary t p.stream (.data chunk)).watch t⟩ := by
  have hended := h.ended_of_frame hline hframe
  obtain ⟨hunbroken, hpart⟩ := h.pushed line hline
  have hout' := h.out line hline
  have hsame : ∀ {line'}, t.reply = .resolved (.stream line') → line' = line := by
    intro line' hline'
    rw [hreply, hline] at hline'
    cases hline'
    rfl
  have hcarried := carried_take hframe
  have hhear : hear req p.sys.primary t p.stream (.data chunk) =
      if req.responseCap < p.sys.primary.bodyBytes + chunk.length then p.stream
      else p.stream.push chunk := by
    rw [hear, if_pos hout']
  have hpush : ∀ r, r = hear req p.sys.primary t p.stream (.data chunk) → r.ended = false := by
    rintro r rfl
    rw [hhear]
    unfold Readable.push
    repeat' split
    all_goals exact hended
  exact {
    inv := hinv
    sends := h.sends
    idle := fun hpending => by
      rw [show t.reply = .pending from hpending, hline] at hreply
      cases hreply
    out := fun _ _ => hout
    pushed := fun line' hline' => by
      obtain rfl := hsame hline'
      refine ⟨hunbroken, ?_⟩
      rw [watch_pushed, hhear]
      split
      · exact hpart.trans (carried_take_part _)
      · unfold Readable.push
        split
        · exact hpart.trans (carried_take_part _)
        · next hopen =>
          rw [Bool.or_eq_true, not_or] at hopen
          rw [show carried (List.take _ _) = _ from hcarried,
            h.flows line' hline (Bool.eq_false_of_not_eq_true hopen.1) hended, List.append_assoc]
          exact (List.prefix_append_right_inj line').2 (by
            rw [show carried [Frame.data chunk] = chunk from List.append_nil _]
            exact List.prefix_refl _)
    flows := fun line' hline' hdestroyed _ => by
      obtain rfl := hsame hline'
      rw [watch_pushed, hhear]
      split
      · next hlt =>
        -- the listener of the close has destroyed the stream
        rw [hhear, if_pos hlt, Readable.watch, hout, hover hlt, hended] at hdestroyed
        cases hdestroyed
      · next hlt =>
        have hkept := destroyed_of_watch hdestroyed
        rw [hhear, if_neg hlt] at hkept
        unfold Readable.push at hkept ⊢
        split
        · next hover =>
          rw [if_pos hover] at hkept
          rw [hkept, hended] at hover
          cases hover
        · next hopen =>
          rw [if_neg hopen] at hkept
          rw [show carried (List.take _ _) = _ from hcarried, h.flows line' hline hkept hended,
            show carried [Frame.data chunk] = chunk from List.append_nil _, List.append_assoc]
          rfl
    ended := fun line' hline' hended' => by
      rw [watch_ended, hpush _ rfl] at hended'
      cases hended' }

/-- While a frame is still to come, the primary listens. -/
theorem Flow.listening (h : Flow req env p) {frame : Frame}
    (hframe : p.sys.agent.frames[p.sys.heardDown]? = some frame) :
    p.sys.primary.listening = true := by
  refine Bool.eq_true_of_not_eq_false fun hdeaf => ?_
  rw [h.inv.silent hdeaf] at hframe
  cases hframe

/-- The chunk with the end of the head: what follows in it is the first that is pushed. -/
theorem Flow.starts (h : Flow req env p) {line chunk : List UInt8} {torn : Bool}
    (hframe : p.sys.agent.frames[p.sys.heardDown]? = some (.data chunk))
    (hinv : Inv req env { p.sys with
      primary := onData req readHead p.sys.primary chunk torn, heardDown := p.sys.heardDown + 1 })
    (hopen : p.sys.primary.closed = false) (hpending : p.sys.primary.reply = .pending)
    (hline : (onData req readHead p.sys.primary chunk torn).reply = .resolved (.stream line)) :
    Flow req env ⟨{ p.sys with
        primary := onData req readHead p.sys.primary chunk torn,
        heardDown := p.sys.heardDown + 1 },
      (hear req p.sys.primary (onData req readHead p.sys.primary chunk torn) p.stream
        (.data chunk)).watch (onData req readHead p.sys.primary chunk torn)⟩ := by
  have hlisten := h.listening hframe
  obtain ⟨bytes, hbytes, hreads⟩ := h.inv.reads hlisten hpending
  obtain ⟨hout', hunbroken, hall⟩ := onData_starts hreads hpending hlisten hopen hline
  have hhear : hear req p.sys.primary (onData req readHead p.sys.primary chunk torn)
      p.stream (.data chunk) =
        ⟨(onData req readHead p.sys.primary chunk torn).parser.body, false, false⟩ := by
    rw [hear, out_of_pending h.inv hpending, hout', h.idle hpending]
    rfl
  have hcarried : carried (p.sys.agent.frames.take (p.sys.heardDown + 1)) = line ++
      newline :: (onData req readHead p.sys.primary chunk torn).parser.body := by
    rw [carried_take hframe, carried_of_unfinished hbytes, ← hall]
    exact congrArg (bytes ++ ·) (List.append_nil chunk)
  have hsame : ∀ {line'}, (onData req readHead p.sys.primary chunk torn).reply =
      .resolved (.stream line') → line' = line := by
    intro line' hline'
    rw [hline] at hline'
    cases hline'
    rfl
  rw [hhear]
  exact {
    inv := hinv
    sends := h.sends
    idle := fun hpending' => by
      rw [show State.reply _ = _ from hline] at hpending'
      cases hpending'
    out := fun _ _ => hout'
    pushed := fun line' hline' => by
      obtain rfl := hsame hline'
      rw [watch_pushed]
      exact ⟨hunbroken, by rw [hcarried]⟩
    flows := fun line' hline' _ _ => by
      obtain rfl := hsame hline'
      rw [watch_pushed]
      exact hcarried
    ended := fun line' _ hended => by
      rw [watch_ended] at hended
      cases hended }

/-- A chunk reaches the primary. -/
theorem Flow.data (h : Flow req env p) {chunk : List UInt8} {torn : Bool} {t : State}
    (hframe : p.sys.agent.frames[p.sys.heardDown]? = some (.data chunk))
    (ht : Exchange.step req readHead p.sys.primary (.data chunk torn) = some t) :
    Flow req env ⟨{ p.sys with primary := t, heardDown := p.sys.heardDown + 1 },
      (hear req p.sys.primary t p.stream (.data chunk)).watch t⟩ := by
  have hinv := h.inv.data hframe ht
  simp only [Exchange.step, h.listening hframe, if_true] at ht
  split at ht
  · next hopen =>
    cases ht
    by_cases hpending : p.sys.primary.reply = .pending
    · by_cases hstarts : ∃ line, (onData req readHead p.sys.primary chunk torn).reply =
          .resolved (.stream line)
      · obtain ⟨line, hline⟩ := hstarts
        exact h.starts hframe hinv (Bool.eq_false_of_not_eq_true hopen.2) hpending hline
      · rw [not_exists] at hstarts
        refine .of_none hinv h.sends (fun hpending' => ?_) hstarts
        rw [hear, out_of_pending h.inv hpending, out_of_pending hinv hpending']
        exact h.idle hpending
    · have hreply : (onData req readHead p.sys.primary chunk torn).reply =
          p.sys.primary.reply := by
        rcases (@hears_onData req readHead Any (fun _ => trivial) p.sys.primary chunk torn).settled
          with heq | ⟨hs, -⟩
        · exact heq
        · exact absurd hs hpending
      by_cases hstream : ∃ line, p.sys.primary.reply = .resolved (.stream line)
      · obtain ⟨line, hline⟩ := hstream
        obtain ⟨-, hout, hover⟩ :=
          @onData_out req readHead p.sys.primary chunk torn (h.out line hline)
        exact h.chunk hline hframe hinv hreply hout hover
      · rw [not_exists] at hstream
        refine .of_none hinv h.sends (fun hpending' => ?_) fun line hline => ?_
        · exact absurd (hreply.symm.trans hpending') hpending
        · exact hstream line (hreply.symm.trans hline)
  · cases ht

/-- The EOF behind a streamed response. -/
theorem Flow.ends (h : Flow req env p) {line : List UInt8}
    (hline : p.sys.primary.reply = .resolved (.stream line))
    (hframe : p.sys.agent.frames[p.sys.heardDown]? = some .eof)
    (hinv : Inv req env { p.sys with
      primary := onEof readHead p.sys.primary, heardDown := p.sys.heardDown + 1 }) :
    Flow req env ⟨{ p.sys with
        primary := onEof readHead p.sys.primary, heardDown := p.sys.heardDown + 1 },
      (hear req p.sys.primary (onEof readHead p.sys.primary) p.stream .eof).watch
        (onEof readHead p.sys.primary)⟩ := by
  obtain ⟨bytes, hcomplete⟩ := complete_of_eof_mem h.inv.replies (List.mem_of_getElem? hframe)
  obtain ⟨hbefore, hlast⟩ := hcomplete.at_eof hframe
  have hout := h.out line hline
  have heof : onEof readHead p.sys.primary = { p.sys.primary with eofSeen := true } := by
    rw [onEof, if_pos hout]
  have hended := h.ended_of_frame hline hframe
  obtain ⟨hunbroken, hpart⟩ := h.pushed line hline
  have hpushed : (hear req p.sys.primary (onEof readHead p.sys.primary) p.stream .eof).pushed =
      p.stream.pushed := by
    rw [hear, if_pos hout]
    unfold Readable.finish
    split <;> rfl
  have hsame : ∀ {line'}, (onEof readHead p.sys.primary).reply =
      .resolved (.stream line') → line' = line := by
    intro line' hline'
    rw [heof, show State.reply _ = p.sys.primary.reply from rfl, hline] at hline'
    cases hline'
    rfl
  exact {
    inv := hinv
    sends := h.sends
    idle := fun hpending => by
      rw [show State.reply _ = (onEof readHead p.sys.primary).reply from rfl, heof,
        show State.reply _ = p.sys.primary.reply from rfl, hline] at hpending
      cases hpending
    out := fun _ _ => by
      rw [show State.out _ = (onEof readHead p.sys.primary).out from rfl, heof]
      exact hout
    pushed := fun line' hline' => by
      obtain rfl := hsame hline'
      rw [watch_pushed, hpushed]
      exact ⟨hunbroken, hpart.trans (carried_take_part _)⟩
    flows := fun line' _ hdestroyed hended' => by
      have hkept := destroyed_of_watch hdestroyed
      rw [watch_ended] at hended'
      rw [hear, if_pos hout, Readable.finish] at hkept hended'
      split at hended'
      · next hgone =>
        rw [if_pos hgone, hgone] at hkept
        cases hkept
      · cases hended'
    ended := fun line' hline' hended' => by
      obtain rfl := hsame hline'
      rw [watch_ended, hear, if_pos hout, Readable.finish] at hended'
      rw [watch_pushed, hpushed]
      refine ⟨?_, hlast⟩
      split at hended'
      · rw [hended] at hended'
        cases hended'
      · next hgone =>
        have hflows := h.flows line' hline (Bool.eq_false_of_not_eq_true hgone) hended
        rw [carried_of_unfinished hbefore] at hflows
        rw [← hflows]
        exact hcomplete }

/-- The EOF reaches the primary. -/
theorem Flow.eof (h : Flow req env p) {t : State}
    (hframe : p.sys.agent.frames[p.sys.heardDown]? = some .eof)
    (ht : Exchange.step req readHead p.sys.primary .eof = some t) :
    Flow req env ⟨{ p.sys with primary := t, heardDown := p.sys.heardDown + 1 },
      (hear req p.sys.primary t p.stream .eof).watch t⟩ := by
  have hinv := h.inv.eof hframe ht
  simp only [Exchange.step, h.listening hframe, if_true] at ht
  split at ht
  · cases ht
    by_cases hstream : ∃ line, p.sys.primary.reply = .resolved (.stream line)
    · obtain ⟨line, hline⟩ := hstream
      exact h.ends hline hframe hinv
    · rw [not_exists] at hstream
      have hears := @hears_onEof readHead (fun response => ∀ line, response ≠ .stream line)
        p.sys.primary fun _ _ _ _ _ => Response.noConfusion
      refine .of_none hinv h.sends (fun hpending => ?_) fun line hline => ?_
      · have hs := hears.pending hpending
        refine absurd hpending (onEof_ne_pending _ fun hout => ?_)
        rw [out_of_pending h.inv hs] at hout
        cases hout
      · rcases hears.settled with heq | ⟨-, hgiven⟩
        · exact hstream line (heq.symm.trans hline)
        · rw [show (onEof readHead p.sys.primary).reply = _ from hline] at hgiven
          exact hgiven line rfl
  · cases ht

/-- **The step lemma.** -/
theorem Flow.step (h : Flow req env p) {e : Tunnel.Event} {q : Tap}
    (hq : Tap.step req readHead env p e = some q) : Flow req env q := by
  obtain ⟨z, hz, rfl⟩ := Option.map_eq_some_iff.1 hq
  have hinv := h.inv.step hz
  cases e with
  | primary e =>
    simp only [Tunnel.step] at hz
    split at hz
    · next hown =>
      obtain ⟨t, ht, rfl⟩ := Option.map_eq_some_iff.1 hz
      exact h.primary hinv hown ht
    · cases hz
  | agent e =>
    obtain ⟨b, hb, rfl⟩ := Option.map_eq_some_iff.1 hz
    exact h.agent hinv hb
  | up =>
    simp only [Tunnel.step] at hz
    split at hz
    · cases hz
    · split at hz
      · cases hz
        exact h.up hinv
      · cases hz
  | down torn =>
    simp only [Tunnel.step] at hz
    split at hz
    · next frame hframe =>
      obtain ⟨t, ht, rfl⟩ := Option.map_eq_some_iff.1 hz
      simp only [Tap.delivered, hframe]
      cases frame with
      | data chunk => exact h.data hframe ht
      | eof => exact h.eof hframe ht
    · cases hz

theorem flow_start (req : Request) (env : Env) : Flow req env (.start req) where
  inv := inv_start req env
  sends := ⟨fun _ hline => (by cases hline), rfl⟩
  idle _ := rfl
  out _ hline := by cases hline
  pushed _ hline := by cases hline
  flows _ hline := by cases hline
  ended _ hline := by cases hline

/-! ## Streams that are cut off -/

/-- The books of a stream that can be destroyed. -/
structure Kept (p : Tap) : Prop where
  cutOff : p.sys.primary.out = true → p.sys.primary.closed = true → p.stream.ended = false →
    p.stream.destroyed = true
  ended : p.stream.ended = true → p.stream.destroyed = false

theorem hear_ended {s t : State} {r : Readable} (h : r.ended = true → r.destroyed = false)
    (frame : Frame) :
    (hear req s t r frame).ended = true → (hear req s t r frame).destroyed = false := by
  unfold hear
  repeat' split
  · exact h
  · unfold Readable.push
    split <;> exact h
  · unfold Readable.push
    split <;> exact h
  · exact h
  · unfold Readable.finish
    split
    · exact h
    · next hopen => exact fun _ => Bool.eq_false_of_not_eq_true hopen
  · exact h

/-- A stream that is destroyed hears nothing. -/
theorem hear_destroyed {s t : State} {r : Readable} (h : r.destroyed = true) (frame : Frame) :
    hear req s t r frame = r := by
  have hpush : ∀ chunk, r.push chunk = r := fun chunk => if_pos (by rw [h]; rfl)
  have hfinish : r.finish = r := if_pos h
  unfold hear
  repeat' split
  all_goals first
    | rfl
    | exact hpush _
    | exact hfinish

/-- **The step lemma of a stream.** -/
theorem Kept.step (h : Kept p) {e : Tunnel.Event} {q : Tap}
    (hq : Tap.step req readHead env p e = some q) : Kept q := by
  obtain ⟨z, -, rfl⟩ := Option.map_eq_some_iff.1 hq
  have hended : ∀ r : Readable, (r.ended = true → r.destroyed = false) →
      Kept ⟨z, r.watch z.primary⟩ := fun r hr => {
    cutOff := fun hout hclosed hopen => by
      rw [watch_ended] at hopen
      rw [show Tap.stream _ = r.watch z.primary from rfl, Readable.watch, hout, hclosed, hopen]
      rfl
    ended := fun hended => by
      rw [watch_ended] at hended
      rw [show Tap.stream _ = r.watch z.primary from rfl, Readable.watch, hended]
      simpa using hr hended }
  dsimp only
  split
  · exact hended _ (hear_ended h.ended _)
  · exact hended _ h.ended

theorem watch_destroyed {r : Readable} {s : State} (h : r.destroyed = true) :
    r.watch s = r := by
  unfold Readable.watch
  split
  · rw [← h]
  · rfl

/-- A frame destroys no stream. -/
theorem hear_opens {s t : State} {r : Readable} (h : r.destroyed = false) (frame : Frame) :
    (hear req s t r frame).destroyed = false := by
  unfold hear
  repeat' split
  · exact h
  · unfold Readable.push
    split <;> exact h
  · unfold Readable.push
    split <;> exact h
  · exact h
  · unfold Readable.finish
    split <;> exact h
  · exact h

/-- What every step does to a stream. -/
theorem destroys_step {e : Tunnel.Event} {q : Tap}
    (hq : Tap.step req readHead env p e = some q) : Destroys p q := by
  obtain ⟨z, -, rfl⟩ := Option.map_eq_some_iff.1 hq
  have hwatch : ∀ {r : Readable}, r.destroyed = false →
      (r.watch z.primary).destroyed = true → z.primary.closed = true := by
    intro r hr hdestroyed
    unfold Readable.watch at hdestroyed
    split at hdestroyed
    · next hall =>
      simp only [Bool.and_eq_true] at hall
      exact hall.1.2
    · rw [hr] at hdestroyed
      cases hdestroyed
  dsimp only
  split
  · exact {
      closed := fun hopen => hwatch (hear_opens hopen _)
      stays := fun hdestroyed => by
        dsimp only
        rw [hear_destroyed hdestroyed, watch_destroyed hdestroyed] }
  · exact ⟨hwatch, watch_destroyed⟩

/-- The books say what a streamed response promises. -/
theorem Flow.sound (h : Flow req env p) (hkept : Kept p) : StreamSound env p where
  route line headLine hpoint hreplayed := by
    have hline := h.inv.sent.resolved _ hpoint
    obtain ⟨hunbroken, hpart⟩ := h.pushed line hline
    have hcarried := hpart.trans (carried_take_all p.sys.heardDown)
    obtain ⟨more, hmore⟩ := hcarried.trans (h.sends.prefixed headLine hreplayed)
    rw [List.append_assoc, Agent.response] at hmore
    obtain ⟨heq, hbody⟩ := line_unique hunbroken headLine.unbroken hmore
    refine ⟨heq, ⟨more, hbody⟩, fun hended => ?_⟩
    obtain ⟨hcomplete, -⟩ := h.ended line hline hended
    have hstage := h.inv.replies.stage
    rw [complete_finished h.inv.replies hcomplete] at hstage
    rcases hstage with ⟨sent, hsent⟩ | ⟨bytes, hcomplete', hall⟩
    · exact absurd hcomplete.eof_mem hsent.eof_notMem
    · obtain ⟨hbytes, hdone⟩ := hall headLine hreplayed
      have hwhole := hcomplete.unique hcomplete'
      rw [hbytes, Agent.response] at hwhole
      exact ⟨(line_unique hunbroken headLine.unbroken hwhole).2, hdone⟩
  own line hpoint hnone := by
    have hline := h.inv.sent.resolved _ hpoint
    obtain ⟨hunbroken, hpart⟩ := h.pushed line hline
    have hcarried := hpart.trans (carried_take_all p.sys.heardDown)
    obtain ⟨status, headLine, body, hown, heq, hbegun, hwhole⟩ :=
      h.sends.own h.inv.replies hnone hunbroken hcarried
    exact ⟨status, headLine, body, hown, heq, hbegun,
      fun hended => hwhole (h.ended line hline hended).1⟩
  cutOff line hpoint hclosed := by
    have hout := h.out line (h.inv.sent.resolved _ hpoint)
    cases hended : p.stream.ended with
    | true => exact hkept.ended hended
    | false => exact hkept.cutOff hout hclosed hended
  ended := hkept.ended

/-- **A streamed response is sound.** In every state of every run, and a stream that is cut off
stays so. -/
theorem streamed_sound (req : Request) (readHead : List UInt8 → Option ResponseHead) (env : Env)
    (es : List Tunnel.Event) :
    Run.Along (Tap.step req readHead env) (StreamSound env) (.start req) es ∧
      Run.AlongSteps (Tap.step req readHead env) (fun p _ q => Destroys p q) (.start req) es := by
  have hkept : Kept (.start req) := {
    cutOff := fun hout => by cases hout
    ended := fun _ => rfl }
  refine ⟨?_, Run.AlongSteps.of_forall (fun p e q hq => ?_) _ es⟩
  · exact Run.along_of_invariant (I := fun p => Flow req env p ∧ Kept p)
      (fun _ _ _ h _ hq => ⟨h.1.step hq, h.2.step hq⟩) (fun _ h => h.1.sound h.2)
      ⟨flow_start req env, hkept⟩ (Run.Meets.of_forall (fun _ _ => trivial) _ _)
  · exact destroys_step hq

end Streaming
end Mullion
