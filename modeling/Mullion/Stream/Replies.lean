import Mullion.Stream.Replay
import Mullion.Stream.Sent

/-!
# What the agent replies

* `answer_foldl`, `answer_eof` — what a request comes to before its EOF, and at it;
* `Replies` — the response of the route, each byte once and in order, and the EOF only behind the
  whole of it;
* `Replies.step`, `Replies.hear` — every event keeps it.
-/

namespace Mullion
namespace Replay

open Mullion.Stream Serve Exchange
open Mux (channelWindowBytes)

/-! ## Requests before and at their end -/

section Requests

variable {reader : Reader} {handlers : Handlers}

/-- Before the EOF, a request is at most refused. -/
def Refused (answer : Option Answer) : Prop := answer = none ∨ answer = some .tooLarge

theorem refused_onHead {sink : RequestSink} (h : Refused sink.dispatched) (headLine : List UInt8) :
    Refused (sink.onHead reader headLine).dispatched := by
  unfold RequestSink.onHead
  dsimp only
  repeat' split
  all_goals first
    | exact .inr rfl
    | exact h

theorem refused_sink {sink : RequestSink} (h : Refused sink.dispatched) (chunk : List UInt8) :
    Refused (sink.data reader chunk).dispatched := by
  unfold RequestSink.data
  split
  · exact h
  · dsimp only
    split
    · exact .inr rfl
    · split
      · exact @refused_onHead reader
          { sink with parser := (sink.parser.push chunk sink.maxBodyBytes).1 } h _
      · exact h

/-- The listeners have heard no EOF. -/
structure Hearing (channel : Channel) : Prop where
  pendingEof : channel.pendingEof = false
  refused : Refused (answer channel)

theorem refused_initial (bytes : List UInt8) :
    Refused (RequestSink.initial.data reader bytes).dispatched :=
  refused_sink (.inl rfl) bytes

theorem Hearing.decide {channel : Channel} (h : Hearing channel) (hsink : channel.sink = none) :
    Hearing (channel.decide reader handlers) := by
  unfold Channel.decide
  split
  · split
    · exact ⟨h.pendingEof, h.refused⟩
    · exact h
  · split
    · refine ⟨h.pendingEof, ?_⟩
      simp only [h.pendingEof, Bool.false_eq_true, if_false]
      exact refused_initial _
    · dsimp only
      split
      · refine ⟨h.pendingEof, ?_⟩
        simp only [h.pendingEof, Bool.false_eq_true, if_false]
        exact .inl rfl
      · refine ⟨h.pendingEof, ?_⟩
        rw [answer, hsink]
        exact .inl rfl

/-- Data frames alone get no request dispatched. -/
theorem Hearing.data {channel : Channel} (h : Hearing channel) (chunk : List UInt8) :
    Hearing (channel.data reader handlers chunk) := by
  unfold Channel.data
  split
  · exact h
  · split
    · rename_i sink hsink
      refine ⟨h.pendingEof, ?_⟩
      have hrefused := h.refused
      cases sink with
      | request sink =>
        rw [answer, hsink] at hrefused
        exact refused_sink hrefused chunk
      | stream head resumed input ended => exact .inl rfl
    · rename_i hsink
      split
      · exact h
      · exact Hearing.decide ⟨h.pendingEof, h.refused⟩ hsink

theorem hearing_foldl (chunks : List (List UInt8)) :
    Hearing (chunks.foldl (Channel.data reader handlers) (.waiting [])) := by
  have hstart : Hearing (.waiting []) := ⟨rfl, .inl rfl⟩
  generalize Channel.waiting [] = channel at *
  induction chunks generalizing channel with
  | nil => exact hstart
  | cons chunk chunks ih => exact ih _ (hstart.data chunk)

theorem answer_of_outcome {channel : Channel} (hopen : channel.closed = false) {x : Answer}
    (h : answer channel = some x) : channel.outcome = .request (some x) := by
  unfold answer at h
  unfold Channel.outcome
  rw [if_neg (by rw [hopen]; decide)]
  split at h
  · rename_i sink hsink
    rw [hsink]
    exact congrArg Outcome.request h
  · cases h

theorem eof_closed (channel : Channel) : (channel.eof reader).closed = channel.closed := by
  unfold Channel.eof
  split
  · rfl
  · split
    · rfl
    · split
      · rfl
      · split <;> rfl

/-- **What the EOF dispatches.** However the line and the body were cut into frames. -/
theorem answer_eof {line body : List UInt8} (hline : newline ∉ line) {chunks : List (List UInt8)}
    (hchunks : ∀ chunk ∈ chunks, chunk.length ≤ channelWindowBytes)
    (hall : chunks.flatten = line ++ newline :: body)
    (hopen : (chunks.foldl (Channel.data reader handlers) (.waiting [])).closed = false)
    {headLine : Option (List UInt8)} {payload : List UInt8}
    (h : answer ((chunks.foldl (Channel.data reader handlers) (.waiting [])).eof reader) =
      some (.dispatched headLine payload)) : headLine = some line ∧ payload = body := by
  have houtcome := answer_of_outcome ((eof_closed _).trans hopen) h
  rcases @Channel.conclude_cut reader handlers line [] body chunks hline List.not_mem_nil
    (Nat.zero_le _) hchunks hall with ⟨hsettled, -⟩ | ⟨hclosed, -⟩
  · unfold Channel.conclude at hsettled
    rw [houtcome] at hsettled
    unfold Serve.settled at hsettled
    split at hsettled
    · unfold answered at hsettled
      split at hsettled
      · cases hsettled
      · cases hsettled
        exact ⟨rfl, rfl⟩
    · split at hsettled
      · cases hsettled
      · cases hsettled
  · unfold Channel.conclude at hclosed
    rw [houtcome] at hclosed
    cases hclosed

end Requests

/-! ## The books of the agent -/

variable {env : Env} {a b : Agent}

/-- What the route's response is, as far as the route has produced it. -/
def Agent.response (a : Agent) (line : Line) : List UInt8 :=
  line.bytes ++ newline :: a.produced

/-- What has been sent at a point. -/
def Stage (a : Agent) : Point → Prop
  | .reading | .injecting _ _ => a.frames = [] ∧ a.replayed = none ∧ a.produced = []
  | .writing _ (.refusalBody _) | .writing _ .refusalEnd =>
    a.replayed = none ∧ ∃ sent, Unfinished a.frames sent
  | .writing rest (.head _ _) =>
    ∃ line sent, a.replayed = some line ∧ a.produced = [] ∧ Unfinished a.frames sent ∧
      (a.channel.closed = false → sent ++ rest = a.response line)
  | .writing rest (.piece _) =>
    ∃ line sent, a.replayed = some line ∧ Unfinished a.frames sent ∧
      (a.channel.closed = false → sent ++ rest = a.response line)
  | .nextPiece _ =>
    ∃ line sent, a.replayed = some line ∧ Unfinished a.frames sent ∧
      (a.channel.closed = false → sent = a.response line)
  | .finished =>
    (∃ sent, Unfinished a.frames sent) ∨
      ∃ bytes, Complete a.frames bytes ∧
        ∀ line, a.replayed = some line → bytes = a.response line ∧ a.complete = true

/-- The books of the agent. -/
structure Replies (a : Agent) : Prop where
  stage : Stage a a.point
  answered : a.point ≠ .reading → answer a.channel ≠ none
  finished : a.point = .finished → a.channel.closed = true

/-- What the agent does when it hears nothing. -/
structure Works (a b : Agent) : Prop where
  injections : b.injections = a.injections
  channel : b.channel = a.channel ∨ b.channel = { a.channel with closed := true }
  frames : ∃ more, b.frames = a.frames ++ more
  reading : a.point = .reading → b.point = .reading
  finished : a.point = .finished → b.frames = a.frames ∧ b.point = .finished

theorem Works.trans {c : Agent} (h : Works a b) (h' : Works b c) : Works a c where
  injections := h'.injections.trans h.injections
  channel := by
    rcases h'.channel with heq' | heq'
    · rw [heq']
      exact h.channel
    · rcases h.channel with heq | heq
      · exact .inr (by rw [heq', heq])
      · exact .inr (by rw [heq', heq])
  frames := by
    obtain ⟨more, heq⟩ := h.frames
    obtain ⟨more', heq'⟩ := h'.frames
    exact ⟨more ++ more', by rw [heq', heq, List.append_assoc]⟩
  reading ha := h'.reading (h.reading ha)
  finished ha := by
    obtain ⟨hframes, hb⟩ := h.finished ha
    obtain ⟨hframes', hc⟩ := h'.finished hb
    exact ⟨hframes'.trans hframes, hc⟩

theorem unfinished_of_stage {point : Point} (h : Stage a point) (hpoint : point ≠ .finished) :
    ∃ sent, Unfinished a.frames sent := by
  have hnone : a.frames = [] → ∃ sent, Unfinished a.frames sent := fun h => by
    rw [h]
    exact ⟨[], unfinished_nil⟩
  unfold Stage at h
  split at h
  · exact hnone h.1
  · exact hnone h.1
  · exact h.2
  · exact h.2
  · obtain ⟨-, sent, -, -, hsent, -⟩ := h
    exact ⟨sent, hsent⟩
  · obtain ⟨-, sent, -, hsent, -⟩ := h
    exact ⟨sent, hsent⟩
  · obtain ⟨-, sent, -, hsent, -⟩ := h
    exact ⟨sent, hsent⟩
  · exact absurd rfl hpoint

/-- The channel is closed. -/
theorem Stage.close {point : Point} (h : Stage a point) : Stage a.close point := by
  unfold Stage at h ⊢
  split
  · exact h
  · exact h
  · exact h
  · exact h
  · obtain ⟨line, sent, hline, hproduced, hsent, -⟩ := h
    exact ⟨line, sent, hline, hproduced, hsent, Bool.noConfusion⟩
  · obtain ⟨line, sent, hline, hsent, -⟩ := h
    exact ⟨line, sent, hline, hsent, Bool.noConfusion⟩
  · obtain ⟨line, sent, hline, hsent, -⟩ := h
    exact ⟨line, sent, hline, hsent, Bool.noConfusion⟩
  · exact h

theorem Replies.close (h : Replies a) : Replies a.close where
  stage := h.stage.close
  answered := h.answered
  finished _ := rfl

/-- The agent keeps its books while it works. -/
structure Keeps (a b : Agent) : Prop where
  replies : Replies b
  works : Works a b

theorem Keeps.trans {c : Agent} (h : Keeps a b) (h' : Keeps b c) : Keeps a c :=
  ⟨h'.replies, h.works.trans h'.works⟩

/-- The handler is at work. -/
def Point.busy : Point → Bool
  | .reading | .finished => false
  | _ => true

theorem Works.of_busy (ha : a.point.busy = true) (hinjections : b.injections = a.injections)
    (hchannel : b.channel = a.channel ∨ b.channel = { a.channel with closed := true })
    (hframes : ∃ more, b.frames = a.frames ++ more) : Works a b where
  injections := hinjections
  channel := hchannel
  frames := hframes
  reading h := by
    rw [h] at ha
    cases ha
  finished h := by
    rw [h] at ha
    cases ha

theorem Replies.answered_of_busy (h : Replies a) (ha : a.point.busy = true) :
    answer a.channel ≠ none := by
  refine h.answered fun hpoint => ?_
  rw [hpoint] at ha
  cases ha

theorem Replies.unfinished (h : Replies a) (ha : a.point.busy = true) :
    ∃ sent, Unfinished a.frames sent := by
  refine unfinished_of_stage h.stage fun hpoint => ?_
  rw [hpoint] at ha
  cases ha

/-- The handler ends without an EOF. -/
theorem Replies.finish (h : Replies a) (ha : a.point.busy = true) : Keeps a a.finish where
  replies := {
    stage := by
      have hsent := h.unfinished ha
      exact .inl hsent
    answered := fun _ => h.answered_of_busy ha
    finished := fun _ => rfl }
  works := .of_busy ha rfl (.inr rfl) ⟨[], (List.append_nil _).symm⟩

/-- To another point, with nothing sent. -/
theorem Replies.goTo (h : Replies a) (ha : a.point.busy = true) {point : Point}
    (hstage : Stage a point) (hpoint : point.busy = true) : Keeps a { a with point } where
  replies := {
    stage := hstage
    answered := fun _ => h.answered_of_busy ha
    finished := fun heq => by
      rw [show point = .finished from heq] at hpoint
      cases hpoint }
  works := .of_busy ha rfl (.inl rfl) ⟨[], (List.append_nil _).symm⟩

/-- The response has ended. -/
theorem Replies.ended (h : Replies a) (ha : a.point.busy = true) :
    Keeps a { a with complete := true } where
  replies := {
    stage := by
      have hstage := h.stage
      show Stage { a with complete := true } a.point
      generalize a.point = point at *
      unfold Stage at hstage ⊢
      split
      · exact hstage
      · exact hstage
      · exact hstage
      · exact hstage
      · exact hstage
      · exact hstage
      · exact hstage
      · cases ha
    answered := h.answered
    finished := h.finished }
  works := .of_busy ha rfl (.inl rfl) ⟨[], (List.append_nil _).symm⟩

/-- The whole response is sent. -/
theorem Replies.sendEof (h : Replies a) (ha : a.point.busy = true) {sent : List UInt8}
    (hsent : Unfinished a.frames sent)
    (hwhole : a.channel.closed = false →
      ∀ line, a.replayed = some line → sent = a.response line ∧ a.complete = true)
    (torn : Bool) : Keeps a (a.sendEof torn) := by
  unfold Agent.sendEof
  split
  · exact h.finish ha
  · rename_i hopen
    rw [not_or] at hopen
    exact {
      replies := {
        stage := .inr ⟨sent, hsent.eof, hwhole (Bool.eq_false_of_not_eq_true hopen.1)⟩
        answered := fun _ => h.answered_of_busy ha
        finished := fun _ => rfl }
      works := .of_busy ha rfl (.inr rfl) ⟨[.eof], rfl⟩ }

theorem Replies.written (h : Replies a) {next : Next} (hpoint : a.point = .writing [] next)
    (torn : Bool) : Keeps a (a.written next torn) := by
  have ha : a.point.busy = true := by
    rw [hpoint]
    rfl
  have hstage := h.stage
  rw [hpoint] at hstage
  cases next with
  | refusalBody body => exact h.goTo ha hstage rfl
  | refusalEnd =>
    obtain ⟨hnone, sent, hsent⟩ := hstage
    refine h.sendEof ha hsent (fun _ line hline => ?_) torn
    rw [hnone] at hline
    cases hline
  | head bodyless cap =>
    obtain ⟨line, sent, hline, hproduced, hsent, hall⟩ := hstage
    unfold Agent.written
    dsimp only
    split
    · have hended := h.ended ha
      refine hended.trans (hended.replies.sendEof ha hsent (fun hopen line' hline' => ?_) torn)
      rw [show a.replayed = some line' from hline'] at hline
      cases hline
      exact ⟨(List.append_nil sent).symm.trans (hall hopen), rfl⟩
    · refine h.goTo ha ⟨line, sent, hline, hsent, fun hopen => ?_⟩ rfl
      rw [← hall hopen, List.append_nil]
  | piece cap =>
    obtain ⟨line, sent, hline, hsent, hall⟩ := hstage
    refine h.goTo ha ⟨line, sent, hline, hsent, fun hopen => ?_⟩ rfl
    rw [← hall hopen, List.append_nil]

/-- A chunk of a `write` is sent. -/
theorem Stage.send {rest : List UInt8} {next : Next} (h : Stage a (.writing rest next))
    (window n : ℕ) (point : Point) :
    Stage { a with window, point, frames := a.frames ++ [.data (rest.take n)] }
      (.writing (rest.drop n) next) := by
  have hcut : ∀ sent : List UInt8, sent ++ rest.take n ++ rest.drop n = sent ++ rest := by
    intro sent
    rw [List.append_assoc, List.take_append_drop]
  cases next with
  | refusalBody body =>
    obtain ⟨hnone, sent, hsent⟩ := h
    exact ⟨hnone, _, hsent.data _⟩
  | refusalEnd =>
    obtain ⟨hnone, sent, hsent⟩ := h
    exact ⟨hnone, _, hsent.data _⟩
  | head bodyless cap =>
    obtain ⟨line, sent, hline, hproduced, hsent, hall⟩ := h
    exact ⟨line, _, hline, hproduced, hsent.data _, fun hopen => (hcut sent).trans (hall hopen)⟩
  | piece cap =>
    obtain ⟨line, sent, hline, hsent, hall⟩ := h
    exact ⟨line, _, hline, hsent.data _, fun hopen => (hcut sent).trans (hall hopen)⟩

/-- A chunk of a `write` tears the connection. -/
theorem Stage.torn {rest : List UInt8} {next : Next} (h : Stage a (.writing rest next))
    (window n : ℕ) (point : Point) :
    Stage { a with window, point }.close (.writing (rest.drop n) next) := by
  cases next with
  | refusalBody body => exact h
  | refusalEnd => exact h
  | head bodyless cap =>
    obtain ⟨line, sent, hline, hproduced, hsent, -⟩ := h
    exact ⟨line, sent, hline, hproduced, hsent, Bool.noConfusion⟩
  | piece cap =>
    obtain ⟨line, sent, hline, hsent, -⟩ := h
    exact ⟨line, sent, hline, hsent, Bool.noConfusion⟩

theorem Replies.writeRound (h : Replies a) {rest : List UInt8} {next : Next}
    (hpoint : a.point = .writing rest next) {torn : Bool}
    (ht : a.writeRound rest next torn = some b) : Keeps a b := by
  have ha : a.point.busy = true := by
    rw [hpoint]
    rfl
  unfold Agent.writeRound at ht
  split at ht
  · rename_i hrest
    rw [hrest] at hpoint
    cases ht
    exact h.written hpoint torn
  · split at ht
    · cases ht
      exact h.finish ha
    · rename_i hopen
      dsimp only at ht
      generalize min (min Exchange.writeChunkBytes rest.length) a.window = n at ht
      split at ht
      · cases ht
      · have hstage := h.stage
        rw [hpoint] at hstage
        cases ht
        cases torn with
        | true => exact {
            replies := ⟨hstage.torn _ n _, fun _ => h.answered_of_busy ha, fun _ => rfl⟩
            works := .of_busy ha rfl (.inr rfl) ⟨[], (List.append_nil _).symm⟩ }
        | false => exact {
            replies := ⟨hstage.send _ n _, fun _ => h.answered_of_busy ha, Point.noConfusion⟩
            works := .of_busy ha rfl (.inl rfl) ⟨_, rfl⟩ }

theorem Replies.respond (h : Replies a) (ha : a.point.busy = true) (hnone : a.replayed = none)
    (status : ℕ) (headers : List (String × HeaderValue)) (body : List UInt8) :
    Keeps a (a.respond env status headers body) :=
  h.goTo ha ⟨hnone, h.unfinished ha⟩ rfl

/-- `app.inject` has answered. -/
theorem Replies.responded (h : Replies a) {method path : String}
    (hpoint : a.point = .injecting method path) (status : ℕ)
    (headers : List (String × HeaderValue)) :
    Keeps a (a.responded env method path status headers) := by
  have ha : a.point.busy = true := by
    rw [hpoint]
    rfl
  have hstage := h.stage
  rw [hpoint] at hstage
  obtain ⟨hframes, hnone, hproduced⟩ := hstage
  unfold Agent.responded
  dsimp only
  split
  · exact h.finish ha
  · split
    · exact h.respond ha hnone _ _ _
    · have hsent : Unfinished a.frames [] := by
        rw [hframes]
        exact unfinished_nil
      exact {
        replies := {
          stage := ⟨_, [], rfl, hproduced, hsent, fun _ => by
            rw [Agent.response, hproduced, List.nil_append]⟩
          answered := fun _ => h.answered_of_busy ha
          finished := Point.noConfusion }
        works := .of_busy ha rfl (.inl rfl) ⟨[], (List.append_nil _).symm⟩ }

/-- A piece of the response has come. -/
theorem Replies.piece (h : Replies a) {cap : ℕ} (hpoint : a.point = .nextPiece cap)
    (data : List UInt8) : Keeps a (if cap < (a.produced ++ data).length then
      { a with produced := a.produced ++ data }.finish
    else { a with produced := a.produced ++ data, point := .writing data (.piece cap) }) := by
  have ha : a.point.busy = true := by
    rw [hpoint]
    rfl
  have hstage := h.stage
  rw [hpoint] at hstage
  obtain ⟨line, sent, hline, hsent, hall⟩ := hstage
  split
  · exact {
      replies := ⟨.inl ⟨sent, hsent⟩, fun _ => h.answered_of_busy ha, fun _ => rfl⟩
      works := .of_busy ha rfl (.inr rfl) ⟨[], (List.append_nil _).symm⟩ }
  · exact {
      replies := {
        stage := ⟨line, sent, hline, hsent, fun hopen => by
          rw [hall hopen]
          exact List.append_assoc _ _ _⟩
        answered := fun _ => h.answered_of_busy ha
        finished := Point.noConfusion }
      works := .of_busy ha rfl (.inl rfl) ⟨[], (List.append_nil _).symm⟩ }

/-- **The step lemma of the agent.** -/
theorem Replies.step (h : Replies a) {e : Event} (ht : a.step env e = some b) : Keeps a b := by
  cases e with
  | responded status headers =>
    simp only [Agent.step] at ht
    split at ht
    · rename_i method path hpoint
      cases ht
      exact h.responded hpoint status headers
    · cases ht
  | rejected =>
    simp only [Agent.step] at ht
    split at ht
    · rename_i method path hpoint
      have hstage := h.stage
      rw [hpoint] at hstage
      cases ht
      refine h.respond ?_ hstage.2.1 _ _ _
      rw [hpoint]
      rfl
    · cases ht
  | piece data =>
    simp only [Agent.step] at ht
    split at ht
    · rename_i cap hpoint
      cases ht
      exact h.piece hpoint data
    · cases ht
  | ended torn =>
    simp only [Agent.step] at ht
    split at ht
    · rename_i cap hpoint
      have ha : a.point.busy = true := by
        rw [hpoint]
        rfl
      have hstage := h.stage
      rw [hpoint] at hstage
      obtain ⟨line, sent, hline, hsent, hall⟩ := hstage
      cases ht
      have hended := h.ended ha
      refine hended.trans (hended.replies.sendEof ha hsent (fun hopen line' hline' => ?_) torn)
      rw [show a.replayed = some line' from hline'] at hline
      cases hline
      exact ⟨hall hopen, rfl⟩
    · cases ht
  | failed =>
    simp only [Agent.step] at ht
    split at ht
    · rename_i cap hpoint
      cases ht
      refine h.finish ?_
      rw [hpoint]
      rfl
    · cases ht
  | closed =>
    cases ht
    exact {
      replies := h.close
      works := ⟨rfl, .inr rfl, ⟨[], (List.append_nil _).symm⟩, id, fun ha => ⟨rfl, ha⟩⟩ }
  | windowAdjust bytes =>
    cases ht
    exact {
      replies := ⟨h.stage, h.answered, h.finished⟩
      works := ⟨rfl, .inl rfl, ⟨[], (List.append_nil _).symm⟩, id, fun ha => ⟨rfl, ha⟩⟩ }
  | proceed torn =>
    simp only [Agent.step] at ht
    split at ht
    · rename_i rest next hpoint
      exact h.writeRound hpoint ht
    · rename_i method path hpoint
      split at ht
      · cases ht
        refine h.finish ?_
        rw [hpoint]
        rfl
      · cases ht
    · rename_i cap hpoint
      split at ht
      · cases ht
        refine h.finish ?_
        rw [hpoint]
        rfl
      · cases ht
    · cases ht

/-! ## What is heard -/

/-- What a request has come to stays. -/
theorem answer_data {reader : Reader} {handlers : Handlers} {channel : Channel} {x : Answer}
    (h : answer channel = some x) (chunk : List UInt8) :
    answer (channel.data reader handlers chunk) = some x := by
  unfold answer at h
  split at h
  · rename_i sink hsink
    unfold Channel.data
    split
    · rw [answer, hsink]
      exact h
    · rw [hsink]
      have hsame : sink.data reader chunk = sink := by
        rw [RequestSink.data, if_pos (by rw [h]; rfl)]
      show (sink.data reader chunk).dispatched = some x
      rw [hsame]
      exact h
  · cases h

theorem answer_eof_of_some {reader : Reader} {channel : Channel} {x : Answer}
    (h : answer channel = some x) : answer (channel.eof reader) = some x := by
  unfold answer at h
  split at h
  · rename_i sink hsink
    unfold Channel.eof
    split
    · rw [answer, hsink]
      exact h
    · rw [hsink]
      have hsame : sink.eof = sink := by
        rw [RequestSink.eof, if_pos (by rw [h]; rfl)]
      show sink.eof.dispatched = some x
      rw [hsame]
      exact h
  · cases h

theorem answer_heard {channel : Channel} {x : Answer} (h : answer channel = some x)
    (frame : Frame) : answer (heard env channel frame) = some x := by
  cases frame with
  | data chunk => exact answer_data h chunk
  | eof => exact answer_eof_of_some h

/-- What an agent does with a frame. -/
structure Hears (env : Env) (a : Agent) (frame : Frame) (b : Agent) : Prop where
  channel : b.channel.closed = false → b.channel = heard env a.channel frame
  frames : b.frames = a.frames
  injections : b.injections = a.injections ∨ ∃ headLine body injection,
    answer (heard env a.channel frame) = some (.dispatched headLine body) ∧
      replay env headLine body = .ok injection ∧ b.injections = a.injections ++ [injection]

theorem heard_closed {channel : Channel} (h : channel.closed = true) (frame : Frame) :
    heard env channel frame = channel := by
  cases frame with
  | data chunk => exact if_pos h
  | eof => exact if_pos h

theorem heard_open {channel : Channel} {frame : Frame}
    (h : (heard env channel frame).closed = false) : channel.closed = false := by
  refine Bool.eq_false_of_not_eq_true fun hclosed => ?_
  rw [heard_closed hclosed, hclosed] at h
  cases h

theorem Stage.channel {point : Point} (h : Stage a point) {channel : Channel}
    (hopen : channel.closed = false → a.channel.closed = false) :
    Stage { a with channel } point := by
  unfold Stage at h ⊢
  split
  · exact h
  · exact h
  · exact h
  · exact h
  · obtain ⟨line, sent, hline, hproduced, hsent, hall⟩ := h
    exact ⟨line, sent, hline, hproduced, hsent, fun hb => hall (hopen hb)⟩
  · obtain ⟨line, sent, hline, hsent, hall⟩ := h
    exact ⟨line, sent, hline, hsent, fun hb => hall (hopen hb)⟩
  · obtain ⟨line, sent, hline, hsent, hall⟩ := h
    exact ⟨line, sent, hline, hsent, fun hb => hall (hopen hb)⟩
  · exact h

/-- A request that was not dispatched before is. -/
theorem Replies.dispatch (h : Replies a) (hreading : a.point = .reading) {channel : Channel}
    {x : Answer} (hx : answer channel = some x) :
    Replies ({ a with channel }.dispatch env x) ∧
      (({ a with channel }.dispatch env x).channel.closed = false →
        ({ a with channel }.dispatch env x).channel = channel) ∧
      ({ a with channel }.dispatch env x).frames = a.frames ∧
      (({ a with channel }.dispatch env x).injections = a.injections ∨
        ∃ headLine body injection, x = .dispatched headLine body ∧
          replay env headLine body = .ok injection ∧
          ({ a with channel }.dispatch env x).injections = a.injections ++ [injection]) := by
  have hstage := h.stage
  rw [hreading] at hstage
  obtain ⟨hframes, hnone, hproduced⟩ := hstage
  have hsent : ∃ sent, Unfinished a.frames sent := by
    rw [hframes]
    exact ⟨[], unfinished_nil⟩
  have hanswered : answer channel ≠ none := by
    rw [hx]
    exact Option.some_ne_none x
  have hrefuse : ∀ status message, Replies ({ a with channel }.refuse env status message) :=
    fun status message => ⟨⟨hnone, hsent⟩, fun _ => hanswered, Point.noConfusion⟩
  unfold Agent.dispatch
  split
  · exact ⟨hrefuse _ _, fun _ => rfl, rfl, .inl rfl⟩
  · split
    · exact ⟨hrefuse _ _, fun _ => rfl, rfl, .inl rfl⟩
    · rename_i headLine body reply injection hreplay
      split
      · exact ⟨⟨.inl hsent, fun _ => hanswered, fun _ => rfl⟩, Bool.noConfusion, rfl, .inl rfl⟩
      · exact ⟨⟨⟨hframes, hnone, hproduced⟩, fun _ => hanswered, Point.noConfusion⟩, fun _ => rfl,
          rfl, .inr ⟨headLine, body, injection, rfl, hreplay, rfl⟩⟩

/-- **The step lemma of what is heard.** -/
theorem Replies.hear (h : Replies a) (frame : Frame) :
    Replies (a.hear env frame) ∧ Hears env a frame (a.hear env frame) := by
  unfold Agent.hear
  dsimp only
  cases hbefore : answer a.channel with
  | none =>
    have hreading : a.point = .reading := by
      by_contra hpoint
      exact h.answered hpoint hbefore
    cases hafter : answer (heard env a.channel frame) with
    | none =>
      refine ⟨⟨h.stage.channel heard_open, fun hpoint => absurd hreading hpoint, fun hpoint => ?_⟩,
        fun _ => rfl, rfl, .inl rfl⟩
      rw [show Agent.point _ = a.point from rfl, hreading] at hpoint
      cases hpoint
    | some x =>
      obtain ⟨hreplies, hchannel, hframes, hinjections⟩ := h.dispatch hreading hafter
      refine ⟨hreplies, hchannel, hframes, hinjections.imp id ?_⟩
      rintro ⟨headLine, body, injection, rfl, hreplay, heq⟩
      exact ⟨headLine, body, injection, hafter, hreplay, heq⟩
  | some x =>
    have hafter := @answer_heard env _ _ hbefore frame
    refine ⟨⟨h.stage.channel heard_open, fun _ => ?_, fun hpoint => ?_⟩, fun _ => rfl, rfl,
      .inl rfl⟩
    · rw [show Agent.channel _ = heard env a.channel frame from rfl, hafter]
      exact Option.some_ne_none x
    · have hclosed := h.finished hpoint
      rw [show Agent.channel _ = heard env a.channel frame from rfl, heard_closed hclosed]
      exact hclosed

end Replay
end Mullion
