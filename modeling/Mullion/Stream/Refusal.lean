import Mullion.Stream.Replies

/-!
# What the agent answers for itself

Not every response on a channel is one of the route.  The handler of the EOF refuses what it does
not carry (`refusals`) before any route is called, and behind the call it still answers for itself
when `app.inject` rejects, or when the response declares more than the channel may carry.

`OwnReply` lists these responses with what has to have happened for each, and `Owns.sent` says that
an agent that has written no head of a route has sent a part of one of them, or the whole of it and
an EOF.  The proof follows the handler from one `await` to the next: `OwnStage` says what has been
sent where it stands, and every event keeps it (`Owns.step`, `Owns.hear`).
-/

namespace Mullion
namespace Replay

open Mullion.Stream Serve Exchange

/-- What the agent refuses before a route is called. -/
def refusals : List (ℕ × String) :=
  [(413, "request too large"), (400, "malformed request head"), (405, "method not allowed"),
    (400, "path not carried by the channel")]

/-- A response of the agent itself, by status, head line and body, for what it has called. -/
inductive OwnReply (env : Env) (injections : List Injection) : ℕ → Line → List UInt8 → Prop
  /-- no route was called -/
  | refused {status : ℕ} {message : String} (hmem : (status, message) ∈ refusals)
      (hnone : injections = []) :
      OwnReply env injections status
        (env.stringify status [("content-type", .one "application/json")]) (env.message message)
  /-- `app.inject` has rejected -/
  | failed (hsome : injections ≠ []) :
      OwnReply env injections 500 (env.stringify 500 [("content-type", .one "application/json")])
        (env.message "agent failed to handle the request")
  /-- the response of the route is too large -/
  | tooLarge {injection : Injection} (hmem : injection ∈ injections) :
      OwnReply env injections 413
        (env.stringify 413
          [("content-type", .one "application/json"), (responseTooLargeHeader, .one "1")])
        (env.message (responseTooLargeMessage (maxResponseBodyBytesForPath injection.url)))

/-- A response as it is sent. -/
def told (line : Line) (body : List UInt8) : List UInt8 := line.bytes ++ newline :: body

/-- A response of the agent itself is sent, in part, or as a whole with the EOF behind it. -/
def SentOwn (env : Env) (a : Agent) : Prop :=
  ∃ status line body, OwnReply env a.injections status line body ∧
    ((∃ sent, Unfinished a.frames sent ∧ sent <+: told line body) ∨
      Complete a.frames (told line body))

/-- Some of the response has been sent; on an open channel all but the rest. -/
def Part (env : Env) (a : Agent) (body rest : List UInt8) : Prop :=
  ∃ status line sent, OwnReply env a.injections status line body ∧ Unfinished a.frames sent ∧
    sent <+: told line body ∧ (a.channel.closed = false → sent ++ rest = told line body)

/-- What the agent has sent of its own at a point. -/
def OwnStage (env : Env) (a : Agent) : Point → Prop
  | .reading => a.injections = []
  | .injecting _ path => ∃ injection ∈ a.injections, injection.url = path
  | .writing rest (.refusalBody body) => Part env a body (rest ++ body)
  | .writing rest .refusalEnd => ∃ body, Part env a body rest
  | .finished => a.replayed = none → a.frames = [] ∨ SentOwn env a
  | _ => True

/-- The books of the agent's own responses. -/
def Owns (env : Env) (a : Agent) : Prop := OwnStage env a a.point

variable {env : Env} {a b : Agent}

theorem refusal_mem {headLine : Option (List UInt8)} {body : List UInt8} {status : ℕ}
    {message : String} (h : replay env headLine body = .error (status, message)) :
    (status, message) ∈ refusals := by
  unfold replay at h
  dsimp only at h
  repeat' split at h
  all_goals cases h
  all_goals decide

/-- The same is sent, and the channel is as open as before, or closed. -/
theorem Part.of_same {body rest : List UInt8} (h : Part env a body rest)
    (hinjections : b.injections = a.injections) (hframes : b.frames = a.frames)
    (hopen : b.channel.closed = false → a.channel.closed = false) : Part env b body rest := by
  unfold Part at h ⊢
  rw [hinjections, hframes]
  obtain ⟨status, line, sent, hown, hsent, hpart, hall⟩ := h
  exact ⟨status, line, sent, hown, hsent, hpart, fun hb => hall (hopen hb)⟩

theorem OwnStage.of_same {point : Point} (h : OwnStage env a point)
    (hinjections : b.injections = a.injections) (hframes : b.frames = a.frames)
    (hreplayed : b.replayed = a.replayed)
    (hopen : b.channel.closed = false → a.channel.closed = false) : OwnStage env b point := by
  unfold OwnStage at h ⊢
  split
  · exact hinjections.trans h
  · rw [hinjections]
    exact h
  · exact h.of_same hinjections hframes hopen
  · obtain ⟨body, hpart⟩ := h
    exact ⟨body, hpart.of_same hinjections hframes hopen⟩
  · rw [hreplayed, hframes, SentOwn, hframes, hinjections]
    exact h
  · trivial

/-- **What the agent has sent for itself.** At every point, if no head of a route is written. -/
theorem Owns.sent (h : Owns env a) (hreplies : Replies a) (hnone : a.replayed = none) :
    a.frames = [] ∨ SentOwn env a := by
  have hpart : ∀ {body rest}, Part env a body rest → SentOwn env a := by
    rintro body rest ⟨status, line, sent, hown, hsent, hpart, -⟩
    exact ⟨status, line, body, hown, .inl ⟨sent, hsent, hpart⟩⟩
  have hstage := hreplies.stage
  unfold Owns at h
  cases hpoint : a.point with
  | reading =>
    rw [hpoint] at hstage
    exact .inl hstage.1
  | injecting method path =>
    rw [hpoint] at hstage
    exact .inl hstage.1
  | finished =>
    rw [hpoint] at h
    exact h hnone
  | nextPiece cap =>
    rw [hpoint] at hstage
    obtain ⟨line, -, hline, -⟩ := hstage
    cases hnone.symm.trans hline
  | writing rest next =>
    rw [hpoint] at h hstage
    cases next with
    | refusalBody body => exact .inr (hpart h)
    | refusalEnd =>
      obtain ⟨body, h⟩ := h
      exact .inr (hpart h)
    | head bodyless cap =>
      obtain ⟨line, -, hline, -⟩ := hstage
      cases hnone.symm.trans hline
    | piece cap =>
      obtain ⟨line, -, hline, -⟩ := hstage
      cases hnone.symm.trans hline

/-- A whole response is the whole of one of them. -/
theorem Owns.whole (h : Owns env a) (hreplies : Replies a) (hnone : a.replayed = none)
    {line body : List UInt8} (hline : newline ∉ line)
    (hcomplete : Complete a.frames (line ++ newline :: body)) :
    ∃ status headLine, OwnReply env a.injections status headLine body ∧ line = headLine.bytes := by
  rcases h.sent hreplies hnone with hframes | ⟨status, headLine, whole, hown, hsent⟩
  · have heof := hcomplete.eof_mem
    rw [hframes] at heof
    cases heof
  · rcases hsent with ⟨sent, hsent, -⟩ | hcomplete'
    · exact absurd hcomplete.eof_mem hsent.eof_notMem
    · obtain ⟨rfl, rfl⟩ :=
        line_unique hline headLine.unbroken (hcomplete.unique hcomplete')
      exact ⟨status, headLine, hown, rfl⟩

/-- The handler ends without an EOF. -/
theorem Owns.finish (h : Owns env a) (hreplies : Replies a) : Owns env a.finish :=
  h.sent hreplies

/-- The agent starts to answer for itself. -/
theorem owns_respond (hframes : a.frames = []) {status : ℕ}
    {headers : List (String × HeaderValue)} {body : List UInt8}
    (hown : OwnReply env a.injections status (env.stringify status headers) body) :
    Owns env (a.respond env status headers body) := by
  have hsent : Unfinished a.frames [] := by
    rw [hframes]
    exact unfinished_nil
  refine ⟨status, _, [], hown, hsent, List.nil_prefix, fun _ => ?_⟩
  rw [told, List.nil_append, List.append_assoc]
  rfl

theorem Owns.sendEof (h : Owns env a) (hreplies : Replies a)
    (hwhole : a.replayed = none → a.channel.closed = false → ∃ status line body,
      OwnReply env a.injections status line body ∧ Unfinished a.frames (told line body))
    (torn : Bool) : Owns env (a.sendEof torn) := by
  unfold Agent.sendEof
  split
  · exact h.finish hreplies
  · rename_i hopen
    rw [not_or] at hopen
    intro hnone
    obtain ⟨status, line, body, hown, hsent⟩ :=
      hwhole hnone (Bool.eq_false_of_not_eq_true hopen.1)
    exact .inr ⟨status, line, body, hown, .inr hsent.eof⟩

theorem Owns.written (h : Owns env a) (hreplies : Replies a) {next : Next}
    (hpoint : a.point = .writing [] next) (torn : Bool) : Owns env (a.written next torn) := by
  have hstage := hreplies.stage
  have hown : OwnStage env a a.point := h
  rw [hpoint] at hstage hown
  have hsome : ∀ {line}, a.replayed = some line → a.replayed ≠ none := fun hline => by
    rw [hline]
    exact Option.some_ne_none _
  cases next with
  | refusalBody body =>
    exact ⟨body, Part.of_same (b := { a with point := .writing body .refusalEnd }) hown rfl rfl id⟩
  | refusalEnd =>
    refine h.sendEof hreplies (fun _ hopen => ?_) torn
    obtain ⟨body, status, line, sent, hown, hsent, -, hall⟩ := hown
    refine ⟨status, line, body, hown, ?_⟩
    rw [← hall hopen, List.append_nil]
    exact hsent
  | head bodyless cap =>
    obtain ⟨line, -, hline, -⟩ := hstage
    unfold Agent.written
    dsimp only
    split
    · have ha : a.point.busy = true := by
        rw [hpoint]
        rfl
      exact Owns.sendEof (a := { a with complete := true }) (h.of_same rfl rfl rfl id)
        (hreplies.ended ha).replies (fun hnone => absurd hnone (hsome hline)) torn
    · exact trivial
  | piece cap => exact trivial

/-- A chunk of a `write` is sent, or tears the connection. -/
theorem Part.send {body rest : List UInt8} (h : Part env a body rest) {chunk rest' : List UInt8}
    (hcut : rest = chunk ++ rest') (hopen : a.channel.closed = false)
    (hinjections : b.injections = a.injections) (hframes : b.frames = a.frames ++ [.data chunk]) :
    Part env b body rest' := by
  obtain ⟨status, line, sent, hown, hsent, -, hall⟩ := h
  have hwhole : sent ++ chunk ++ rest' = told line body := by
    rw [List.append_assoc, ← hcut]
    exact hall hopen
  unfold Part
  rw [hinjections, hframes]
  exact ⟨status, line, sent ++ chunk, hown, hsent.data chunk, ⟨rest', hwhole⟩, fun _ => hwhole⟩

theorem Part.torn {body rest : List UInt8} (h : Part env a body rest) (rest' : List UInt8)
    (hinjections : b.injections = a.injections) (hframes : b.frames = a.frames)
    (hclosed : b.channel.closed = true) : Part env b body rest' := by
  obtain ⟨status, line, sent, hown, hsent, hpart, -⟩ := h
  unfold Part
  rw [hinjections, hframes, hclosed]
  exact ⟨status, line, sent, hown, hsent, hpart, Bool.noConfusion⟩

theorem Owns.writeRound (h : Owns env a) (hreplies : Replies a) {rest : List UInt8} {next : Next}
    (hpoint : a.point = .writing rest next) {torn : Bool}
    (ht : a.writeRound rest next torn = some b) : Owns env b := by
  unfold Agent.writeRound at ht
  split at ht
  · rename_i hrest
    rw [hrest] at hpoint
    cases ht
    exact h.written hreplies hpoint torn
  · split at ht
    · cases ht
      exact h.finish hreplies
    · rename_i hopen
      have hopen := Bool.eq_false_of_not_eq_true hopen
      dsimp only at ht
      generalize min (min Exchange.writeChunkBytes rest.length) a.window = n at ht
      split at ht
      · cases ht
      · have hown : OwnStage env a a.point := h
        rw [hpoint] at hown
        cases ht
        cases next with
        | refusalBody body =>
          cases torn with
          | true => exact hown.torn _ rfl rfl rfl
          | false =>
            have hcut : rest ++ body = rest.take n ++ (rest.drop n ++ body) := by
              rw [← List.append_assoc, List.take_append_drop]
            exact hown.send hcut hopen rfl rfl
        | refusalEnd =>
          obtain ⟨body, hown⟩ := hown
          cases torn with
          | true => exact ⟨body, hown.torn _ rfl rfl rfl⟩
          | false => exact ⟨body, hown.send (List.take_append_drop n rest).symm hopen rfl rfl⟩
        | head bodyless cap => cases torn <;> exact trivial
        | piece cap => cases torn <;> exact trivial

/-- **The step lemma of the agent.** -/
theorem Owns.step (h : Owns env a) (hreplies : Replies a) {e : Event}
    (ht : a.step env e = some b) : Owns env b := by
  have hstage := hreplies.stage
  have hown : OwnStage env a a.point := h
  cases e with
  | responded status headers =>
    simp only [Agent.step] at ht
    split at ht
    · rename_i method path hpoint
      rw [hpoint] at hstage hown
      obtain ⟨injection, hmem, rfl⟩ := hown
      cases ht
      unfold Agent.responded
      dsimp only
      split
      · exact h.finish hreplies
      · split
        · exact owns_respond hstage.1 (.tooLarge hmem)
        · exact trivial
    · cases ht
  | rejected =>
    simp only [Agent.step] at ht
    split at ht
    · rename_i method path hpoint
      rw [hpoint] at hstage hown
      obtain ⟨injection, hmem, -⟩ := hown
      cases ht
      exact owns_respond hstage.1 (.failed (List.ne_nil_of_mem hmem))
    · cases ht
  | piece data =>
    simp only [Agent.step] at ht
    split at ht
    · rename_i cap hpoint
      rw [hpoint] at hstage
      obtain ⟨line, -, hline, -⟩ := hstage
      cases ht
      split
      · exact fun hnone => by cases hnone.symm.trans hline
      · exact trivial
    · cases ht
  | ended torn =>
    simp only [Agent.step] at ht
    split at ht
    · rename_i cap hpoint
      have ha : a.point.busy = true := by
        rw [hpoint]
        rfl
      rw [hpoint] at hstage
      obtain ⟨line, -, hline, -⟩ := hstage
      cases ht
      refine Owns.sendEof (a := { a with complete := true }) (h.of_same rfl rfl rfl id)
        (hreplies.ended ha).replies (fun hnone => ?_) torn
      cases hnone.symm.trans hline
    · cases ht
  | failed =>
    simp only [Agent.step] at ht
    split at ht
    · cases ht
      exact h.finish hreplies
    · cases ht
  | closed =>
    cases ht
    exact h.of_same rfl rfl rfl Bool.noConfusion
  | windowAdjust bytes =>
    cases ht
    exact h.of_same rfl rfl rfl id
  | proceed torn =>
    simp only [Agent.step] at ht
    split at ht
    · rename_i rest next hpoint
      exact h.writeRound hreplies hpoint ht
    · split at ht
      · cases ht
        exact h.finish hreplies
      · cases ht
    · split at ht
      · cases ht
        exact h.finish hreplies
      · cases ht
    · cases ht

/-- **The step lemma of what is heard.** -/
theorem Owns.hear (h : Owns env a) (hreplies : Replies a) (frame : Frame) :
    Owns env (a.hear env frame) := by
  unfold Agent.hear
  dsimp only
  split
  · rename_i x hbefore hafter
    have hreading : a.point = .reading := by
      by_contra hpoint
      exact hreplies.answered hpoint hbefore
    have hstage := hreplies.stage
    have hnone : OwnStage env a a.point := h
    rw [hreading] at hstage hnone
    have hrefuse : ∀ {status message}, (status, message) ∈ refusals →
        Owns env ({ a with channel := heard env a.channel frame }.refuse env status message) :=
      fun hmem => owns_respond (a := { a with channel := heard env a.channel frame }) hstage.1
        (.refused hmem hnone)
    unfold Agent.dispatch
    split
    · exact hrefuse (by decide)
    · split
      · rename_i hreplay
        exact hrefuse (refusal_mem hreplay)
      · split
        · exact fun _ => .inl hstage.1
        · exact ⟨_, List.mem_append_right _ (List.mem_singleton_self _), rfl⟩
  · exact h.of_same rfl rfl rfl heard_open

end Replay
end Mullion
