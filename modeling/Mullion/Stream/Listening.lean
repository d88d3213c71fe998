import Mullion.Stream.Exchange

/-!
# The listeners of an exchange

* `Hears` — what a listener may do to the variables of `exchange`;
* `hears_onData`, `hears_onEof`, `hears_closeChannel` — the listeners do no more.
-/

namespace Mullion
namespace Exchange

variable {req : Request} {readHead : List UInt8 → Option ResponseHead} {s t : State}
  {A : Response → Prop}

/-- Before the channel, the function waits for one or is over. -/
theorem start_point (req : Request) : (State.start req).point = .opening ∨
    ∃ result, (State.start req).point = .done result := by
  unfold State.start
  dsimp only
  cases req.refusal with
  | some failure => exact .inr ⟨_, rfl⟩
  | none => exact .inl rfl

/-- How the listeners settle the response: with one of these responses, or as a failure after the
request began to be sent. -/
def Reply.Given (A : Response → Prop) : Reply → Prop
  | .pending => False
  | .resolved response => A response
  | .rejected failure => ∃ reason tooLarge, failure = .transport reason .afterSend tooLarge

/-- Any response. -/
def Any (_ : Response) : Prop := True

theorem Reply.Given.ne_pending {reply : Reply} (h : reply.Given A) : reply ≠ .pending := by
  rintro rfl
  exact h

namespace State

/-- What a listener may do that gives these responses. Of the point it changes at most that the
waiter of `write` is rejected, and when it closes the channel while all listeners are attached, the
response is settled and nobody waits for the window. -/
structure Hears (A : Response → Prop) (s t : State) : Prop where
  timedOut : t.timedOut = s.timedOut
  aborted : t.aborted = s.aborted
  listening : t.listening = s.listening
  pendingEof : t.pendingEof = s.pendingEof
  point : t.point = s.point ∨ ∃ rest part,
    s.point = .blocked rest part none ∧ t.point = .blocked rest part (some false)
  sent : t.frames = s.frames ∧ t.taken = s.taken ∧ t.ended = s.ended
  shut : s.closed = true → t.closed = true
  settled : t.reply = s.reply ∨ s.reply = .pending ∧ t.reply.Given A
  out : t.out = true → s.out = true ∨ t.reply ≠ .pending
  told : t.closed = true → s.closed = true ∨ s.listening = false ∨ s.out = true ∨
    t.reply ≠ .pending
  woken : t.closed = true → s.closed = true ∨ s.listening = false ∨
    ∀ rest part, t.point ≠ .blocked rest part none

theorem Hears.reply (h : Hears A s t) (hs : s.reply ≠ .pending) : t.reply ≠ .pending := by
  rcases h.settled with heq | ⟨hpending, -⟩
  · rw [heq]
    exact hs
  · exact absurd hpending hs

theorem Hears.fired (h : Hears A s t) : t.fired = s.fired := by
  rw [State.fired, State.fired, h.timedOut, h.aborted]

/-- Nothing changes that a listener has to mind. -/
theorem Hears.of_same (htimedOut : t.timedOut = s.timedOut) (haborted : t.aborted = s.aborted)
    (hlistening : t.listening = s.listening) (heof : t.pendingEof = s.pendingEof)
    (hpoint : t.point = s.point)
    (hsent : t.frames = s.frames ∧ t.taken = s.taken ∧ t.ended = s.ended)
    (hclosed : t.closed = s.closed)
    (hsettled : t.reply = s.reply ∨ s.reply = .pending ∧ t.reply.Given A)
    (hout : t.out = true → s.out = true ∨ t.reply ≠ .pending) : Hears A s t where
  timedOut := htimedOut
  aborted := haborted
  listening := hlistening
  pendingEof := heof
  point := .inl hpoint
  sent := hsent
  shut h := hclosed.trans h
  settled := hsettled
  out := hout
  told h := .inl (hclosed.symm.trans h)
  woken h := .inl (hclosed.symm.trans h)

theorem Hears.refl (s : State) : Hears A s s :=
  .of_same rfl rfl rfl rfl rfl ⟨rfl, rfl, rfl⟩ rfl (.inl rfl) .inl

theorem Hears.trans {u : State} (h : Hears A s t) (h' : Hears A t u) : Hears A s u where
  timedOut := h'.timedOut.trans h.timedOut
  aborted := h'.aborted.trans h.aborted
  listening := h'.listening.trans h.listening
  pendingEof := h'.pendingEof.trans h.pendingEof
  point := by
    rcases h.point with heq | ⟨rest, part, hs, ht⟩
    · rw [← heq]
      exact h'.point
    · rcases h'.point with heq' | ⟨rest', part', ht', -⟩
      · exact .inr ⟨rest, part, hs, heq'.trans ht⟩
      · rw [ht] at ht'
        cases ht'
  sent := ⟨h'.sent.1.trans h.sent.1, h'.sent.2.1.trans h.sent.2.1, h'.sent.2.2.trans h.sent.2.2⟩
  shut hs := h'.shut (h.shut hs)
  settled := by
    rcases h'.settled with hu | ⟨ht, hu⟩
    · rw [hu]
      exact h.settled
    · rcases h.settled with hs | ⟨-, hgiven⟩
      · exact .inr ⟨hs.symm.trans ht, hu⟩
      · exact absurd ht hgiven.ne_pending
  out hu := (h'.out hu).elim (fun ht => (h.out ht).imp id h'.reply) .inr
  told hu := by
    rcases h'.told hu with ht | ht | ht | ht
    · exact (h.told ht).imp id (.imp id (.imp id h'.reply))
    · exact .inr (.inl (h.listening.symm.trans ht))
    · exact .inr (.inr ((h.out ht).imp id h'.reply))
    · exact .inr (.inr (.inr ht))
  woken hu := by
    have hkeep : (∀ rest part, t.point ≠ .blocked rest part none) →
        ∀ rest part, u.point ≠ .blocked rest part none := by
      intro ht rest part hblocked
      rcases h'.point with heq | ⟨rest', part', -, hu'⟩
      · exact ht rest part (heq.symm.trans hblocked)
      · rw [hu'] at hblocked
        cases hblocked
    rcases h'.woken hu with ht | ht | ht
    · exact (h.woken ht).imp id (.imp id hkeep)
    · exact .inr (.inl (h.listening.symm.trans ht))
    · exact .inr (.inr ht)

theorem settle_ne_pending (s : State) {reply : Reply} (h : reply ≠ .pending) :
    (s.settle reply).reply ≠ .pending := by
  unfold settle
  split
  · exact h
  · assumption

theorem hears_settle (s : State) {reply : Reply} (h : s.reply = .pending → reply.Given A) :
    Hears A s (s.settle reply) := by
  unfold settle
  split
  · rename_i hpending
    exact .of_same rfl rfl rfl rfl rfl ⟨rfl, rfl, rfl⟩ rfl (.inr ⟨hpending, h hpending⟩) .inl
  · exact .refl s

theorem hears_touch (s : State) : Hears A s (s.touch req) := by
  unfold touch
  split
  · exact .of_same rfl rfl rfl rfl rfl ⟨rfl, rfl, rfl⟩ rfl (.inl rfl) .inl
  · exact .refl s

theorem responseClosed_told (s : State) (h : s.out = false) :
    s.responseClosed.reply ≠ .pending := by
  rw [responseClosed, h]
  exact settle_ne_pending s (Reply.noConfusion)

theorem hears_responseClosed (s : State) : Hears A s s.responseClosed := by
  unfold responseClosed
  split
  · exact .refl s
  · exact hears_settle s fun _ => ⟨_, _, rfl⟩

theorem responseClosed_point (s : State) : s.responseClosed.point = s.point := by
  unfold responseClosed settle
  split
  · rfl
  · split <;> rfl

theorem wake_eq (s : State) (ok : Bool) : ∃ point, s.wake ok = { s with point } ∧
    (point = s.point ∨ ∃ rest part,
      s.point = .blocked rest part none ∧ point = .blocked rest part (some ok)) := by
  unfold wake
  split
  · rename_i rest part hpoint
    exact ⟨_, rfl, .inr ⟨rest, part, hpoint, rfl⟩⟩
  · exact ⟨s.point, rfl, .inl rfl⟩

theorem wake_ne_blocked (s : State) (ok : Bool) (rest : List UInt8) (part : Part) :
    (s.wake ok).point ≠ .blocked rest part none := by
  unfold wake
  split
  · intro h
    cases h
  · rename_i hpoint
    exact fun h => hpoint rest part h

/-- The listeners of `onClose` learn that the channel is closed. -/
theorem hears_close (s : State) :
    Hears A s ({ s with closed := true, pendingData := [] }.responseClosed.wake false) := by
  have hears := @hears_responseClosed A { s with closed := true, pendingData := [] }
  have hpoint := responseClosed_point { s with closed := true, pendingData := [] }
  have htold := responseClosed_told { s with closed := true, pendingData := [] }
  have hwoken := wake_ne_blocked
    (responseClosed { s with closed := true, pendingData := [] }) false
  generalize responseClosed { s with closed := true, pendingData := [] } = r at *
  obtain ⟨point, hwake, hblocked⟩ := wake_eq r false
  rw [hpoint] at hblocked
  rw [hwake] at hwoken ⊢
  exact {
    timedOut := hears.timedOut
    aborted := hears.aborted
    listening := hears.listening
    pendingEof := hears.pendingEof
    point := hblocked
    sent := hears.sent
    shut := fun _ => hears.shut rfl
    settled := hears.settled
    out := hears.out
    told := fun _ => by
      cases hout : s.out with
      | false => exact .inr (.inr (.inr (htold hout)))
      | true => exact .inr (.inr (.inl rfl))
    woken := fun _ => .inr (.inr hwoken) }

/-- A channel that nobody listens to is closed. -/
theorem hears_deaf (s : State) (h : s.listening = false) :
    Hears A s { s with closed := true, pendingData := [] } where
  timedOut := rfl
  aborted := rfl
  listening := rfl
  pendingEof := rfl
  point := .inl rfl
  sent := ⟨rfl, rfl, rfl⟩
  shut _ := rfl
  settled := .inl rfl
  out := .inl
  told _ := .inr (.inl h)
  woken _ := .inr (.inl h)

theorem hears_closeChannel (s : State) : Hears A s s.closeChannel := by
  unfold closeChannel
  split
  · exact .refl s
  · dsimp only
    split
    · exact hears_close s
    · rename_i hdeaf
      exact hears_deaf s (Bool.eq_false_of_not_eq_true hdeaf)

theorem closeChannel_closed (s : State) : s.closeChannel.closed = true := by
  unfold closeChannel
  split
  · assumption
  · dsimp only
    split
    · obtain ⟨point, hwake, -⟩ :=
        wake_eq (responseClosed { s with closed := true, pendingData := [] }) false
      rw [hwake]
      exact (@hears_responseClosed Any { s with closed := true, pendingData := [] }).shut rfl
    · rfl

theorem hears_refuse (s : State) (reason : Reason) (tooLarge : Bool) :
    Hears A s (s.refuse reason tooLarge) := by
  refine (hears_settle s ?_).trans (hears_closeChannel _)
  exact fun _ => ⟨_, _, rfl⟩

theorem refuse_ne_pending (s : State) (reason : Reason) (tooLarge : Bool) :
    (s.refuse reason tooLarge).reply ≠ .pending :=
  (@hears_closeChannel Any _).reply (settle_ne_pending s Reply.noConfusion)

end State

open State

theorem hears_startStream (hA : ∀ headLine, A (.stream headLine)) (s : State)
    (headLine : List UInt8) : Hears A s (startStream readHead s headLine) := by
  unfold startStream
  split
  · have hne := @settle_ne_pending { s with out := true, bodyBytes := s.parser.body.length }
      (.resolved (.stream headLine)) Reply.noConfusion
    have hears := @hears_settle A { s with out := true, bodyBytes := s.parser.body.length }
      (.resolved (.stream headLine)) fun _ => hA headLine
    exact {
      timedOut := hears.timedOut
      aborted := hears.aborted
      listening := hears.listening
      pendingEof := hears.pendingEof
      point := hears.point
      sent := hears.sent
      shut := hears.shut
      settled := hears.settled
      out := fun _ => .inr hne
      told := fun _ => .inr (.inr (.inr hne))
      woken := hears.woken }
  · exact hears_refuse s _ _

/-- `onData` gives no response but a stream. -/
theorem hears_onData (hA : ∀ headLine, A (.stream headLine)) (s : State) (chunk : List UInt8)
    (torn : Bool) : Hears A s (onData req readHead s chunk torn) := by
  unfold onData
  refine (@hears_touch req A s).trans ?_
  generalize s.touch req = s
  dsimp only
  split
  · have hcount : Hears A s { s with bodyBytes := s.bodyBytes + chunk.length } :=
      .of_same rfl rfl rfl rfl rfl ⟨rfl, rfl, rfl⟩ rfl (.inl rfl) .inl
    split
    · exact hcount.trans (hears_closeChannel _)
    · exact hcount
  · have htorn : Hears A s (if torn then s.closeChannel else s) := by
      split
      · exact hears_closeChannel s
      · exact .refl s
    refine htorn.trans ?_
    generalize (if torn then s.closeChannel else s) = s
    have hpush : Hears A s { s with parser := (s.parser.push chunk req.responseCap).1 } :=
      .of_same rfl rfl rfl rfl rfl ⟨rfl, rfl, rfl⟩ rfl (.inl rfl) .inl
    refine hpush.trans ?_
    split
    · exact hears_refuse _ _ _
    · split
      · exact .refl _
      · split
        · exact hears_refuse _ _ _
        · split
          · exact hears_startStream hA _ _
          · exact .refl _

/-- `onEof` gives the response that the parser has read. -/
theorem hears_onEof (s : State) (hA : s.out = false → s.reply = .pending → ∀ headLine,
    s.parser.headLine = some headLine → A (.whole headLine s.parser.body)) :
    Hears A s (onEof readHead s) := by
  unfold onEof
  split
  · exact .of_same rfl rfl rfl rfl rfl ⟨rfl, rfl, rfl⟩ rfl (.inl rfl) .inl
  · rename_i hout
    split
    · exact hears_settle s fun _ => ⟨_, _, rfl⟩
    · rename_i headLine hline
      split
      · exact hears_settle s fun hpending =>
          hA (Bool.eq_false_of_not_eq_true hout) hpending headLine hline
      · exact hears_settle s fun _ => ⟨_, _, rfl⟩

/-- An EOF settles the response. -/
theorem onEof_ne_pending (s : State) (hout : s.out = true → s.reply ≠ .pending) :
    (onEof readHead s).reply ≠ .pending := by
  unfold onEof
  split
  · rename_i h
    exact hout h
  · split
    · exact settle_ne_pending s Reply.noConfusion
    · split
      · exact settle_ne_pending s Reply.noConfusion
      · exact settle_ne_pending s Reply.noConfusion

end Exchange
end Mullion
