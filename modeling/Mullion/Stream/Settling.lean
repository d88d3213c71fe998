import Mullion.Lib.Run
import Mullion.Stream.Listening

/-!
# An exchange whose time is up

The timer and the abort signal of `exchange` settle nothing themselves: they close the channel, and
the function has to notice. So one asks whether an exchange whose time is up still waits for
anything. `Settles` says that the function goes on by itself until it is done, without a further
event.

At each point where the function waits it listens for the close in its own way, and the invariant
has for every such point what it will be told (`State.Hears`). Two places are left out. While the
next piece of the request body is awaited nobody listens to the timer or the signal, and a channel
that closes between the moment its promise is settled and the moment the listeners are attached is
not heard of. `Safe` rules these out. Each segment of the function keeps the invariant (`Inv.step`),
and where the timer or the signal has fired, what is left to do is followed to the end from each
point (`settles_awaiting`, `settles_piece` and so on). `exchange_settles` is the result along every
run of safe steps; `exchange_hangs` has two runs that are not.
-/

namespace Mullion
namespace Exchange

open Mux State

variable (req : Request) (readHead : List UInt8 → Option ResponseHead)

/-! ## The property and the condition -/

/-- Whatever the sends find, the function goes on until it is done. -/
inductive Settles : State → Prop
  | done {s : State} {result : Except Failure Response} (h : s.point = .done result) : Settles s
  | go {s : State} (next : Bool → State)
    (h : ∀ torn, proceed req readHead s torn = some (next torn))
    (settles : ∀ torn, Settles (next torn)) : Settles s

/-- An exchange whose timer or signal has fired waits for nothing. -/
def SettlesOnceFired (s : State) : Prop := s.fired = true → Settles req readHead s

/-- On a closed channel the function comes to wait for the next piece of the request body. -/
def Point.awaitsPiece : Point → Bool
  | .nextPiece none | .nextPiece (some (.chunk [])) | .sending [] .piece => true
  | .sending [] .head => decide (req.body = .stream)
  | _ => false

/-- If the channel is closed now, the function learns of it: somebody listens, or the timer or
the signal has fired before, or an EOF is waiting that settles the response. -/
def State.LearnsOfClose (s : State) : Prop :=
  s.point = .opened none → s.fired = true ∨ s.pendingEof = true

instance State.decidableLearnsOfClose (s : State) : Decidable s.LearnsOfClose :=
  decidable_of_iff (¬ (match s.point with | .opened none => true | _ => false) = true ∨
    s.fired = true ∨ s.pendingEof = true) <| by
    unfold LearnsOfClose
    cases s.point with
    | opened failure => cases failure <;> simp
    | _ => simp

/-- The condition on a step: the timer and the signal do not fire while the next piece of the
request body is awaited, and the channel is not closed between the moment at which its
promise is settled and the moment at which the function attaches its listeners. -/
def Safe (s : State) : Event → Prop
  | .timeout | .abort => s.point.awaitsPiece req = false
  | .closed => s.LearnsOfClose
  | .proceed torn => torn = true → s.pendingData ≠ [] → s.LearnsOfClose
  | .data chunk _ =>
    channelWindowBytes < s.pendingData.flatten.length + chunk.length → s.LearnsOfClose
  | _ => True

instance decidableSafe (s : State) : ∀ e : Event, Decidable (Safe req s e)
  | .timeout | .abort => inferInstanceAs (Decidable (_ = false))
  | .closed => inferInstanceAs (Decidable s.LearnsOfClose)
  | .proceed _ => inferInstanceAs (Decidable (_ = true → s.pendingData ≠ [] → s.LearnsOfClose))
  | .data _ _ => inferInstanceAs (Decidable (_ < _ → s.LearnsOfClose))
  | .waiting | .slotAcquired | .openResolved | .openRejected _ _ | .slotTimeout | .eof
  | .windowAdjust _ | .piece _ => inferInstanceAs (Decidable True)

variable {req readHead} {s t : State}

/-! ## The invariant -/

/-- What the listeners keep. -/
structure Attached (s : State) : Prop where
  /-- those who listen know that the channel is closed -/
  told : s.listening = true → s.closed = true → s.reply ≠ .pending
  woken : s.listening = true → s.closed = true → ∀ rest part, s.point ≠ .blocked rest part none
  out : s.out = true → s.reply ≠ .pending
  listens : s.point.running = true → s.listening = true
  deaf : s.listening = true → s.point ≠ .opening ∧ s.point ≠ .opened none
  unopened : s.point = .opening → s.closed = false
  learns : s.closed = true → s.LearnsOfClose
  /-- `write` waits only with something to send -/
  rest : ∀ rest part woken, s.point = .blocked rest part woken → rest ≠ []

variable (req) in
/-- What holds between two events, as long as all of them are safe: the timer and the signal have
closed the channel, and not while the next piece of the request body is awaited. -/
structure Inv (s : State) : Prop extends Attached s where
  shut : s.fired = true → s.point.running = true → s.closed = true
  goes : s.fired = true → s.point ≠ .opening ∧ s.point.awaitsPiece req = false

theorem State.Hears.running {A : Response → Prop} (h : Hears A s t) :
    t.point.running = s.point.running := by
  rcases h.point with heq | ⟨rest, part, hs, ht⟩
  · rw [heq]
  · rw [hs, ht]
    rfl

theorem State.Hears.awaitsPiece (h : Hears A s t) :
    t.point.awaitsPiece req = s.point.awaitsPiece req := by
  rcases h.point with heq | ⟨rest, part, hs, ht⟩
  · rw [heq]
  · rw [hs, ht]
    rfl

theorem State.Hears.rest (h : Hears A s t) {rest : List UInt8} {part : Part} {woken : Option Bool}
    (ht : t.point = .blocked rest part woken) : ∃ woken, s.point = .blocked rest part woken := by
  rcases h.point with heq | ⟨rest', part', hs, ht'⟩
  · exact ⟨woken, heq.symm.trans ht⟩
  · rw [ht'] at ht
    cases ht
    exact ⟨none, hs⟩

/-- A point that is not one of `write` is left alone. -/
theorem State.Hears.unblocked (h : Hears A s t) {point : Point}
    (hpoint : ∀ rest part woken, point ≠ .blocked rest part woken) :
    t.point = point ↔ s.point = point := by
  rcases h.point with heq | ⟨rest, part, hs, ht⟩
  · rw [heq]
  · rw [hs, ht]
    exact ⟨fun h => absurd h.symm (hpoint rest part _), fun h => absurd h.symm (hpoint rest part _)⟩

theorem State.Hears.learns (h : Hears A s t) (hs : s.LearnsOfClose) : t.LearnsOfClose := by
  intro ht
  rw [h.fired, h.pendingEof]
  exact hs ((h.unblocked (fun _ _ _ => Point.noConfusion)).1 ht)

/-- A listener keeps the invariant; whoever closes the channel before anybody listens does it
where the function will learn of it. -/
theorem Attached.hear (h : Attached s) (ht : Hears Any s t)
    (hdeaf : s.listening = false → t.closed = true → s.closed = true ∨
      s.point ≠ .opening ∧ s.LearnsOfClose) : Attached t where
  told hlisten hclosed := by
    rw [ht.listening] at hlisten
    rcases ht.told hclosed with hs | hs | hs | hs
    · exact ht.reply (h.told hlisten hs)
    · rw [hlisten] at hs
      cases hs
    · exact ht.reply (h.out hs)
    · exact hs
  woken hlisten hclosed rest part hpoint := by
    rw [ht.listening] at hlisten
    rcases ht.woken hclosed with hs | hs | hs
    · rcases ht.point with heq | ⟨rest', part', -, ht'⟩
      · exact h.woken hlisten hs rest part (heq.symm.trans hpoint)
      · rw [ht'] at hpoint
        cases hpoint
    · rw [hlisten] at hs
      cases hs
    · exact hs rest part hpoint
  out hout := (ht.out hout).elim (fun hs => ht.reply (h.out hs)) id
  listens hrun := ht.listening.trans (h.listens (ht.running.symm.trans hrun))
  deaf hlisten := by
    have hs := h.deaf (ht.listening.symm.trans hlisten)
    exact ⟨fun hp => hs.1 ((ht.unblocked fun _ _ _ => Point.noConfusion).1 hp),
      fun hp => hs.2 ((ht.unblocked fun _ _ _ => Point.noConfusion).1 hp)⟩
  unopened hp := by
    have hs := (ht.unblocked fun _ _ _ => Point.noConfusion).1 hp
    have hlisten : s.listening = false :=
      Bool.eq_false_of_not_eq_true fun hl => (h.deaf hl).1 hs
    refine Bool.eq_false_of_not_eq_true fun hclosed => ?_
    rcases hdeaf hlisten hclosed with hshut | ⟨hne, -⟩
    · rw [h.unopened hs] at hshut
      cases hshut
    · exact hne hs
  learns hclosed := by
    cases hlisten : s.listening with
    | true =>
      intro hp
      exact absurd ((ht.unblocked fun _ _ _ => Point.noConfusion).1 hp) (h.deaf hlisten).2
    | false =>
      rcases hdeaf hlisten hclosed with hshut | ⟨-, hlearns⟩
      · exact ht.learns (h.learns hshut)
      · exact ht.learns hlearns
  rest rest part woken hp := by
    obtain ⟨woken', hs⟩ := ht.rest hp
    exact h.rest rest part woken' hs

theorem Inv.hear (h : Inv req s) (ht : Hears Any s t)
    (hdeaf : s.listening = false → t.closed = true → s.closed = true ∨
      s.point ≠ .opening ∧ s.LearnsOfClose) : Inv req t where
  toAttached := h.toAttached.hear ht hdeaf
  shut hfired hrun :=
    ht.shut (h.shut (ht.fired.symm.trans hfired) (ht.running.symm.trans hrun))
  goes hfired := by
    have hs := h.goes (ht.fired.symm.trans hfired)
    exact ⟨fun hp => hs.1 ((ht.unblocked fun _ _ _ => Point.noConfusion).1 hp),
      ht.awaitsPiece.trans hs.2⟩

/-- The timers and what was sent do not matter. -/
theorem Inv.count (h : Inv req s) (timer slotTimer : Bool) (window : ℕ) (taken : List UInt8)
    (ended : Bool) (frames : List Frame) :
    Inv req { s with timer, slotTimer, window, taken, ended, frames } :=
  ⟨⟨h.told, h.woken, h.out, h.listens, h.deaf, h.unopened, h.learns, h.rest⟩, h.shut, h.goes⟩

theorem Inv.touch (h : Inv req s) : Inv req (s.touch req) := by
  unfold State.touch
  split
  · exact h.count true s.slotTimer s.window s.taken s.ended s.frames
  · exact h

/-- From one `await` behind the opening to another. -/
theorem Inv.goTo (h : Inv req s) {point : Point} (hs : s.point.running = true)
    (hpoint : point.running = true)
    (hrest : ∀ rest part woken, point = .blocked rest part woken → rest ≠ [])
    (hwoken : s.closed = true → ∀ rest part, point ≠ .blocked rest part none)
    (hgoes : s.fired = true → point.awaitsPiece req = false) : Inv req { s with point } where
  told := h.told
  woken _ := hwoken
  out := h.out
  listens _ := h.listens hs
  deaf _ := by
    constructor <;> rintro rfl <;> cases hpoint
  unopened hp := by
    rw [show point = .opening from hp] at hpoint
    cases hpoint
  learns _ hp := by
    rw [show point = .opened none from hp] at hpoint
    cases hpoint
  rest := hrest
  shut hfired _ := h.shut hfired hs
  goes hfired := by
    refine ⟨fun hp => ?_, hgoes hfired⟩
    rw [show point = .opening from hp] at hpoint
    cases hpoint

/-- The function is done. -/
theorem Inv.over (h : Inv req s) (result : Except Failure Response) :
    Inv req { s with point := .done result } where
  told := h.told
  woken _ _ _ _ := Point.noConfusion
  out := h.out
  listens := Bool.noConfusion
  deaf _ := ⟨Point.noConfusion, Point.noConfusion⟩
  unopened := Point.noConfusion
  learns _ := Point.noConfusion
  rest _ _ _ := Point.noConfusion
  shut _ := Bool.noConfusion
  goes _ := ⟨Point.noConfusion, rfl⟩

theorem Inv.finish (h : Inv req s) (result : Except Failure Response) :
    Inv req (finish s result) :=
  (h.over result).count false false s.window s.taken s.ended s.frames

/-- The channel is closed where the function learns of it. -/
theorem Inv.close (h : Inv req s) (hopening : s.point ≠ .opening) (hlearns : s.LearnsOfClose) :
    Inv req s.closeChannel :=
  h.hear (hears_closeChannel s) fun _ _ => .inr ⟨hopening, hlearns⟩

theorem Point.running_ne {point : Point} (h : point.running = true) :
    point ≠ .opening ∧ point ≠ .opened none := by
  constructor <;> rintro rfl <;> cases h

theorem Inv.closeRunning (h : Inv req s) (hs : s.point.running = true) :
    Inv req s.closeChannel :=
  h.close (Point.running_ne hs).1 fun hp => absurd hp (Point.running_ne hs).2

/-! ## The listeners are attached -/

theorem hears_hearPending (s : State) (chunks : List (List UInt8)) :
    Hears Any s (hearPending req readHead s chunks) := by
  induction chunks generalizing s with
  | nil => exact .refl s
  | cons chunk chunks ih => exact (hears_onData (fun _ => trivial) s chunk false).trans (ih _)

theorem touch_closed (s : State) : (s.touch req).closed = s.closed := by
  unfold touch
  split <;> rfl

theorem touch_out (s : State) : (s.touch req).out = s.out := by
  unfold touch
  split <;> rfl

/-- `onData` closes the channel only when it has settled the response. -/
theorem onData_told (s : State) (chunk : List UInt8) (hout : s.out = true → s.reply ≠ .pending)
    (hclosed : s.closed = true → s.reply ≠ .pending) :
    (onData req readHead s chunk false).closed = true →
      (onData req readHead s chunk false).reply ≠ .pending := by
  by_cases hreply : s.reply = .pending
  · have hopen : (s.touch req).closed = false := by
      rw [touch_closed]
      exact Bool.eq_false_of_not_eq_true fun h => hclosed h hreply
    have hwhole : (s.touch req).out = false := by
      rw [touch_out]
      exact Bool.eq_false_of_not_eq_true fun h => hout h hreply
    unfold onData
    generalize s.touch req = s at *
    simp only [hwhole, Bool.false_eq_true, if_false]
    split
    · exact fun _ => refuse_ne_pending _ _ _
    · split
      · intro h
        rw [show s.closed = true from h] at hopen
        cases hopen
      · split
        · exact fun _ => refuse_ne_pending _ _ _
        · split
          · unfold startStream
            split
            · exact fun _ => settle_ne_pending _ Reply.noConfusion
            · exact fun _ => refuse_ne_pending _ _ _
          · intro h
            rw [show s.closed = true from h] at hopen
            cases hopen
  · exact fun _ => (@hears_onData req readHead Any (fun _ => trivial) s chunk false).reply hreply

theorem hearPending_told (s : State) (chunks : List (List UInt8))
    (hout : s.out = true → s.reply ≠ .pending) (hclosed : s.closed = true → s.reply ≠ .pending) :
    (hearPending req readHead s chunks).closed = true →
      (hearPending req readHead s chunks).reply ≠ .pending := by
  induction chunks generalizing s with
  | nil => exact hclosed
  | cons chunk chunks ih =>
    have hears := @hears_onData req readHead Any (fun _ => trivial) s chunk false
    refine ih _ (fun h => ?_) (onData_told s chunk hout hclosed)
    exact (hears.out h).elim (fun hs => hears.reply (hout hs)) id

/-- The parts of `attach`, one behind the other. -/
theorem attach_eq (s : State) (torn : Bool) : ∃ heard, attach req readHead s torn =
      { (if heard.pendingEof then onEof readHead { heard with pendingEof := false } else heard) with
        listening := true } ∧
    Hears Any s heard ∧ (torn = true ∧ s.pendingData ≠ [] ∨ s.closed = true ∨
      ((s.out = true → s.reply ≠ .pending) → heard.closed = true → heard.reply ≠ .pending)) := by
  have hclear : Hears Any s { s with pendingData := [] } :=
    .of_same rfl rfl rfl rfl rfl ⟨rfl, rfl, rfl⟩ rfl (.inl rfl) .inl
  have hpending := hclear.trans (@hears_hearPending req readHead _ s.pendingData)
  refine ⟨_, rfl, ?_, ?_⟩
  · split
    · exact hpending.trans (hears_closeChannel _)
    · exact hpending
  · by_cases htorn : torn = true ∧ s.pendingData ≠ []
    · exact .inl htorn
    · by_cases hclosed : s.closed = true
      · exact .inr (.inl hclosed)
      · refine .inr (.inr fun hout => ?_)
        rw [if_neg htorn]
        exact hearPending_told { s with pendingData := [] } s.pendingData hout
          fun h => absurd h hclosed

/-- When all listeners are attached, the response of a closed channel is settled. -/
theorem attach_told (h : Inv req s) (torn : Bool) (hpoint : s.point = .opened none)
    (hfired : s.fired = false) (hsafe : torn = true → s.pendingData ≠ [] → s.LearnsOfClose) :
    ((attach req readHead s torn).closed = true → (attach req readHead s torn).reply ≠ .pending) ∧
    ((attach req readHead s torn).out = true → (attach req readHead s torn).reply ≠ .pending) ∧
    (attach req readHead s torn).fired = false := by
  obtain ⟨heard, heq, hears, htold⟩ := @attach_eq req readHead s torn
  have hout : heard.out = true → heard.reply ≠ .pending := fun ho =>
    (hears.out ho).elim (fun hs => hears.reply (h.out hs)) id
  rw [heq]
  split
  · -- the EOF settles the response
    have hne := @onEof_ne_pending readHead { heard with pendingEof := false } hout
    refine ⟨fun _ => hne, fun _ => hne, ?_⟩
    have hend := @hears_onEof readHead Any { heard with pendingEof := false }
      fun _ _ _ _ => trivial
    exact hend.fired.trans (hears.fired.trans hfired)
  · rename_i heof
    refine ⟨fun hclosed => ?_, hout, hears.fired.trans hfired⟩
    have hlate : ¬ s.LearnsOfClose := by
      intro hlearns
      rcases hlearns hpoint with hf | he
      · rw [hfired] at hf
        cases hf
      · exact heof (hears.pendingEof.trans he)
    rcases htold with ⟨htorn, hdata⟩ | hshut | htold
    · exact absurd (hsafe htorn hdata) hlate
    · exact absurd (h.learns hshut) hlate
    · exact htold h.out hclosed

/-- Behind the opening. -/
theorem Inv.attach (h : Inv req s) (torn : Bool) (hpoint : s.point = .opened none)
    (hfired : s.fired = false) (hsafe : torn = true → s.pendingData ≠ [] → s.LearnsOfClose)
    (rest : List UInt8) :
    Inv req { attach req readHead s torn with point := .sending rest .head } := by
  obtain ⟨htold, hout, hquiet⟩ := @attach_told req readHead s h torn hpoint hfired hsafe
  exact {
    told := fun _ => htold
    woken := fun _ _ _ _ => Point.noConfusion
    out := hout
    listens := fun _ => rfl
    deaf := fun _ => ⟨Point.noConfusion, Point.noConfusion⟩
    unopened := Point.noConfusion
    learns := fun _ => Point.noConfusion
    rest := fun _ _ _ => Point.noConfusion
    shut := fun hf => absurd (hquiet.symm.trans hf) Bool.false_ne_true
    goes := fun hf => absurd (hquiet.symm.trans hf) Bool.false_ne_true }

/-! ## One step -/

theorem Point.awaitsPiece_sending {rest : List UInt8} (h : rest ≠ []) (part : Part) :
    (Point.sending rest part).awaitsPiece req = false := by
  cases rest with
  | nil => exact absurd rfl h
  | cons b rest => rfl

theorem Inv.sending (h : Inv req s) (hs : s.point.running = true) {rest : List UInt8}
    (hrest : rest ≠ []) (part : Part) : Inv req { s with point := .sending rest part } :=
  h.goTo hs rfl (fun _ _ _ => Point.noConfusion) (fun _ _ _ => Point.noConfusion)
    fun _ => Point.awaitsPiece_sending hrest part

theorem Inv.sendingOpen (h : Inv req s) (hs : s.point.running = true) (hopen : ¬ s.closed = true)
    (rest : List UInt8) (part : Part) : Inv req { s with point := .sending rest part } :=
  h.goTo hs rfl (fun _ _ _ => Point.noConfusion) (fun _ _ _ => Point.noConfusion)
    fun hfired => absurd (h.shut hfired hs) hopen

theorem Inv.awaiting (h : Inv req s) (hs : s.point.running = true) (afterFailure : Bool) :
    Inv req { s with point := .awaiting afterFailure } :=
  h.goTo hs rfl (fun _ _ _ => Point.noConfusion) (fun _ _ _ => Point.noConfusion) fun _ => rfl

/-- The next piece is awaited as long as the channel need not be closed. -/
theorem Inv.nextPiece (h : Inv req s) (hs : s.point.running = true)
    (hawaits : s.point.awaitsPiece req = true) :
    Inv req { s with point := .nextPiece none } := by
  refine h.goTo hs rfl (fun _ _ _ => Point.noConfusion) (fun _ _ _ => Point.noConfusion) ?_
  intro hfired
  rw [(h.goes hfired).2] at hawaits
  cases hawaits

theorem Inv.sendEof (h : Inv req s) (hs : s.point.running = true) (torn : Bool) :
    Inv req (sendEof s torn) := by
  unfold Exchange.sendEof
  dsimp only
  split
  · exact h.awaiting hs false
  · split
    · refine (h.closeRunning hs).awaiting ?_ false
      rw [(@hears_closeChannel Any s).running]
      exact hs
    · exact (h.count s.timer s.slotTimer s.window s.taken s.ended
        (s.frames ++ [.eof])).awaiting hs false

theorem Inv.written (h : Inv req s) {part : Part} (hs : s.point = .sending [] part)
    (torn : Bool) : Inv req (written req s part torn) := by
  have hrun : s.point.running = true := by
    rw [hs]
    rfl
  have htouch : (s.touch req).point = .sending [] part := by
    unfold State.touch
    split <;> exact hs
  have hrun' : (s.touch req).point.running = true := by
    rw [htouch]
    rfl
  cases part with
  | head =>
    unfold Exchange.written
    dsimp only
    split
    · exact h.touch.sendEof hrun' torn
    · split
      · rename_i hdata
        exact h.touch.sending hrun' hdata .bytes
      · exact h.touch.sendEof hrun' torn
    · rename_i hbody
      refine h.touch.nextPiece hrun' ?_
      rw [htouch]
      exact decide_eq_true hbody
  | bytes => exact h.sendEof hrun torn
  | piece =>
    refine h.touch.nextPiece hrun' ?_
    rw [htouch]
    rfl

theorem Inv.writeRound (h : Inv req s) {rest : List UInt8} {part : Part}
    (hs : s.point = .sending rest part) (torn : Bool) :
    Inv req (writeRound req s rest part torn) := by
  have hrun : s.point.running = true := by
    rw [hs]
    rfl
  unfold Exchange.writeRound
  split
  · rename_i hrest
    rw [hrest] at hs
    exact h.written hs torn
  · rename_i hrest
    split
    · exact h.awaiting hrun true
    · rename_i hopen
      dsimp only
      generalize min (min writeChunkBytes rest.length) s.window = n
      split
      · refine h.goTo hrun rfl (fun _ _ _ hp => ?_) (fun hclosed => absurd hclosed hopen) ?_
        · cases hp
          exact hrest
        · exact fun _ => rfl
      · have hsent : ∀ frames, Inv req
            { s with window := s.window - n, point := .sending (rest.drop n) part, frames } :=
          fun frames => (h.count s.timer s.slotTimer (s.window - n) s.taken s.ended
            frames).sendingOpen hrun hopen _ part
        split
        · exact (hsent s.frames).closeRunning rfl
        · exact hsent _

theorem Inv.bodyFailure (h : Inv req s) (hs : s.point.running = true) (reason : Reason)
    (tooLarge : Bool) : Inv req (bodyFailure s reason tooLarge) :=
  (h.closeRunning hs).finish _

theorem Inv.settled (h : Inv req s) (hs : s.point.running = true) {afterFailure : Bool}
    (ht : settled s afterFailure = some t) : Inv req t := by
  unfold Exchange.settled at ht
  split at ht
  · cases ht
  · cases ht
    exact h.over _
  · cases ht
    exact (h.closeRunning hs).finish _
  · cases ht
    exact (h.closeRunning hs).finish _

/-- The function goes on. -/
theorem Inv.proceed (h : Inv req s) {torn : Bool} (hsafe : Safe req s (.proceed torn))
    (ht : proceed req readHead s torn = some t) : Inv req t := by
  unfold Exchange.proceed at ht
  split at ht
  · cases ht
  · cases ht
  · cases ht
    exact h.finish _
  · rename_i hpoint
    split at ht
    · rename_i hfired
      cases ht
      have hopening : s.point ≠ .opening := by
        rw [hpoint]
        exact Point.noConfusion
      exact (h.close hopening fun _ => .inl hfired).finish _
    · rename_i hfired
      cases ht
      exact h.attach torn hpoint (Bool.eq_false_of_not_eq_true hfired) hsafe _
  · rename_i rest part hpoint
    cases ht
    exact h.writeRound hpoint torn
  · cases ht
  · rename_i rest part hpoint
    cases ht
    refine h.sending ?_ (h.rest rest part _ hpoint) part
    rw [hpoint]
    rfl
  · rename_i rest part hpoint
    cases ht
    refine h.awaiting ?_ true
    rw [hpoint]
    rfl
  · cases ht
  · rename_i data hpoint
    have hrun : s.point.running = true := by
      rw [hpoint]
      rfl
    have hcount := h.count s.timer s.slotTimer s.window (s.taken ++ data) s.ended s.frames
    dsimp only at ht
    split at ht
    · cases ht
      exact hcount.bodyFailure hrun _ _
    · cases ht
      refine hcount.goTo hrun rfl (fun _ _ _ => Point.noConfusion)
        (fun _ _ _ => Point.noConfusion) fun hfired => ?_
      have hgoes := (h.goes hfired).2
      rw [hpoint] at hgoes
      refine Point.awaitsPiece_sending ?_ .piece
      rintro rfl
      cases hgoes
  · rename_i hpoint
    cases ht
    refine (h.count s.timer s.slotTimer s.window s.taken true s.frames).sendEof ?_ torn
    rw [show Point.running _ = s.point.running from rfl, hpoint]
    rfl
  · rename_i hpoint
    cases ht
    refine h.bodyFailure ?_ _ _
    rw [hpoint]
    rfl
  · rename_i afterFailure hpoint
    refine h.settled ?_ ht
    rw [hpoint]
    rfl

/-- The opening is settled. -/
theorem Attached.opened (h : Attached s) (hpoint : s.point = .opening)
    (failure : Option Failure) : Inv req { s with point := .opened failure } where
  told := h.told
  woken _ _ _ _ := Point.noConfusion
  out := h.out
  listens := Bool.noConfusion
  deaf hlisten := absurd hpoint (h.deaf hlisten).1
  unopened := Point.noConfusion
  learns hclosed := by
    rw [show s.closed = false from h.unopened hpoint] at hclosed
    cases hclosed
  rest _ _ _ := Point.noConfusion
  shut _ := Bool.noConfusion
  goes _ := ⟨Point.noConfusion, rfl⟩

theorem Inv.abortOpen (h : Inv req s) (failure : Failure) : Inv req (abortOpen s failure) := by
  unfold Exchange.abortOpen
  split
  · rename_i hpoint
    exact h.toAttached.opened hpoint _
  · exact h

/-- The timer or the signal fires, which closes the channel. -/
theorem Inv.fire (h : Inv req s) (hgoes : s.point.awaitsPiece req = false)
    (timer timedOut aborted : Bool) (hfired : (timedOut || aborted) = true) (reason : Reason) :
    Inv req (fire { s with timer, timedOut, aborted } reason) := by
  have hflags : Attached { s with timer, timedOut, aborted } :=
    ⟨h.told, h.woken, h.out, h.listens, h.deaf, h.unopened, fun _ _ => .inl hfired, h.rest⟩
  have hears : Hears Any { s with timer, timedOut, aborted }
      (if s.listening then { s with timer, timedOut, aborted }.closeChannel
        else { s with timer, timedOut, aborted }) := by
    split
    · exact hears_closeChannel _
    · exact .refl _
  have hattached : Attached (if s.listening then { s with timer, timedOut, aborted }.closeChannel
      else { s with timer, timedOut, aborted }) := by
    refine hflags.hear hears fun hlisten hclosed => .inl ?_
    rwa [if_neg (by rw [show s.listening = false from hlisten]; decide)] at hclosed
  have hshut : s.listening = true →
      (if s.listening then { s with timer, timedOut, aborted }.closeChannel
        else { s with timer, timedOut, aborted }).closed = true := by
    intro hlisten
    rw [if_pos hlisten]
    exact closeChannel_closed _
  unfold Exchange.fire Exchange.abortOpen
  generalize (if s.listening then { s with timer, timedOut, aborted }.closeChannel
    else { s with timer, timedOut, aborted }) = t at *
  split
  · rename_i hpoint
    exact hattached.opened hpoint _
  · rename_i hpoint
    exact {
      toAttached := hattached
      shut := fun _ hrun => hshut (hears.listening.symm.trans (hattached.listens hrun))
      goes := fun _ => ⟨hpoint, hears.awaitsPiece.trans hgoes⟩ }

/-- The window grows, and wakes the waiter. -/
theorem Inv.wake (h : Inv req s) (window : ℕ) : Inv req ({ s with window }.wake true) := by
  unfold State.wake
  split
  · rename_i rest part hpoint
    have hrun : s.point.running = true := by
      rw [show s.point = _ from hpoint]
      rfl
    exact (h.count s.timer s.slotTimer window s.taken s.ended s.frames).goTo hrun rfl
      (fun _ _ _ hp => by
        cases hp
        exact h.rest rest part none hpoint)
      (fun _ _ _ hp => by cases hp) fun _ => rfl
  · exact h.count s.timer s.slotTimer window s.taken s.ended s.frames

/-- Data arrives before anybody listens. -/
theorem Inv.queue (h : Inv req s) (pendingData : List (List UInt8)) (pendingEof : Bool)
    (heof : s.pendingEof = true → pendingEof = true) :
    Inv req { s with pendingData, pendingEof } where
  told := h.told
  woken := h.woken
  out := h.out
  listens := h.listens
  deaf := h.deaf
  unopened := h.unopened
  learns hclosed hpoint := (h.learns hclosed hpoint).imp id heof
  rest := h.rest
  shut := h.shut
  goes := h.goes

theorem Point.hasChannel_ne {point : Point} (h : point.hasChannel = true) : point ≠ .opening := by
  rintro rfl
  cases h

/-- **The step lemma.** A safe step keeps the invariant. -/
theorem Inv.step (h : Inv req s) {e : Event} (hsafe : Safe req s e)
    (ht : step req readHead s e = some t) : Inv req t := by
  cases e with
  | waiting =>
    simp only [Exchange.step] at ht
    split at ht
    · cases ht
      exact h.count false true s.window s.taken s.ended s.frames
    · cases ht
  | slotAcquired =>
    simp only [Exchange.step] at ht
    split at ht
    · cases ht
      exact h.count true false s.window s.taken s.ended s.frames
    · cases ht
      exact h.count s.timer false s.window s.taken s.ended s.frames
  | openResolved =>
    simp only [Exchange.step] at ht
    split at ht
    · rename_i hpoint
      cases ht
      exact h.toAttached.opened hpoint none
    · cases ht
      exact h
  | openRejected busy message =>
    simp only [Exchange.step] at ht
    split at ht
    · rename_i hpoint
      cases ht
      exact h.toAttached.opened hpoint _
    · cases ht
      exact h
  | timeout =>
    simp only [Exchange.step] at ht
    split at ht
    · cases ht
      exact h.fire hsafe false true s.aborted rfl .timedOut
    · cases ht
  | slotTimeout =>
    simp only [Exchange.step] at ht
    split at ht
    · cases ht
      exact (h.count s.timer false s.window s.taken s.ended s.frames).abortOpen _
    · cases ht
  | abort =>
    simp only [Exchange.step] at ht
    split at ht
    · cases ht
    · cases ht
      exact h.fire hsafe s.timer s.timedOut true (Bool.or_true _) .aborted
  | data chunk torn =>
    simp only [Exchange.step] at ht
    split at ht
    · rename_i hchannel
      split at ht
      · rename_i hlisten
        cases ht
        refine h.hear (hears_onData (fun _ => trivial) s chunk torn) fun hdeaf _ => ?_
        rw [hlisten] at hdeaf
        cases hdeaf
      · split at ht
        · rename_i hfull
          cases ht
          exact h.close (Point.hasChannel_ne hchannel.1) (hsafe hfull)
        · cases ht
          exact h.queue _ s.pendingEof id
    · cases ht
  | eof =>
    simp only [Exchange.step] at ht
    split at ht
    · split at ht
      · rename_i hlisten
        cases ht
        refine h.hear (hears_onEof s fun _ _ _ _ => trivial) fun hdeaf _ => ?_
        rw [hlisten] at hdeaf
        cases hdeaf
      · cases ht
        exact h.queue s.pendingData true fun _ => rfl
    · cases ht
  | closed =>
    simp only [Exchange.step] at ht
    split at ht
    · rename_i hchannel
      cases ht
      exact h.close (Point.hasChannel_ne hchannel) hsafe
    · cases ht
  | windowAdjust bytes =>
    simp only [Exchange.step] at ht
    split at ht
    · cases ht
      exact h.wake _
    · cases ht
  | piece piece =>
    simp only [Exchange.step] at ht
    split at ht
    · rename_i hpoint
      cases ht
      have hrun : s.point.running = true := by
        rw [hpoint]
        rfl
      refine h.goTo hrun rfl (fun _ _ _ => Point.noConfusion) (fun _ _ _ => Point.noConfusion) ?_
      intro hfired
      have hgoes := (h.goes hfired).2
      rw [hpoint] at hgoes
      cases hgoes
    · cases ht
  | proceed torn => exact h.proceed hsafe ht

theorem inv_start (req : Request) : Inv req (.start req) where
  told hlisten := by cases hlisten
  woken hlisten := by cases hlisten
  out hout := by cases hout
  listens hrun := by
    rcases start_point req with hpoint | ⟨result, hpoint⟩ <;> rw [hpoint] at hrun <;> cases hrun
  deaf hlisten := by cases hlisten
  unopened _ := rfl
  learns hclosed := by cases hclosed
  rest rest part woken hrest := by
    rcases start_point req with hpoint | ⟨result, hpoint⟩ <;> rw [hpoint] at hrest <;> cases hrest
  shut hfired := by cases hfired
  goes hfired := by cases hfired

/-! ## What is left to do -/

theorem Settles.go_done (h : ∀ torn, ∃ t, proceed req readHead s torn = some t ∧
    ∃ result, t.point = .done result) : Settles req readHead s := by
  refine .go (fun torn => (proceed req readHead s torn).getD s) (fun torn => ?_) fun torn => ?_
  · obtain ⟨t, ht, -⟩ := h torn
    rw [ht]
    rfl
  · obtain ⟨t, ht, result, hdone⟩ := h torn
    rw [ht]
    exact .done hdone

/-- Once the response is settled, nothing is awaited behind the request. -/
theorem settles_awaiting {afterFailure : Bool} (hpoint : s.point = .awaiting afterFailure)
    (hreply : s.reply ≠ .pending) : Settles req readHead s := by
  have hsome : ∃ t, settled s afterFailure = some t ∧ ∃ result, t.point = .done result := by
    unfold settled
    split
    · rename_i hpending
      exact absurd hpending hreply
    · exact ⟨_, rfl, _, rfl⟩
    · exact ⟨_, rfl, _, rfl⟩
    · exact ⟨_, rfl, _, rfl⟩
  refine .go_done fun torn => ?_
  rw [proceed, hpoint]
  exact hsome

/-- The channel is closed, and the response settled by it. -/
structure Ended (s : State) : Prop where
  closed : s.closed = true
  reply : s.reply ≠ .pending

theorem settles_sending (h : Ended s) {rest : List UInt8} {part : Part} (hrest : rest ≠ [])
    (hpoint : s.point = .sending rest part) : Settles req readHead s := by
  refine .go (fun _ => { s with point := .awaiting true }) (fun torn => ?_)
    fun _ => settles_awaiting rfl h.reply
  rw [proceed, hpoint]
  simp only [writeRound, hrest, if_false, h.closed, if_true]

theorem settles_sendEof (h : Ended s) (torn : Bool) : Settles req readHead (sendEof s torn) := by
  unfold sendEof
  dsimp only
  rw [if_pos h.closed]
  exact settles_awaiting rfl h.reply

theorem Ended.touch (h : Ended s) : Ended (s.touch req) where
  closed := by
    rw [touch_closed]
    exact h.closed
  reply := (@hears_touch req Any s).reply h.reply

/-- A part was sent, and no piece of the body is awaited behind it. -/
theorem settles_written (h : Ended s) {part : Part} (hpoint : s.point = .sending [] part)
    (hgoes : s.point.awaitsPiece req = false) : Settles req readHead s := by
  refine .go (fun torn => written req s part torn) (fun torn => ?_) fun torn => ?_
  · rw [proceed, hpoint]
    rfl
  · rw [hpoint] at hgoes
    unfold written
    cases part with
    | head =>
      dsimp only
      split
      · exact settles_sendEof h.touch torn
      · split
        · rename_i hdata
          exact settles_sending ⟨h.touch.closed, h.touch.reply⟩ hdata rfl
        · exact settles_sendEof h.touch torn
      · rename_i hbody
        exact absurd hbody (of_decide_eq_false hgoes)
    | bytes => exact settles_sendEof h torn
    | piece => cases hgoes

/-- The next piece of the body is there, and does not end in a wait. -/
theorem settles_piece (h : Ended s) {piece : Option Piece} (hpoint : s.point = .nextPiece piece)
    (hgoes : s.point.awaitsPiece req = false) : Settles req readHead s := by
  rw [hpoint] at hgoes
  cases piece with
  | none => cases hgoes
  | some piece =>
    cases piece with
    | chunk data =>
      have hdata : data ≠ [] := by
        rintro rfl
        cases hgoes
      by_cases hcap : req.requestCap < (s.taken ++ data).length
      · refine .go_done fun torn => ?_
        rw [proceed, hpoint]
        simp only [hcap, if_true]
        exact ⟨_, rfl, _, rfl⟩
      · refine .go (fun _ => { s with taken := s.taken ++ data, point := .sending data .piece })
          (fun torn => ?_) fun _ => settles_sending ⟨h.closed, h.reply⟩ hdata rfl
        rw [proceed, hpoint]
        simp only [hcap, if_false]
    | ended =>
      refine .go (fun torn => sendEof { s with ended := true } torn) (fun torn => ?_)
        fun torn => settles_sendEof (s := { s with ended := true }) ⟨h.closed, h.reply⟩ torn
      rw [proceed, hpoint]
    | failed =>
      refine .go_done fun torn => ?_
      rw [proceed, hpoint]
      exact ⟨_, rfl, _, rfl⟩

/-- The timer or the signal has fired, and the function waits for nothing. -/
theorem Inv.settles (h : Inv req s) : SettlesOnceFired req readHead s := by
  intro hfired
  obtain ⟨hopening, hgoes⟩ := h.goes hfired
  have hended : s.point.running = true → Ended s := fun hrun =>
    ⟨h.shut hfired hrun, h.told (h.listens hrun) (h.shut hfired hrun)⟩
  cases hpoint : s.point with
  | opening => exact absurd hpoint hopening
  | opened failure =>
    cases failure with
    | some failure =>
      refine .go_done fun torn => ?_
      rw [Exchange.proceed, hpoint]
      exact ⟨_, rfl, _, rfl⟩
    | none =>
      refine .go_done fun torn => ?_
      rw [Exchange.proceed, hpoint]
      simp only [hfired, if_true]
      exact ⟨_, rfl, _, rfl⟩
  | sending rest part =>
    have hend := hended (by rw [hpoint]; rfl)
    cases rest with
    | nil => exact settles_written hend hpoint hgoes
    | cons b rest => exact settles_sending hend (List.cons_ne_nil b rest) hpoint
  | blocked rest part woken =>
    have hrun : s.point.running = true := by
      rw [hpoint]
      rfl
    have hend := hended hrun
    cases woken with
    | none => exact absurd hpoint (h.woken (h.listens hrun) hend.closed rest part)
    | some ok =>
      cases ok with
      | true =>
        refine .go (fun _ => { s with point := .sending rest part }) (fun torn => ?_)
          fun _ => settles_sending ⟨hend.closed, hend.reply⟩ (h.rest rest part _ hpoint) rfl
        rw [Exchange.proceed, hpoint]
      | false =>
        refine .go (fun _ => { s with point := .awaiting true }) (fun torn => ?_)
          fun _ => settles_awaiting rfl hend.reply
        rw [Exchange.proceed, hpoint]
  | nextPiece piece => exact settles_piece (hended (by rw [hpoint]; rfl)) hpoint hgoes
  | awaiting afterFailure =>
    exact settles_awaiting hpoint (hended (by rw [hpoint]; rfl)).reply
  | done result => exact .done hpoint

/-- **Once the timer or the signal has fired, `exchange` waits for nothing.** Along a run of
safe steps. -/
theorem exchange_settles (req : Request) (readHead : List UInt8 → Option ResponseHead)
    (es : List Event) (h : Run.Meets (step req readHead) (Safe req) (.start req) es) :
    Run.Along (step req readHead) (SettlesOnceFired req readHead) (.start req) es :=
  Run.along_of_invariant (fun _ _ _ hinv hsafe ht => hinv.step hsafe ht)
    (fun _ hinv => hinv.settles) (inv_start req) h

/-! ## Two runs that hang -/

/-- A request without a limit of its own. -/
def plain (body : Body) : Request where
  streaming := false
  path := "/internal/x"
  headLine := ⟨[], List.not_mem_nil⟩
  body := body
  declaredBodyBytes := none
  timeoutMs := 15000
  idleTimeoutMs := none
  maxResponseBytes := none
  signalAborted := false

theorem exchange_settles_of_bytes :
    Run.Along (step (plain (.bytes [1, 2, 3])) fun _ => none)
      (SettlesOnceFired (plain (.bytes [1, 2, 3])) fun _ => none)
      (.start (plain (.bytes [1, 2, 3])))
      [.openResolved, .proceed false, .proceed false, .proceed false, .timeout, .proceed false,
        .proceed false] :=
  exchange_settles (plain (.bytes [1, 2, 3])) (fun _ => none) _ (by decide)

/-- Where the function waits, it does not go on. -/
theorem not_settles (hwaits : proceed req readHead s false = none)
    (hpoint : ∀ result, s.point ≠ .done result) : ¬ Settles req readHead s := by
  intro h
  cases h with
  | done hdone => exact hpoint _ hdone
  | go next hnext =>
    rw [hnext false] at hwaits
    cases hwaits

/-- The timer fires while the request body stalls; and on a channel that was closed between its
opening and the moment at which the listeners were attached. -/
theorem exchange_hangs :
    ¬ Run.Along (step (plain .stream) fun _ => none)
      (SettlesOnceFired (plain .stream) fun _ => none) (.start (plain .stream))
      [.openResolved, .proceed false, .proceed false, .proceed false, .timeout] ∧
    ¬ Run.Along (step (plain .none) fun _ => none)
      (SettlesOnceFired (plain .none) fun _ => none) (.start (plain .none))
      [.openResolved, .closed, .proceed false, .proceed false, .timeout] := by
  constructor
  · intro h
    exact not_settles rfl (fun _ => Point.noConfusion) (h.last rfl rfl)
  · intro h
    exact not_settles rfl (fun _ => Point.noConfusion) (h.last rfl rfl)

end Exchange
end Mullion
