import Mullion.Stream.Sent

/-!
# What an exchange receives

* `Parsed` — the parser has read these bytes;
* `Reads` — as long as the response is open, all bytes that have come are in the parser;
* `onData_reads`, `onEof_whole` — what the listeners make of a chunk and of the EOF;
* `Deaf` — what all other events do, but for the one that attaches the listeners.
-/

namespace Mullion
namespace Exchange

open Mullion.Stream Serve State

variable {req : Request} {readHead : List UInt8 → Option ResponseHead} {s t : State}
  {bytes : List UInt8}

/-! ## The parser -/

/-- The parser has read these bytes. -/
def Parsed (p : Parser) (bytes : List UInt8) : Prop :=
  match p.headLine with
  | none => newline ∉ bytes ∧ p.head.flatten = bytes ∧ p.bodyChunks = []
  | some line => newline ∉ line ∧ bytes = line ++ newline :: p.body

theorem parsed_initial : Parsed .initial [] := ⟨List.not_mem_nil, rfl, rfl⟩

/-- A chunk that fits is read. -/
theorem Parsed.push {p : Parser} (h : Parsed p bytes) {chunk : List UInt8} {limit : ℕ}
    (hfits : (p.push chunk limit).2 = true) : Parsed (p.push chunk limit).1 (bytes ++ chunk) := by
  unfold Parsed at h
  unfold Parser.push at hfits ⊢
  cases hline : p.headLine with
  | some line =>
    rw [hline] at h
    simp only [hline] at hfits ⊢
    obtain ⟨hsize, hhead, -, hbody⟩ := RequestSink.pushBody_spec p chunk limit
    have hbody := hbody (of_decide_eq_true (hsize.symm.trans hfits))
    unfold Parsed
    rw [hhead, hline]
    refine ⟨h.1, ?_⟩
    rw [hbody, h.2, List.append_assoc]
    rfl
  | none =>
    rw [hline] at h
    obtain ⟨hnone, hhead, hchunks⟩ := h
    cases hnl : chunk.idxOf? newline with
    | none =>
      have hchunk : newline ∉ chunk := List.idxOf?_eq_none_iff.1 hnl
      simp only [hline, hnl] at hfits ⊢
      split at hfits
      · cases hfits
      · rename_i hlong
        rw [if_neg hlong]
        refine ⟨?_, ?_, hchunks⟩
        · rw [List.mem_append, not_or]
          exact ⟨hnone, hchunk⟩
        · rw [List.flatten_concat, hhead]
    | some k =>
      obtain ⟨hchunk, htake⟩ := cut_line hnl
      simp only [hline, hnl] at hfits ⊢
      split at hfits
      · cases hfits
      · rename_i hlong
        rw [if_neg hlong]
        have hline : (p.head ++ [chunk.take k]).flatten = bytes ++ chunk.take k := by
          rw [List.flatten_concat, hhead]
        rw [hline] at hfits ⊢
        obtain ⟨hsize, hread, -, hbody⟩ := RequestSink.pushBody_spec
          { p with
            head := p.head ++ [chunk.take k]
            headBytes := p.headBytes + (chunk.take k).length
            headLine := some (bytes ++ chunk.take k) } (chunk.drop (k + 1)) limit
        have hbody := hbody (of_decide_eq_true (hsize.symm.trans hfits))
        unfold Parsed
        rw [hread]
        refine ⟨?_, ?_⟩
        · rw [List.mem_append, not_or]
          exact ⟨hnone, htake⟩
        · rw [hbody]
          unfold Parser.body
          simp only [hchunks, List.flatten_nil, List.nil_append, List.append_assoc]
          exact congrArg (bytes ++ ·) hchunk

/-! ## The listeners -/

/-- As long as the response is open, all bytes that have come are in the parser. -/
def Reads (s : State) (bytes : List UInt8) : Prop :=
  s.reply = .pending → s.out = false ∧ Parsed s.parser bytes

theorem State.Hears.pending {A : Response → Prop} (h : Hears A s t) (ht : t.reply = .pending) :
    s.reply = .pending := by
  by_contra hs
  exact h.reply hs ht

/-- A chunk comes. -/
theorem onData_reads (h : Reads s bytes) (hlisten : s.listening = true) (hopen : s.closed = false)
    (chunk : List UInt8) (torn : Bool) :
    Reads (onData req readHead s chunk torn) (bytes ++ chunk) := by
  intro ht
  have hpending :=
    (@hears_onData req readHead Any (fun _ => trivial) s chunk torn).pending ht
  obtain ⟨hout, hparsed⟩ := h hpending
  have htouch : (s.touch req).parser = s.parser ∧ (s.touch req).out = false ∧
      (s.touch req).listening = true ∧ (s.touch req).closed = false := by
    unfold touch
    split
    · exact ⟨rfl, hout, hlisten, hopen⟩
    · exact ⟨rfl, hout, hlisten, hopen⟩
  revert ht
  unfold onData
  rw [← htouch.1] at hparsed
  generalize s.touch req = s at *
  obtain ⟨-, hout, hlisten, hopen⟩ := htouch
  simp only [hout, Bool.false_eq_true, if_false]
  cases torn with
  | true =>
    -- the listeners of the close have settled the response
    have hne : s.closeChannel.reply ≠ .pending := by
      rcases (@hears_closeChannel Any s).told (closeChannel_closed s) with h | h | h | h
      · exact absurd (hopen.symm.trans h) Bool.false_ne_true
      · exact absurd (h.symm.trans hlisten) Bool.false_ne_true
      · exact absurd (hout.symm.trans h) Bool.false_ne_true
      · exact h
    simp only [if_true]
    generalize s.closeChannel = s at hne ⊢
    split
    · exact fun ht => absurd ht (refuse_ne_pending _ _ _)
    · split
      · exact fun ht => absurd ht hne
      · split
        · exact fun ht => absurd ht (refuse_ne_pending _ _ _)
        · split
          · exact fun ht => absurd ht
              ((@hears_startStream readHead Any (fun _ => trivial) _ _).reply hne)
          · exact fun ht => absurd ht hne
  | false =>
    simp only [Bool.false_eq_true, if_false]
    split
    · exact fun ht => absurd ht (refuse_ne_pending _ _ _)
    · rename_i hfits
      have hpushed := hparsed.push (Bool.eq_true_of_not_eq_false hfits)
      split
      · exact fun _ => ⟨hout, hpushed⟩
      · split
        · exact fun ht => absurd ht (refuse_ne_pending _ _ _)
        · split
          · unfold startStream
            split
            · exact fun ht => absurd ht (settle_ne_pending _ Reply.noConfusion)
            · exact fun ht => absurd ht (refuse_ne_pending _ _ _)
          · exact fun _ => ⟨hout, hpushed⟩

/-- The EOF comes. -/
theorem onEof_whole (h : Reads s bytes) {line body : List UInt8}
    (ht : (onEof readHead s).reply = .resolved (.whole line body)) :
    s.reply = .resolved (.whole line body) ∨
      newline ∉ line ∧ bytes = line ++ newline :: body := by
  have hears := @hears_onEof readHead (fun response => ∀ line body,
    response = .whole line body → newline ∉ line ∧ bytes = line ++ newline :: body) s
    fun hout hpending headLine hline line body heq => by
      obtain ⟨-, hparsed⟩ := h hpending
      cases heq
      unfold Parsed at hparsed
      rw [hline] at hparsed
      exact hparsed
  rcases hears.settled with heq | ⟨-, hgiven⟩
  · exact .inl (heq.symm.trans ht)
  · rw [ht] at hgiven
    exact .inr (hgiven line body rfl)

theorem onEof_reads (h : Reads s bytes) : Reads (onEof readHead s) bytes := by
  intro ht
  refine absurd ht (onEof_ne_pending s fun hout hpending => ?_)
  rw [(h hpending).1] at hout
  cases hout

/-! ## The other events -/

/-- The promise, the parser and the listeners are left alone, but that the response may fail. -/
structure Deaf (s t : State) : Prop where
  listening : t.listening = s.listening
  parser : t.parser = s.parser
  out : t.out = s.out
  pendingEof : t.pendingEof = s.pendingEof
  pendingData : t.pendingData = s.pendingData ∨ t.pendingData = []
  reply : t.reply = s.reply ∨ s.listening = true ∧ s.reply = .pending ∧
    ∃ failure, t.reply = .rejected failure

theorem Deaf.of_same (hlistening : t.listening = s.listening) (hparser : t.parser = s.parser)
    (hout : t.out = s.out) (heof : t.pendingEof = s.pendingEof)
    (hdata : t.pendingData = s.pendingData) (hreply : t.reply = s.reply) : Deaf s t :=
  ⟨hlistening, hparser, hout, heof, .inl hdata, .inl hreply⟩

theorem Deaf.trans {u : State} (h : Deaf s t) (h' : Deaf t u) : Deaf s u where
  listening := h'.listening.trans h.listening
  parser := h'.parser.trans h.parser
  out := h'.out.trans h.out
  pendingEof := h'.pendingEof.trans h.pendingEof
  pendingData := by
    rcases h'.pendingData with heq | heq
    · rw [heq]
      exact h.pendingData
    · exact .inr heq
  reply := by
    rcases h'.reply with heq | ⟨hlisten, hpending, hfailure⟩
    · rw [heq]
      exact h.reply
    · rcases h.reply with heq | ⟨-, -, failure, hrejected⟩
      · exact .inr ⟨h.listening.symm.trans hlisten, heq.symm.trans hpending, hfailure⟩
      · rw [hrejected] at hpending
        cases hpending

theorem deaf_touch (s : State) : Deaf s (s.touch req) := by
  unfold touch
  split
  · exact .of_same rfl rfl rfl rfl rfl rfl
  · exact .of_same rfl rfl rfl rfl rfl rfl

theorem deaf_wake (s : State) (ok : Bool) : Deaf s (s.wake ok) := by
  obtain ⟨point, heq, -⟩ := wake_eq s ok
  rw [heq]
  exact .of_same rfl rfl rfl rfl rfl rfl

theorem deaf_closeChannel (s : State) : Deaf s s.closeChannel := by
  unfold closeChannel
  split
  · exact .of_same rfl rfl rfl rfl rfl rfl
  · have hclear : Deaf s { s with closed := true, pendingData := [] } :=
      ⟨rfl, rfl, rfl, rfl, .inr rfl, .inl rfl⟩
    dsimp only
    split
    · rename_i hlisten
      have hsettle : Deaf { s with closed := true, pendingData := [] }
          (responseClosed { s with closed := true, pendingData := [] }) := by
        unfold responseClosed settle
        split
        · exact .of_same rfl rfl rfl rfl rfl rfl
        · split
          · rename_i hpending
            exact ⟨rfl, rfl, rfl, rfl, .inl rfl, .inr ⟨hlisten, hpending, _, rfl⟩⟩
          · exact .of_same rfl rfl rfl rfl rfl rfl
      exact (hclear.trans hsettle).trans (deaf_wake _ false)
    · exact hclear

theorem deaf_sendEof (s : State) (torn : Bool) : Deaf s (sendEof s torn) := by
  unfold sendEof
  dsimp only
  split
  · exact .of_same rfl rfl rfl rfl rfl rfl
  · split
    · exact (deaf_closeChannel s).trans (.of_same rfl rfl rfl rfl rfl rfl)
    · exact .of_same rfl rfl rfl rfl rfl rfl

/-- The function is about to send. -/
def Point.writes : Point → Bool
  | .sending _ _ | .nextPiece _ => true
  | _ => false

/-- The function has no channel yet. -/
def Point.early : Point → Bool
  | .opening | .opened _ => true
  | _ => false

/-- What the exchange does of itself. -/
structure Own (s t : State) : Prop where
  deaf : Deaf s t
  frames : ∃ more, t.frames = s.frames ++ more
  idle : s.point.writes = false → t.frames = s.frames
  running : t.point.running = true → s.point.running = true
  early : t.point.early = true → s.point.early = true

theorem Silent.writes (h : Silent s t) : t.point.writes = s.point.writes := by
  rcases h.point with heq | ⟨rest, part, woken, woken', hs, ht⟩
  · rw [heq]
  · rw [hs, ht]
    rfl

theorem Silent.running (h : Silent s t) : t.point.running = s.point.running := by
  rcases h.point with heq | ⟨rest, part, woken, woken', hs, ht⟩
  · rw [heq]
  · rw [hs, ht]
    rfl

theorem Silent.early (h : Silent s t) : t.point.early = s.point.early := by
  rcases h.point with heq | ⟨rest, part, woken, woken', hs, ht⟩
  · rw [heq]
  · rw [hs, ht]
    rfl

theorem Own.silent {u : State} (h : Silent s t) (hdeaf : Deaf s t) (h' : Own t u) : Own s u where
  deaf := hdeaf.trans h'.deaf
  frames := by
    obtain ⟨more, heq⟩ := h'.frames
    exact ⟨more, by rw [heq, h.sent.1]⟩
  idle hs := (h'.idle (h.writes.trans hs)).trans h.sent.1
  running hu := h.running.symm.trans (h'.running hu)
  early hu := h.early.symm.trans (h'.early hu)

theorem Own.of_silent (h : Silent s t) (hdeaf : Deaf s t) : Own s t where
  deaf := hdeaf
  frames := ⟨[], by rw [h.sent.1, List.append_nil]⟩
  idle _ := h.sent.1
  running ht := h.running.symm.trans ht
  early ht := h.early.symm.trans ht

theorem own_closeChannel (s : State) : Own s s.closeChannel :=
  .of_silent (silent_closeChannel s) (deaf_closeChannel s)

/-- To another point. -/
theorem own_goTo (s : State) {point : Point}
    (hrun : point.running = true → s.point.running = true)
    (hearly : point.early = true → s.point.early = true) : Own s { s with point } where
  deaf := .of_same rfl rfl rfl rfl rfl rfl
  frames := ⟨[], (List.append_nil _).symm⟩
  idle _ := rfl
  running := hrun
  early := hearly

/-- The function is over. -/
theorem own_finish (s : State) (result : Except Failure Response) :
    Own s (finish s.closeChannel result) where
  deaf := (deaf_closeChannel s).trans (.of_same rfl rfl rfl rfl rfl rfl)
  frames := ⟨[], ((silent_closeChannel s).sent.1).trans (List.append_nil _).symm⟩
  idle _ := (silent_closeChannel s).sent.1
  running := Bool.noConfusion
  early := Bool.noConfusion

/-- A step of a function that is about to send. -/
theorem Own.of_writes (hs : s.point.writes = true) (hdeaf : Deaf s t)
    (hframes : ∃ more, t.frames = s.frames ++ more) (hearly : t.point.early = false) :
    Own s t where
  deaf := hdeaf
  frames := hframes
  idle h := absurd (h.symm.trans hs) Bool.false_ne_true
  running _ := by
    cases hpoint : s.point with
    | sending rest part => rfl
    | nextPiece piece => rfl
    | _ =>
      rw [hpoint] at hs
      cases hs
  early h := absurd (hearly.symm.trans h) Bool.false_ne_true

theorem sendEof_frames (s : State) (torn : Bool) :
    ∃ more, (sendEof s torn).frames = s.frames ++ more := by
  unfold sendEof
  dsimp only
  split
  · exact ⟨[], (List.append_nil _).symm⟩
  · split
    · exact ⟨[], ((silent_closeChannel s).sent.1).trans (List.append_nil _).symm⟩
    · exact ⟨[.eof], rfl⟩

theorem own_sendEof (hs : s.point.writes = true) (torn : Bool) : Own s (sendEof s torn) :=
  .of_writes hs (deaf_sendEof s torn) (sendEof_frames s torn) rfl

theorem own_written (hs : s.point.writes = true) (part : Part) (torn : Bool) :
    Own s (written req s part torn) := by
  have htouch := @silent_touch req s
  have hdeaf := @deaf_touch req s
  have hs' : (s.touch req).point.writes = true := htouch.writes.trans hs
  have hgo : ∀ point : Point, point.early = false → Own s { s.touch req with point } :=
    fun point hpoint => .of_writes hs (hdeaf.trans (.of_same rfl rfl rfl rfl rfl rfl))
      ⟨[], htouch.sent.1.trans (List.append_nil _).symm⟩ hpoint
  unfold written
  cases part with
  | head =>
    dsimp only
    split
    · exact .silent htouch hdeaf (own_sendEof hs' torn)
    · split
      · exact hgo _ rfl
      · exact .silent htouch hdeaf (own_sendEof hs' torn)
    · exact hgo _ rfl
  | bytes => exact own_sendEof hs torn
  | piece => exact hgo _ rfl

theorem own_writeRound (hs : s.point.writes = true) (rest : List UInt8) (part : Part)
    (torn : Bool) : Own s (writeRound req s rest part torn) := by
  have hgo : ∀ point : Point, point.early = false → Own s { s with point } :=
    fun point hpoint => .of_writes hs (.of_same rfl rfl rfl rfl rfl rfl)
      ⟨[], (List.append_nil _).symm⟩ hpoint
  unfold writeRound
  split
  · exact own_written hs part torn
  · split
    · exact hgo _ rfl
    · dsimp only
      generalize min (min writeChunkBytes rest.length) s.window = n
      split
      · exact hgo _ rfl
      · have hsame : Deaf s
            { s with window := s.window - n, point := .sending (rest.drop n) part } :=
          .of_same rfl rfl rfl rfl rfl rfl
        split
        · exact .of_writes hs (hsame.trans (deaf_closeChannel _))
            ⟨[], ((silent_closeChannel _).sent.1).trans (List.append_nil _).symm⟩
            (silent_closeChannel _).early
        · exact .of_writes hs (hsame.trans (.of_same rfl rfl rfl rfl rfl rfl)) ⟨_, rfl⟩ rfl

theorem own_settled {afterFailure : Bool} (ht : settled s afterFailure = some t) : Own s t := by
  unfold settled at ht
  split at ht
  · cases ht
  · cases ht
    exact own_goTo s Bool.noConfusion Bool.noConfusion
  · cases ht
    exact own_finish s _
  · cases ht
    exact own_finish s _

/-- The listeners are attached. -/
def Attaches (req : Request) (readHead : List UInt8 → Option ResponseHead) (s t : State) : Prop :=
  s.point = .opened none ∧
    ∃ torn, t = { attach req readHead s torn with point := .sending req.line .head }

/-- The function goes on. -/
theorem own_proceed {torn : Bool} (ht : proceed req readHead s torn = some t) :
    Own s t ∨ Attaches req readHead s t := by
  unfold proceed at ht
  split at ht
  · cases ht
  · cases ht
  · cases ht
    exact .inl ⟨.of_same rfl rfl rfl rfl rfl rfl, ⟨[], (List.append_nil _).symm⟩, fun _ => rfl,
      Bool.noConfusion, Bool.noConfusion⟩
  · rename_i hpoint
    split at ht
    · cases ht
      exact .inl (own_finish s _)
    · cases ht
      exact .inr ⟨hpoint, torn, rfl⟩
  · rename_i rest part hpoint
    cases ht
    refine .inl (own_writeRound ?_ rest part torn)
    rw [hpoint]
    rfl
  · cases ht
  · rename_i rest part hpoint
    cases ht
    refine .inl (own_goTo s (fun _ => ?_) Bool.noConfusion)
    rw [hpoint]
    rfl
  · rename_i rest part hpoint
    cases ht
    refine .inl (own_goTo s (fun _ => ?_) Bool.noConfusion)
    rw [hpoint]
    rfl
  · cases ht
  · rename_i data hpoint
    have hs : s.point.writes = true := by
      rw [hpoint]
      rfl
    dsimp only at ht
    split at ht
    · cases ht
      have htaken : Deaf s { s with taken := s.taken ++ data } :=
        .of_same rfl rfl rfl rfl rfl rfl
      exact .inl (.of_writes hs ((htaken.trans (deaf_closeChannel _)).trans
        (.of_same rfl rfl rfl rfl rfl rfl))
        ⟨[], ((silent_closeChannel _).sent.1).trans (List.append_nil _).symm⟩ rfl)
    · cases ht
      exact .inl (.of_writes hs (.of_same rfl rfl rfl rfl rfl rfl) ⟨[], (List.append_nil _).symm⟩
        rfl)
  · rename_i hpoint
    have hs : s.point.writes = true := by
      rw [hpoint]
      rfl
    have hended : Deaf s { s with ended := true } := .of_same rfl rfl rfl rfl rfl rfl
    cases ht
    exact .inl (.of_writes hs (hended.trans (deaf_sendEof _ torn)) (sendEof_frames _ torn)
      rfl)
  · cases ht
    exact .inl (own_finish s _)
  · exact .inl (own_settled ht)

theorem own_abortOpen (s : State) (failure : Failure) : Own s (abortOpen s failure) := by
  unfold abortOpen
  split
  · rename_i hpoint
    refine own_goTo s Bool.noConfusion fun _ => ?_
    rw [hpoint]
    rfl
  · exact .of_silent (.of_same ⟨rfl, rfl, rfl⟩ rfl rfl rfl) (.of_same rfl rfl rfl rfl rfl rfl)

theorem own_fire (s : State) (reason : Reason) : Own s (fire s reason) := by
  unfold fire
  split
  · exact .silent (silent_closeChannel s) (deaf_closeChannel s) (own_abortOpen _ _)
  · exact own_abortOpen s _

/-- The event does not come from the agent's frames. -/
def Event.own : Event → Bool
  | .data _ _ | .eof => false
  | _ => true

theorem own_step {e : Event} (he : e.own = true) (ht : step req readHead s e = some t) :
    Own s t ∨ Attaches req readHead s t := by
  have htimers : ∀ timer slotTimer timedOut aborted,
      Silent s { s with timer, slotTimer, timedOut, aborted } ∧
        Deaf s { s with timer, slotTimer, timedOut, aborted } := fun _ _ _ _ =>
    ⟨.of_same ⟨rfl, rfl, rfl⟩ rfl rfl rfl, .of_same rfl rfl rfl rfl rfl rfl⟩
  have hsame : Own s s :=
    .of_silent (.of_same ⟨rfl, rfl, rfl⟩ rfl rfl rfl) (.of_same rfl rfl rfl rfl rfl rfl)
  cases e with
  | waiting =>
    simp only [step] at ht
    split at ht
    · cases ht
      exact .inl (.of_silent (htimers _ _ _ _).1 (htimers _ _ _ _).2)
    · cases ht
  | slotAcquired =>
    simp only [step] at ht
    split at ht
    · cases ht
      exact .inl (.of_silent (htimers _ _ _ _).1 (htimers _ _ _ _).2)
    · cases ht
      exact .inl (.of_silent (htimers _ _ _ _).1 (htimers _ _ _ _).2)
  | openResolved =>
    simp only [step] at ht
    split at ht
    · rename_i hpoint
      cases ht
      refine .inl (own_goTo s Bool.noConfusion fun _ => ?_)
      rw [hpoint]
      rfl
    · cases ht
      exact .inl hsame
  | openRejected busy message =>
    simp only [step] at ht
    split at ht
    · rename_i hpoint
      cases ht
      refine .inl (own_goTo s Bool.noConfusion fun _ => ?_)
      rw [hpoint]
      rfl
    · cases ht
      exact .inl hsame
  | timeout =>
    simp only [step] at ht
    split at ht
    · cases ht
      obtain ⟨hsilent, hdeaf⟩ := htimers false s.slotTimer true s.aborted
      exact .inl (.silent hsilent hdeaf (own_fire _ _))
    · cases ht
  | slotTimeout =>
    simp only [step] at ht
    split at ht
    · cases ht
      obtain ⟨hsilent, hdeaf⟩ := htimers s.timer false s.timedOut s.aborted
      exact .inl (.silent hsilent hdeaf (own_abortOpen _ _))
    · cases ht
  | abort =>
    simp only [step] at ht
    split at ht
    · cases ht
    · cases ht
      obtain ⟨hsilent, hdeaf⟩ := htimers s.timer s.slotTimer s.timedOut true
      exact .inl (.silent hsilent hdeaf (own_fire _ _))
  | data chunk torn => cases he
  | eof => cases he
  | closed =>
    simp only [step] at ht
    split at ht
    · cases ht
      exact .inl (own_closeChannel s)
    · cases ht
  | windowAdjust bytes =>
    simp only [step] at ht
    split at ht
    · cases ht
      have hgrow : Silent s { s with window := min (s.window + bytes) Mux.channelWindowBytes } ∧
          Deaf s { s with window := min (s.window + bytes) Mux.channelWindowBytes } :=
        ⟨.of_same ⟨rfl, rfl, rfl⟩ rfl rfl rfl, .of_same rfl rfl rfl rfl rfl rfl⟩
      exact .inl (.silent hgrow.1 hgrow.2 (.of_silent (silent_wake _ true) (deaf_wake _ true)))
    · cases ht
  | piece piece =>
    simp only [step] at ht
    split at ht
    · rename_i hpoint
      cases ht
      refine .inl (own_goTo s (fun _ => ?_) Bool.noConfusion)
      rw [hpoint]
      rfl
    · cases ht
  | proceed torn => exact own_proceed ht

end Exchange
end Mullion
