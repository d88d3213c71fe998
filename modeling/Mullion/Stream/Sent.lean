import Mullion.Stream.Listening

/-!
# What an exchange sends

* `Unfinished`, `Complete` — data frames with these bytes, without and with an EOF behind them;
* `Sent` — the request line and the body, each byte once and in order, and the EOF only behind the
  whole of them;
* `Sent.step` — every event keeps it.
-/

namespace Mullion
namespace Exchange

open Mullion.Stream State
open Mux (channelWindowBytes)

/-! ## Frames -/

/-- Data frames with these bytes. -/
def Unfinished (frames : List Frame) (bytes : List UInt8) : Prop :=
  ∃ chunks : List (List UInt8), frames = chunks.map .data ∧ chunks.flatten = bytes

/-- Data frames with these bytes, and the EOF behind them. -/
def Complete (frames : List Frame) (bytes : List UInt8) : Prop :=
  ∃ before, Unfinished before bytes ∧ frames = before ++ [.eof]

variable {frames before : List Frame} {bytes : List UInt8}

theorem unfinished_nil : Unfinished [] [] := ⟨[], rfl, rfl⟩

theorem Unfinished.data (h : Unfinished frames bytes) (chunk : List UInt8) :
    Unfinished (frames ++ [.data chunk]) (bytes ++ chunk) := by
  obtain ⟨chunks, rfl, rfl⟩ := h
  exact ⟨chunks ++ [chunk], by rw [List.map_append]; rfl, by rw [List.flatten_concat]⟩

theorem Unfinished.eof (h : Unfinished frames bytes) : Complete (frames ++ [.eof]) bytes :=
  ⟨frames, h, rfl⟩

theorem Unfinished.eof_notMem (h : Unfinished frames bytes) : Frame.eof ∉ frames := by
  obtain ⟨chunks, rfl, -⟩ := h
  intro hmem
  obtain ⟨chunk, -, heq⟩ := List.mem_map.1 hmem
  cases heq

theorem Complete.eof_mem (h : Complete frames bytes) : Frame.eof ∈ frames := by
  obtain ⟨before, -, rfl⟩ := h
  exact List.mem_append_right _ List.mem_cons_self

theorem Unfinished.unique {bytes' : List UInt8} (h : Unfinished frames bytes)
    (h' : Unfinished frames bytes') : bytes = bytes' := by
  obtain ⟨chunks, rfl, rfl⟩ := h
  obtain ⟨chunks', heq, rfl⟩ := h'
  rw [List.map_injective_iff.2 (fun _ _ h => Frame.data.inj h) heq]

theorem Complete.unique {bytes' : List UInt8} (h : Complete frames bytes)
    (h' : Complete frames bytes') : bytes = bytes' := by
  obtain ⟨before, hbefore, rfl⟩ := h
  obtain ⟨before', hbefore', heq⟩ := h'
  obtain ⟨rfl, -⟩ := List.append_inj' heq rfl
  exact hbefore.unique hbefore'

/-- The EOF is the last frame. -/
theorem Complete.at_eof (h : Complete frames bytes) {n : ℕ} (hn : frames[n]? = some .eof) :
    Unfinished (frames.take n) bytes ∧ n + 1 = frames.length := by
  obtain ⟨before, hbefore, rfl⟩ := h
  have hlast : n = before.length := by
    by_contra hne
    rcases Nat.lt_or_gt_of_ne hne with hlt | hgt
    · rw [List.getElem?_append_left hlt] at hn
      exact hbefore.eof_notMem (List.mem_of_getElem? hn)
    · rw [List.getElem?_append_right (Nat.le_of_lt hgt), List.getElem?_eq_none (by simp; omega)]
        at hn
      cases hn
  subst hlast
  rw [List.take_left, List.length_append]
  exact ⟨hbefore, rfl⟩

/-! ## The books of an exchange -/

variable {req : Request} {readHead : List UInt8 → Option ResponseHead} {s t : State}

/-- The request line. -/
def Request.line (req : Request) : List UInt8 := req.headLine.bytes ++ [newline]

/-- The body that the request is meant to have, once it is known. -/
def State.wholeBody (req : Request) (s : State) : Option (List UInt8) :=
  match req.body with
  | .none => some []
  | .bytes data => some data
  | .stream => if s.ended then some s.taken else none

/-- What `write` has to send behind `sent`. -/
def Owes (req : Request) (s : State) (sent rest : List UInt8) : Part → Prop
  | .head => sent ++ rest = req.line ∧ s.taken = []
  | .bytes => ∃ data, req.body = .bytes data ∧ sent ++ rest = req.line ++ data
  | .piece => req.body = .stream ∧ sent ++ rest = req.line ++ s.taken

/-- What has been sent at a point. A frame that tears the connection is not sent, so that only an
open channel owes what is missing. -/
def Progress (req : Request) (s : State) : Point → Prop
  | .opening | .opened _ => s.frames = [] ∧ s.taken = []
  | .sending rest part | .blocked rest part _ =>
    ∃ sent, Unfinished s.frames sent ∧ (s.closed = false → Owes req s sent rest part)
  | .nextPiece _ =>
    ∃ sent, Unfinished s.frames sent ∧
      (s.closed = false → req.body = .stream ∧ sent = req.line ++ s.taken)
  | .awaiting _ | .done _ =>
    (∃ sent, Unfinished s.frames sent) ∨
      ∃ body, Complete s.frames (req.line ++ body) ∧ s.wholeBody req = some body

/-- The books of an exchange. -/
structure Sent (req : Request) (s : State) : Prop where
  progress : Progress req s s.point
  small : ∀ chunk, .data chunk ∈ s.frames → chunk.length ≤ channelWindowBytes
  /-- what is called before-send was not sent in full -/
  beforeSend : ∀ reason tooLarge,
    s.point = .done (.error (.transport reason .beforeSend tooLarge)) →
      ∃ sent, Unfinished s.frames sent
  resolved : ∀ response, s.point = .done (.ok response) → s.reply = .resolved response
  rejected : ∀ failure, s.reply = .rejected failure →
    ∃ reason tooLarge, failure = .transport reason .afterSend tooLarge

/-- Nothing is sent, and `write` is at most woken. -/
structure Silent (s t : State) : Prop where
  sent : t.frames = s.frames ∧ t.taken = s.taken ∧ t.ended = s.ended
  shut : s.closed = true → t.closed = true
  settled : t.reply = s.reply ∨ s.reply = .pending ∧ t.reply.Given Any
  point : t.point = s.point ∨ ∃ rest part woken woken',
    s.point = .blocked rest part woken ∧ t.point = .blocked rest part woken'

theorem State.Hears.silent {A : Response → Prop} (h : Hears A s t) : Silent s t where
  sent := h.sent
  shut := h.shut
  settled := by
    rcases h.settled with heq | ⟨hpending, hgiven⟩
    · exact .inl heq
    · refine .inr ⟨hpending, ?_⟩
      cases hreply : t.reply with
      | pending => exact absurd hreply hgiven.ne_pending
      | resolved response => trivial
      | rejected failure =>
        rw [hreply] at hgiven
        exact hgiven
  point := by
    rcases h.point with heq | ⟨rest, part, hs, ht⟩
    · exact .inl heq
    · exact .inr ⟨rest, part, none, some false, hs, ht⟩

theorem Silent.of_same (hsent : t.frames = s.frames ∧ t.taken = s.taken ∧ t.ended = s.ended)
    (hclosed : t.closed = s.closed) (hreply : t.reply = s.reply) (hpoint : t.point = s.point) :
    Silent s t where
  sent := hsent
  shut h := hclosed.trans h
  settled := .inl hreply
  point := .inl hpoint

theorem Silent.trans {u : State} (h : Silent s t) (h' : Silent t u) : Silent s u where
  sent := ⟨h'.sent.1.trans h.sent.1, h'.sent.2.1.trans h.sent.2.1, h'.sent.2.2.trans h.sent.2.2⟩
  shut hs := h'.shut (h.shut hs)
  settled := by
    rcases h'.settled with hu | ⟨ht, hu⟩
    · rw [hu]
      exact h.settled
    · rcases h.settled with hs | ⟨-, hgiven⟩
      · exact .inr ⟨hs.symm.trans ht, hu⟩
      · exact absurd ht hgiven.ne_pending
  point := by
    rcases h.point with hs | ⟨rest, part, woken, woken', hs, ht⟩
    · rw [← hs]
      exact h'.point
    · rcases h'.point with hu | ⟨rest', part', w, woken'', ht', hu⟩
      · exact .inr ⟨rest, part, woken, woken', hs, hu.trans ht⟩
      · rw [ht] at ht'
        cases ht'
        exact .inr ⟨rest, part, woken, woken'', hs, hu⟩

theorem Silent.wholeBody (h : Silent s t) : t.wholeBody req = s.wholeBody req := by
  unfold State.wholeBody
  rw [h.sent.2.1, h.sent.2.2]

theorem Silent.progress (h : Silent s t) {point : Point} (hs : Progress req s point) :
    Progress req t point := by
  have hopen : t.closed = false → s.closed = false := fun ht =>
    Bool.eq_false_of_not_eq_true fun hs => by
      rw [h.shut hs] at ht
      cases ht
  have howes : ∀ sent rest part, Owes req s sent rest part → Owes req t sent rest part := by
    intro sent rest part hs
    cases part with
    | head => exact ⟨hs.1, h.sent.2.1.trans hs.2⟩
    | bytes => exact hs
    | piece =>
      refine ⟨hs.1, ?_⟩
      rw [h.sent.2.1]
      exact hs.2
  unfold Progress at hs ⊢
  rw [h.sent.1, h.sent.2.1, h.wholeBody]
  split
  · exact hs
  · exact hs
  · obtain ⟨sent, hsent, hs⟩ := hs
    exact ⟨sent, hsent, fun ht => howes _ _ _ (hs (hopen ht))⟩
  · obtain ⟨sent, hsent, hs⟩ := hs
    exact ⟨sent, hsent, fun ht => howes _ _ _ (hs (hopen ht))⟩
  · obtain ⟨sent, hsent, hs⟩ := hs
    exact ⟨sent, hsent, fun ht => hs (hopen ht)⟩
  · exact hs
  · exact hs

/-- Who sends nothing keeps the books. -/
theorem Sent.silent (h : Sent req s) (ht : Silent s t) : Sent req t where
  progress := by
    rcases ht.point with heq | ⟨rest, part, woken, woken', hs, ht'⟩
    · rw [heq]
      exact ht.progress h.progress
    · rw [ht']
      have hprogress := h.progress
      rw [hs] at hprogress
      exact ht.progress hprogress
  small chunk hmem := by
    rw [ht.sent.1] at hmem
    exact h.small chunk hmem
  beforeSend reason tooLarge hpoint := by
    rw [ht.sent.1]
    rcases ht.point with heq | ⟨rest, part, woken, woken', -, ht'⟩
    · exact h.beforeSend reason tooLarge (heq.symm.trans hpoint)
    · rw [ht'] at hpoint
      cases hpoint
  resolved response hpoint := by
    have hs : s.reply = .resolved response := by
      rcases ht.point with heq | ⟨rest, part, woken, woken', -, ht'⟩
      · exact h.resolved response (heq.symm.trans hpoint)
      · rw [ht'] at hpoint
        cases hpoint
    rcases ht.settled with heq | ⟨hpending, -⟩
    · exact heq.trans hs
    · rw [hs] at hpending
      cases hpending
  rejected failure hreply := by
    rcases ht.settled with heq | ⟨-, hgiven⟩
    · exact h.rejected failure (heq.symm.trans hreply)
    · rw [hreply] at hgiven
      exact hgiven

/-! ## The sends -/

/-- To another point, with nothing sent. -/
theorem Sent.goTo (h : Sent req s) {point : Point} (hprogress : Progress req s point)
    (hdone : ∀ result, point ≠ .done result) : Sent req { s with point } where
  progress := hprogress
  small := h.small
  beforeSend _ _ hpoint := absurd hpoint (hdone _)
  resolved _ hpoint := absurd hpoint (hdone _)
  rejected := h.rejected

/-- The function fails. -/
theorem Sent.fail (h : Sent req s) {failure : Failure}
    (hprogress : Progress req s (.done (.error failure)))
    (hphase : ∀ reason tooLarge, failure = .transport reason .beforeSend tooLarge →
      ∃ sent, Unfinished s.frames sent) : Sent req (finish s (.error failure)) where
  progress := hprogress
  small := h.small
  beforeSend reason tooLarge hpoint := by
    cases hpoint
    exact hphase reason tooLarge rfl
  resolved response hpoint := by
    cases hpoint
  rejected := h.rejected

theorem silent_touch (s : State) : Silent s (s.touch req) :=
  (@hears_touch req Any s).silent

theorem silent_closeChannel (s : State) : Silent s s.closeChannel :=
  (@hears_closeChannel Any s).silent

/-- The whole request is sent. -/
theorem Sent.sendEof (h : Sent req s) {sent : List UInt8} (hsent : Unfinished s.frames sent)
    (hwhole : s.closed = false → ∃ body, sent = req.line ++ body ∧ s.wholeBody req = some body)
    (torn : Bool) : Sent req (sendEof s torn) := by
  unfold Exchange.sendEof
  dsimp only
  split
  · exact h.goTo (.inl ⟨sent, hsent⟩) fun _ => Point.noConfusion
  · rename_i hopen
    split
    · refine (h.silent (silent_closeChannel s)).goTo (.inl ⟨sent, ?_⟩) fun _ => Point.noConfusion
      rw [(silent_closeChannel s).sent.1]
      exact hsent
    · obtain ⟨body, hbody, hwhole⟩ := hwhole (Bool.eq_false_of_not_eq_true hopen)
      rw [hbody] at hsent
      exact {
        progress := .inr ⟨body, hsent.eof, hwhole⟩
        small := fun chunk hmem => by
          rcases List.mem_append.1 hmem with hs | hs
          · exact h.small chunk hs
          · cases List.mem_singleton.1 hs
        beforeSend := fun _ _ => Point.noConfusion
        resolved := fun _ => Point.noConfusion
        rejected := h.rejected }

theorem Sent.written (h : Sent req s) {part : Part} {sent : List UInt8}
    (hsent : Unfinished s.frames sent) (howes : s.closed = false → Owes req s sent [] part)
    (torn : Bool) : Sent req (written req s part torn) := by
  have htouch := @silent_touch req s
  have hsent' : Unfinished (s.touch req).frames sent := by
    rw [htouch.sent.1]
    exact hsent
  have hopen : (s.touch req).closed = false → s.closed = false := by
    intro ht
    refine Bool.eq_false_of_not_eq_true fun hs => ?_
    rw [htouch.shut hs] at ht
    cases ht
  unfold Exchange.written
  cases part with
  | head =>
    dsimp only
    split
    · rename_i hbody
      refine (h.silent htouch).sendEof hsent' (fun ht => ⟨[], ?_, ?_⟩) torn
      · have hhead := (howes (hopen ht)).1
        rwa [List.append_nil] at hhead ⊢
      · rw [State.wholeBody, hbody]
    · rename_i data hbody
      split
      · refine (h.silent htouch).goTo ⟨sent, hsent', fun ht => ⟨data, hbody, ?_⟩⟩
          fun _ => Point.noConfusion
        have hhead := (howes (hopen ht)).1
        rw [List.append_nil] at hhead
        rw [hhead]
      · rename_i hdata
        refine (h.silent htouch).sendEof hsent' (fun ht => ⟨[], ?_, ?_⟩) torn
        · have hhead := (howes (hopen ht)).1
          rwa [List.append_nil] at hhead ⊢
        · rw [State.wholeBody, hbody, not_not.1 hdata]
    · rename_i hbody
      refine (h.silent htouch).goTo ⟨sent, hsent', fun ht => ⟨hbody, ?_⟩⟩
        fun _ => Point.noConfusion
      obtain ⟨hhead, htaken⟩ := howes (hopen ht)
      rw [htouch.sent.2.1, htaken, List.append_nil]
      rwa [List.append_nil] at hhead
  | bytes =>
    refine h.sendEof hsent (fun hs => ?_) torn
    obtain ⟨data, hbody, hall⟩ := howes hs
    rw [List.append_nil] at hall
    exact ⟨data, hall, by rw [State.wholeBody, hbody]⟩
  | piece =>
    refine (h.silent htouch).goTo ⟨sent, hsent', fun ht => ?_⟩ fun _ => Point.noConfusion
    obtain ⟨hbody, hall⟩ := howes (hopen ht)
    rw [List.append_nil] at hall
    rw [htouch.sent.2.1]
    exact ⟨hbody, hall⟩

theorem Owes.drop {sent rest : List UInt8} {part : Part} (h : Owes req s sent rest part) (n : ℕ) :
    Owes req s (sent ++ rest.take n) (rest.drop n) part := by
  have heq : sent ++ rest.take n ++ rest.drop n = sent ++ rest := by
    rw [List.append_assoc, List.take_append_drop]
  unfold Owes at h ⊢
  rw [heq]
  exact h

/-- A frame tears the connection, and is not sent. -/
theorem Sent.torn (h : Sent req s) {sent : List UInt8} (hsent : Unfinished s.frames sent)
    (window : ℕ) (rest : List UInt8) (part : Part) :
    Sent req { s with window, point := .sending rest part }.closeChannel := by
  have hclose := silent_closeChannel { s with window, point := .sending rest part }
  have hpoint : { s with window, point := .sending rest part }.closeChannel.point =
      .sending rest part := by
    rcases hclose.point with heq | ⟨rest', part', woken, woken', hs, -⟩
    · exact heq
    · cases hs
  have hshut := closeChannel_closed { s with window, point := .sending rest part }
  generalize closeChannel { s with window, point := .sending rest part } = t at *
  exact {
    progress := by
      rw [hpoint]
      refine ⟨sent, ?_, fun ht => ?_⟩
      · rw [hclose.sent.1]
        exact hsent
      · rw [hshut] at ht
        cases ht
    small := fun chunk hmem => by
      rw [hclose.sent.1] at hmem
      exact h.small chunk hmem
    beforeSend := fun _ _ hdone => by
      rw [hpoint] at hdone
      cases hdone
    resolved := fun _ hdone => by
      rw [hpoint] at hdone
      cases hdone
    rejected := fun failure hreply => by
      rcases hclose.settled with heq | ⟨-, hgiven⟩
      · exact h.rejected failure (heq.symm.trans hreply)
      · rw [hreply] at hgiven
        exact hgiven }

theorem Sent.writeRound (h : Sent req s) {rest : List UInt8} {part : Part} {sent : List UInt8}
    (hsent : Unfinished s.frames sent) (howes : s.closed = false → Owes req s sent rest part)
    (torn : Bool) : Sent req (writeRound req s rest part torn) := by
  unfold Exchange.writeRound
  split
  · rename_i hrest
    rw [hrest] at howes
    exact h.written hsent howes torn
  · split
    · exact h.goTo (.inl ⟨sent, hsent⟩) fun _ => Point.noConfusion
    · rename_i hopen
      have howes := howes (Bool.eq_false_of_not_eq_true hopen)
      dsimp only
      have hn : min (min writeChunkBytes rest.length) s.window ≤ writeChunkBytes :=
        Nat.le_trans (Nat.min_le_left _ _) (Nat.min_le_left _ _)
      generalize min (min writeChunkBytes rest.length) s.window = n at hn
      split
      · exact h.goTo ⟨sent, hsent, fun _ => howes⟩ fun _ => Point.noConfusion
      · split
        · exact h.torn hsent _ _ _
        · exact {
            progress := ⟨_, hsent.data (rest.take n), fun _ => howes.drop n⟩
            small := fun chunk hmem => by
              rcases List.mem_append.1 hmem with hs | hs
              · exact h.small chunk hs
              · cases List.mem_singleton.1 hs
                have hwindow : writeChunkBytes ≤ channelWindowBytes := by decide
                rw [List.length_take]
                omega
            beforeSend := fun _ _ => Point.noConfusion
            resolved := fun _ => Point.noConfusion
            rejected := h.rejected }

/-! ## One step -/

theorem silent_hearPending (s : State) (chunks : List (List UInt8)) :
    Silent s (hearPending req readHead s chunks) := by
  induction chunks generalizing s with
  | nil => exact .of_same ⟨rfl, rfl, rfl⟩ rfl rfl rfl
  | cons chunk chunks ih =>
    exact (@hears_onData req readHead Any (fun _ => trivial) s chunk false).silent.trans (ih _)

theorem silent_attach (s : State) (torn : Bool) : Silent s (attach req readHead s torn) := by
  unfold attach
  dsimp only
  have hclear : Silent s { s with pendingData := [] } := .of_same ⟨rfl, rfl, rfl⟩ rfl rfl rfl
  have hpending := hclear.trans (@silent_hearPending req readHead _ s.pendingData)
  generalize hearPending req readHead { s with pendingData := [] } s.pendingData = heard at *
  have htorn : Silent s (if torn ∧ s.pendingData ≠ [] then heard.closeChannel else heard) := by
    split
    · exact hpending.trans (silent_closeChannel _)
    · exact hpending
  generalize (if torn ∧ s.pendingData ≠ [] then heard.closeChannel else heard) = heard at *
  have heof : Silent s
      (if heard.pendingEof then onEof readHead { heard with pendingEof := false } else heard) := by
    split
    · have hclear : Silent heard { heard with pendingEof := false } :=
        .of_same ⟨rfl, rfl, rfl⟩ rfl rfl rfl
      refine (htorn.trans hclear).trans (@hears_onEof readHead Any _ ?_).silent
      exact fun _ _ _ _ => trivial
    · exact htorn
  exact heof.trans (.of_same ⟨rfl, rfl, rfl⟩ rfl rfl rfl)

/-- The body could not be sent in full. -/
theorem Sent.bodyFailure (h : Sent req s) {sent : List UInt8} (hsent : Unfinished s.frames sent)
    (taken : List UInt8) (reason : Reason) (tooLarge : Bool) :
    Sent req (bodyFailure { s with taken } reason tooLarge) := by
  have hclose := silent_closeChannel { s with taken }
  have hsent' : Unfinished (closeChannel { s with taken }).frames sent := by
    rw [hclose.sent.1]
    exact hsent
  exact {
    progress := .inl ⟨sent, hsent'⟩
    small := fun chunk hmem => by
      refine h.small chunk ?_
      rwa [← show (closeChannel { s with taken }).frames = s.frames from hclose.sent.1]
    beforeSend := fun _ _ _ => ⟨sent, hsent'⟩
    resolved := fun _ hdone => by cases hdone
    rejected := fun failure hreply => by
      rcases hclose.settled with heq | ⟨-, hgiven⟩
      · exact h.rejected failure (heq.symm.trans hreply)
      · rw [show (closeChannel { s with taken }).reply = .rejected failure from hreply] at hgiven
        exact hgiven }

/-- The response is settled. -/
theorem Sent.settled (h : Sent req s) {afterFailure : Bool}
    (hpoint : s.point = .awaiting afterFailure) (ht : settled s afterFailure = some t) :
    Sent req t := by
  have hprogress : Progress req s (.awaiting afterFailure) := by
    rw [← hpoint]
    exact h.progress
  have hclose := silent_closeChannel s
  unfold Exchange.settled at ht
  split at ht
  · cases ht
  · rename_i headLine hreply
    cases ht
    exact {
      progress := hprogress
      small := h.small
      beforeSend := fun _ _ hdone => by cases hdone
      resolved := fun response hdone => by
        cases hdone
        exact hreply
      rejected := h.rejected }
  · rename_i response hstream hreply
    cases ht
    have hclosed := h.silent hclose
    exact {
      progress := hclose.progress hprogress
      small := hclosed.small
      beforeSend := fun _ _ hdone => by cases hdone
      resolved := fun response' hdone => by
        cases hdone
        rcases hclose.settled with heq | ⟨hpending, -⟩
        · exact heq.trans hreply
        · rw [hreply] at hpending
          cases hpending
      rejected := hclosed.rejected }
  · rename_i failure hreply
    cases ht
    refine (h.silent hclose).fail (hclose.progress hprogress) fun reason tooLarge hfailure => ?_
    obtain ⟨reason', tooLarge', rfl⟩ := h.rejected failure hreply
    split at hfailure
    · cases hfailure
    · cases hfailure

/-- The function goes on. -/
theorem Sent.proceed (h : Sent req s) {torn : Bool}
    (ht : proceed req readHead s torn = some t) : Sent req t := by
  have hprogress := h.progress
  unfold Exchange.proceed at ht
  split at ht
  · cases ht
  · cases ht
  · rename_i failure hpoint
    cases ht
    rw [hpoint] at hprogress
    have hnone : Unfinished s.frames [] := by
      rw [hprogress.1]
      exact unfinished_nil
    exact h.fail (.inl ⟨[], hnone⟩) fun _ _ _ => ⟨[], hnone⟩
  · rename_i hpoint
    rw [hpoint] at hprogress
    have hnone : Unfinished s.frames [] := by
      rw [hprogress.1]
      exact unfinished_nil
    split at ht
    · cases ht
      have hnone' : Unfinished s.closeChannel.frames [] := by
        rw [(silent_closeChannel s).sent.1]
        exact hnone
      exact (h.silent (silent_closeChannel s)).fail (.inl ⟨[], hnone'⟩) fun _ _ _ => ⟨[], hnone'⟩
    · cases ht
      have hattach := @silent_attach req readHead s torn
      refine (h.silent hattach).goTo ⟨[], ?_, fun _ => ⟨rfl, ?_⟩⟩ fun _ => Point.noConfusion
      · rw [hattach.sent.1]
        exact hnone
      · exact hattach.sent.2.1.trans hprogress.2
  · rename_i rest part hpoint
    cases ht
    rw [hpoint] at hprogress
    obtain ⟨sent, hsent, howes⟩ := hprogress
    exact h.writeRound hsent howes torn
  · cases ht
  · rename_i rest part hpoint
    cases ht
    rw [hpoint] at hprogress
    exact h.goTo hprogress fun _ => Point.noConfusion
  · rename_i rest part hpoint
    cases ht
    rw [hpoint] at hprogress
    obtain ⟨sent, hsent, -⟩ := hprogress
    exact h.goTo (.inl ⟨sent, hsent⟩) fun _ => Point.noConfusion
  · cases ht
  · rename_i data hpoint
    rw [hpoint] at hprogress
    obtain ⟨sent, hsent, hall⟩ := hprogress
    have htaken : Sent req { s with taken := s.taken ++ data, point := .sending data .piece } := {
      progress := ⟨sent, hsent, fun hs => by
        obtain ⟨hbody, rfl⟩ := hall hs
        exact ⟨hbody, List.append_assoc _ _ _⟩⟩
      small := h.small
      beforeSend := fun _ _ => Point.noConfusion
      resolved := fun _ => Point.noConfusion
      rejected := h.rejected }
    dsimp only at ht
    split at ht
    · cases ht
      exact h.bodyFailure hsent _ _ _
    · cases ht
      exact htaken
  · rename_i hpoint
    cases ht
    rw [hpoint] at hprogress
    obtain ⟨sent, hsent, hall⟩ := hprogress
    have hended : Sent req { s with ended := true } := {
      progress := by
        rw [show State.point _ = s.point from rfl, hpoint]
        exact ⟨sent, hsent, hall⟩
      small := h.small
      beforeSend := h.beforeSend
      resolved := h.resolved
      rejected := h.rejected }
    refine hended.sendEof hsent (fun hs => ?_) torn
    obtain ⟨hbody, hall⟩ := hall hs
    exact ⟨s.taken, hall, by rw [State.wholeBody, hbody]; rfl⟩
  · rename_i hpoint
    cases ht
    rw [hpoint] at hprogress
    obtain ⟨sent, hsent, -⟩ := hprogress
    exact h.bodyFailure hsent s.taken _ _
  · rename_i afterFailure hpoint
    exact h.settled hpoint ht

/-- The opening is settled. -/
theorem Sent.opened (h : Sent req s) (hpoint : s.point = .opening) (failure : Option Failure) :
    Sent req { s with point := .opened failure } := by
  have hprogress := h.progress
  rw [hpoint] at hprogress
  exact h.goTo hprogress fun _ => Point.noConfusion

theorem Sent.abortOpen (h : Sent req s) (failure : Failure) : Sent req (abortOpen s failure) := by
  unfold Exchange.abortOpen
  split
  · rename_i hpoint
    exact h.opened hpoint _
  · exact h

theorem Sent.fire (h : Sent req s) (reason : Reason) : Sent req (fire s reason) := by
  unfold Exchange.fire
  split
  · exact (h.silent (silent_closeChannel s)).abortOpen _
  · exact h.abortOpen _

theorem silent_wake (s : State) (ok : Bool) : Silent s (s.wake ok) := by
  obtain ⟨point, heq, hpoint⟩ := wake_eq s ok
  rw [heq]
  exact {
    sent := ⟨rfl, rfl, rfl⟩
    shut := id
    settled := .inl rfl
    point := by
      rcases hpoint with hs | ⟨rest, part, hs, ht⟩
      · exact .inl hs
      · exact .inr ⟨rest, part, none, some ok, hs, ht⟩ }

/-- **The step lemma.** Every event keeps the books. -/
theorem Sent.step (h : Sent req s) {e : Event} (ht : step req readHead s e = some t) :
    Sent req t := by
  have htimers : ∀ timer slotTimer timedOut aborted,
      Sent req { s with timer, slotTimer, timedOut, aborted } := fun _ _ _ _ =>
    h.silent (.of_same ⟨rfl, rfl, rfl⟩ rfl rfl rfl)
  cases e with
  | waiting =>
    simp only [Exchange.step] at ht
    split at ht
    · cases ht
      exact htimers _ _ _ _
    · cases ht
  | slotAcquired =>
    simp only [Exchange.step] at ht
    split at ht
    · cases ht
      exact htimers _ _ _ _
    · cases ht
      exact htimers _ _ _ _
  | openResolved =>
    simp only [Exchange.step] at ht
    split at ht
    · rename_i hpoint
      cases ht
      exact h.opened hpoint none
    · cases ht
      exact h
  | openRejected busy message =>
    simp only [Exchange.step] at ht
    split at ht
    · rename_i hpoint
      cases ht
      exact h.opened hpoint _
    · cases ht
      exact h
  | timeout =>
    simp only [Exchange.step] at ht
    split at ht
    · cases ht
      exact (htimers false s.slotTimer true s.aborted).fire _
    · cases ht
  | slotTimeout =>
    simp only [Exchange.step] at ht
    split at ht
    · cases ht
      exact (htimers s.timer false s.timedOut s.aborted).abortOpen _
    · cases ht
  | abort =>
    simp only [Exchange.step] at ht
    split at ht
    · cases ht
    · cases ht
      exact (htimers s.timer s.slotTimer s.timedOut true).fire _
  | data chunk torn =>
    simp only [Exchange.step] at ht
    split at ht
    · split at ht
      · cases ht
        exact h.silent (@hears_onData req readHead Any (fun _ => trivial) s chunk torn).silent
      · split at ht
        · cases ht
          exact h.silent (silent_closeChannel s)
        · cases ht
          exact h.silent (.of_same ⟨rfl, rfl, rfl⟩ rfl rfl rfl)
    · cases ht
  | eof =>
    simp only [Exchange.step] at ht
    split at ht
    · split at ht
      · cases ht
        exact h.silent (@hears_onEof readHead Any s fun _ _ _ _ => trivial).silent
      · cases ht
        exact h.silent (.of_same ⟨rfl, rfl, rfl⟩ rfl rfl rfl)
    · cases ht
  | closed =>
    simp only [Exchange.step] at ht
    split at ht
    · cases ht
      exact h.silent (silent_closeChannel s)
    · cases ht
  | windowAdjust bytes =>
    simp only [Exchange.step] at ht
    split at ht
    · cases ht
      have hgrow : Silent s { s with window := min (s.window + bytes) channelWindowBytes } :=
        .of_same ⟨rfl, rfl, rfl⟩ rfl rfl rfl
      exact h.silent (hgrow.trans (silent_wake _ true))
    · cases ht
  | piece piece =>
    simp only [Exchange.step] at ht
    split at ht
    · rename_i hpoint
      cases ht
      have hprogress := h.progress
      rw [hpoint] at hprogress
      exact h.goTo hprogress fun _ => Point.noConfusion
    · cases ht
  | proceed torn => exact h.proceed ht

theorem sent_start (req : Request) : Sent req (.start req) where
  progress := by
    unfold start
    dsimp only
    cases req.refusal with
    | some failure => exact .inl ⟨[], unfinished_nil⟩
    | none => exact ⟨rfl, rfl⟩
  small _ hmem := by cases hmem
  beforeSend _ _ _ := ⟨[], unfinished_nil⟩
  resolved response hpoint := by
    unfold start at hpoint
    dsimp only at hpoint
    split at hpoint <;> cases hpoint
  rejected _ hreply := by cases hreply

end Exchange
end Mullion
