import Mullion.Stream.Refusal
import Mullion.Stream.Tunnel

/-!
# The outcome of a tunnelled request

`requestViaChannel` (`agent-channel-tunnel.ts`) makes an error of the caller out of an exchange that
failed or was refused.  May the caller of a mutation repeat it?  Not when its outcome is unknown;
`outcome_honest` says what every other error means, along every run.  Either no route was called, or
the route refused the request and its answer came back whole, or the agent answered for the route:
its response would have been too large, or `app.inject` has rejected.  In the last case the route
has run although the error does not say so.

An exchange that fails ends with the phase it was in, and one that was answered ends with the whole
of what the agent has sent.  So the proof is a reading of the two sides' books (`Tunnel.Inv`,
`Replay.Owns`) at the end of the exchange; the one further invariant is that an exchange that found
the channel busy has sent nothing (`BusyUnsent`).
-/

namespace Mullion
namespace Outcome

open Mullion.Stream Serve Exchange State Replay Tunnel

/-! ## Reads and mutations -/

/-- `(\?|$)`. -/
def endsPath : List Char → Bool
  | [] => true
  | c :: _ => c = '?'

/-- The text goes on with this word, and the path ends there. -/
def isWord (word : String) (rest : List Char) : Bool :=
  word.toList.isPrefixOf rest && endsPath (rest.drop word.length)

/-- `[^/]+\/wait-output`. -/
def isWaitOutput (rest : List Char) : Bool :=
  let id := rest.takeWhile (· ≠ '/')
  id ≠ [] && isWord "/wait-output" (rest.drop id.length)

/-- One of these words, behind `base`. -/
def isOneOf (base : String) (words : List String) (path : List Char) : Bool :=
  base.toList.isPrefixOf path && words.any fun word => isWord word (path.drop base.length)

/-- `IDEMPOTENT_POST_PATHS`. -/
def isIdempotentPost (path : List Char) : Bool :=
  isOneOf "/internal/sessions/" ["live", "liveness"] path ||
    "/internal/sessions/".toList.isPrefixOf path &&
      isWaitOutput (path.drop "/internal/sessions/".length) ||
    isOneOf "/internal/project-files/" ["list", "read", "stat", "search", "download"] path ||
    isOneOf "/internal/" ["scaffold-scan", "read-files", "worktrees/compare-paths"] path

/-- `GIT_REPAIR_PATH`. -/
def isGitRepair (path : List Char) : Bool := isOneOf "/internal/" ["git-repair"] path

/-- `confirmed` is `JSON.parse(body.toString()).confirm === true`, and `none` when that throws. -/
def isIdempotentRequest (confirmed : List UInt8 → Option Bool) (method path : String)
    (body : Option (List UInt8)) : Bool :=
  if method = "GET" || method = "HEAD" then true
  else if method ≠ "POST" then false
  else if isIdempotentPost path.toList then true
  else match body with
    | some body => isGitRepair path.toList && confirmed body = some false
    | none => false

/-! ## Errors -/

inductive HostError
  /-- `HostBusyError` -/
  | busy (message : String)
  /-- `HostUnreachableError` -/
  | unreachable (message : String)
  /-- `HostOutcomeUnknownError` -/
  | outcomeUnknown (message : String)
  /-- `HostRequestError` -/
  | request (statusCode : ℕ) (body : String)
  /-- `HostResponseTooLargeError` -/
  | responseTooLarge (body : String)
  deriving DecidableEq, Repr

/-- `isOutcomeUnknown`. -/
def HostError.isOutcomeUnknown : HostError → Bool
  | .outcomeUnknown _ => true
  | _ => false

def unreachableText (hostId detail : String) : String :=
  "Host " ++ hostId ++ " is unreachable: " ++ detail

def busyText (hostId detail : String) : String :=
  "Host " ++ hostId ++ " is busy: " ++
    (if detail = "" then "outbound channel concurrency cap reached" else detail)

def outcomeUnknownText (hostId detail : String) : String :=
  "Host " ++ hostId ++ " lost the outbound connection mid-request; the outcome is unknown and " ++
    "the request was not repeated: " ++ detail

/-- `JSON.stringify` of an object with this message; the texts of a limit need no escape. -/
def messageJson (message : String) : String := "\x7b\"message\":\"" ++ message ++ "\"\x7d"

/-- What the caller knows of its request and of the primary's end of the channel. -/
structure Caller where
  hostId : String
  /-- as it is sent, in capitals -/
  method : String
  /-- `entry.terminal`: why the primary ended the channel, if it did -/
  terminal : Option String
  /-- `JSON.parse(body.toString()).confirm === true` -/
  confirmed : List UInt8 → Option Bool
  /-- the status of a response head -/
  status : List UInt8 → ℕ
  /-- `toString("utf8")` -/
  text : List UInt8 → String

section Caller

variable (caller : Caller) (req : Request)

/-- The body, if it is a string or a `Buffer`. -/
def heldBody : Option (List UInt8) :=
  match req.body with
  | .bytes data => some data
  | _ => none

def Caller.idempotent : Bool :=
  isIdempotentRequest caller.confirmed caller.method req.path (heldBody req)

def mapChannelError : Failure → HostError
  | .busy reason => .busy (busyText caller.hostId (reason.message req caller.terminal))
  | .transport reason phase tooLarge =>
    let message := reason.message req caller.terminal
    if tooLarge && (phase = .beforeSend || caller.idempotent req) then
      if phase = .beforeSend then .request 413 (messageJson message)
      else .responseTooLarge (messageJson message)
    else if phase = .afterSend && !caller.idempotent req then
      .outcomeUnknown (outcomeUnknownText caller.hostId message)
    else if caller.terminal.any (· ≠ "") then .request 401 message
    else .unreachable (unreachableText caller.hostId message)

def refusalForStatus (status : ℕ) (bodyText : String) : Option HostError :=
  if 200 ≤ status ∧ status < 300 then none
  else if 400 ≤ status ∧ status < 500 then some (.request status bodyText)
  else some (.unreachable (unreachableText caller.hostId ("HTTP " ++ toString status)))

/-- What `requestViaChannel` makes of an exchange that is over; a value is the bytes it parses, and
`undefined` at 204. -/
def requestViaChannel (s : State) : Option (Except HostError (Option (List UInt8))) :=
  match s.point with
  | .done (.error failure) => some (.error (mapChannelError caller req failure))
  | .done (.ok (.whole line body)) =>
    match refusalForStatus caller (caller.status line) (caller.text body) with
    | some refusal => some (.error refusal)
    | none => some (.ok (if caller.status line = 204 then none else some body))
  | _ => none

end Caller

/-- The route refused the request, and its answer came back whole. -/
def RouteRefused (caller : Caller) (y : Sys) (error : HostError) : Prop :=
  ∃ headLine, y.agent.replayed = some headLine ∧ y.agent.complete = true ∧
    refusalForStatus caller (caller.status headLine.bytes) (caller.text y.agent.produced) =
      some error

/-- A route was called and the agent answered for it: the response would have been too large, or
`app.inject` has rejected. -/
def AgentAnswered (env : Env) (caller : Caller) (y : Sys) (error : HostError) : Prop :=
  y.agent.replayed = none ∧ ∃ injection ∈ y.agent.injections,
    error = .request 413 (caller.text
      (env.message (responseTooLargeMessage (maxResponseBodyBytesForPath injection.url)))) ∨
    error = .unreachable (unreachableText caller.hostId "HTTP 500")

/-- What the caller may conclude. -/
structure Honest (env : Env) (caller : Caller) (req : Request) (y : Sys) : Prop where
  /-- a read never leaves a doubt -/
  read : ∀ error, requestViaChannel caller req y.primary = some (.error error) →
    caller.idempotent req = true → error.isOutcomeUnknown = false
  /-- a mutation that failed without a doubt reached no route, or was answered -/
  refused : ∀ error, requestViaChannel caller req y.primary = some (.error error) →
    error.isOutcomeUnknown = false → caller.idempotent req = false →
      y.agent.injections = [] ∨ RouteRefused caller y error ∨ AgentAnswered env caller y error
  /-- a value is the whole response of the route -/
  value : ∀ value, requestViaChannel caller req y.primary = some (.ok value) →
    ∃ headLine, y.agent.replayed = some headLine ∧ y.agent.complete = true ∧
      200 ≤ caller.status headLine.bytes ∧ caller.status headLine.bytes < 300 ∧
      value = if caller.status headLine.bytes = 204 then none else some y.agent.produced

/-- The caller reads back the status of the heads that the agent writes for itself. -/
def ReadsOwn (env : Env) (caller : Caller) : Prop :=
  ∀ status ∈ [400, 405, 413, 500], ∀ headers,
    caller.status (env.stringify status headers).bytes = status

/-! ## What a busy channel has sent -/

section Books

variable {req : Request} {readHead : List UInt8 → Option ResponseHead} {s t : State}

/-- An exchange that found the channel busy has sent nothing. -/
def BusyUnsent (s : State) : Prop :=
  ∀ reason, s.point = .done (.error (.busy reason)) → s.frames = []

/-- Nothing is sent, and the exchange does not end here. -/
structure Quiet (s t : State) : Prop where
  frames : t.frames = s.frames
  point : t.point = s.point ∨ ∀ result, t.point ≠ .done result

theorem Quiet.of_silent (h : Silent s t) : Quiet s t where
  frames := h.sent.1
  point := by
    rcases h.point with heq | ⟨rest, part, woken, woken', -, ht⟩
    · exact .inl heq
    · refine .inr fun result hdone => ?_
      rw [ht] at hdone
      cases hdone

theorem Quiet.abortOpen (failure : Failure) (h : Quiet s t) : Quiet s (abortOpen t failure) := by
  unfold Exchange.abortOpen
  split
  · exact ⟨h.frames, .inr fun _ => Point.noConfusion⟩
  · exact h

theorem Quiet.fire (reason : Reason) (hframes : t.frames = s.frames) (hpoint : t.point = s.point) :
    Quiet s (fire t reason) := by
  unfold Exchange.fire
  split
  · refine Quiet.abortOpen _ ⟨(silent_closeChannel t).sent.1.trans hframes, ?_⟩
    rcases (Quiet.of_silent (silent_closeChannel t)).point with heq | hne
    · exact .inl (heq.trans hpoint)
    · exact .inr hne
  · exact Quiet.abortOpen _ ⟨hframes, .inl hpoint⟩

/-- Only the function itself ends the exchange. -/
theorem quiet_step {e : Exchange.Event} (hown : ∀ torn, e ≠ .proceed torn)
    (ht : Exchange.step req readHead s e = some t) : Quiet s t := by
  have hsame : Quiet s s := ⟨rfl, .inl rfl⟩
  cases e with
  | waiting =>
    simp only [Exchange.step] at ht
    split at ht
    · cases ht
      exact ⟨rfl, .inl rfl⟩
    · cases ht
  | slotAcquired =>
    simp only [Exchange.step] at ht
    split at ht <;> cases ht <;> exact ⟨rfl, .inl rfl⟩
  | openResolved =>
    simp only [Exchange.step] at ht
    split at ht
    · cases ht
      exact ⟨rfl, .inr fun _ => Point.noConfusion⟩
    · cases ht
      exact hsame
  | openRejected busy message =>
    simp only [Exchange.step] at ht
    split at ht
    · cases ht
      exact ⟨rfl, .inr fun _ => Point.noConfusion⟩
    · cases ht
      exact hsame
  | timeout =>
    simp only [Exchange.step] at ht
    split at ht
    · cases ht
      exact Quiet.fire _ rfl rfl
    · cases ht
  | slotTimeout =>
    simp only [Exchange.step] at ht
    split at ht
    · cases ht
      exact Quiet.abortOpen _ ⟨rfl, .inl rfl⟩
    · cases ht
  | abort =>
    simp only [Exchange.step] at ht
    split at ht
    · cases ht
    · cases ht
      exact Quiet.fire _ rfl rfl
  | data chunk torn =>
    simp only [Exchange.step] at ht
    split at ht
    · split at ht
      · cases ht
        exact .of_silent (@hears_onData req readHead Any (fun _ => trivial) s chunk torn).silent
      · split at ht
        · cases ht
          exact .of_silent (silent_closeChannel s)
        · cases ht
          exact ⟨rfl, .inl rfl⟩
    · cases ht
  | eof =>
    simp only [Exchange.step] at ht
    split at ht
    · split at ht
      · cases ht
        exact .of_silent (@hears_onEof readHead Any s fun _ _ _ _ => trivial).silent
      · cases ht
        exact ⟨rfl, .inl rfl⟩
    · cases ht
  | closed =>
    simp only [Exchange.step] at ht
    split at ht
    · cases ht
      exact .of_silent (silent_closeChannel s)
    · cases ht
  | windowAdjust bytes =>
    simp only [Exchange.step] at ht
    split at ht
    · cases ht
      have hwake := Quiet.of_silent
        (silent_wake { s with window := min (s.window + bytes) Mux.channelWindowBytes } true)
      exact ⟨hwake.frames, hwake.point⟩
    · cases ht
  | piece piece =>
    simp only [Exchange.step] at ht
    split at ht
    · cases ht
      exact ⟨rfl, .inr fun _ => Point.noConfusion⟩
    · cases ht
  | proceed torn => exact absurd rfl (hown torn)

/-! ## Where the function ends -/

theorem written_ne_done (s : State) (part : Part) (torn : Bool) (result : Except Failure Response) :
    (written req s part torn).point ≠ .done result := by
  unfold written
  cases part with
  | head =>
    dsimp only
    split
    · exact Point.noConfusion
    · split
      · exact Point.noConfusion
      · exact Point.noConfusion
    · exact Point.noConfusion
  | bytes => exact Point.noConfusion
  | piece => exact Point.noConfusion

theorem writeRound_ne_done (s : State) (rest : List UInt8) (part : Part) (torn : Bool)
    (result : Except Failure Response) :
    (writeRound req s rest part torn).point ≠ .done result := by
  unfold writeRound
  split
  · exact written_ne_done s part torn result
  · split
    · exact Point.noConfusion
    · dsimp only
      split
      · exact Point.noConfusion
      · split
        · -- `write` is not blocked, so that the close wakes nobody
          generalize min (min Exchange.writeChunkBytes rest.length) s.window = n
          rcases (silent_closeChannel { s with
            window := s.window - n, point := .sending (rest.drop n) part }).point with
            heq | ⟨_, _, _, _, hs, -⟩
          · rw [heq]
            exact Point.noConfusion
          · cases hs
        · exact Point.noConfusion

/-- An exchange that has its channel ends with no busy error. -/
theorem settled_ne_busy (h : Sent req s) {afterFailure : Bool}
    (ht : Exchange.settled s afterFailure = some t) (reason : Reason) :
    t.point ≠ .done (.error (.busy reason)) := by
  unfold Exchange.settled at ht
  split at ht
  · cases ht
  · cases ht
    exact fun hdone => by cases hdone
  · cases ht
    exact fun hdone => by cases hdone
  · next failure hreply =>
    cases ht
    obtain ⟨reason', tooLarge, rfl⟩ := h.rejected failure hreply
    intro hdone
    simp only [finish] at hdone
    split at hdone
    · cases hdone
    · cases hdone

/-- The function goes on. -/
theorem BusyUnsent.proceed (h : Sent req s) {torn : Bool}
    (ht : proceed req readHead s torn = some t) : BusyUnsent t := by
  intro reason hdone
  unfold Exchange.proceed at ht
  split at ht
  · cases ht
  · cases ht
  · next failure hpoint =>
    cases ht
    have hprogress := h.progress
    rw [hpoint] at hprogress
    exact hprogress.1
  · split at ht
    · cases ht
      cases hdone
    · cases ht
      cases hdone
  · cases ht
    exact absurd hdone (writeRound_ne_done _ _ _ _ _)
  · cases ht
  · cases ht
    cases hdone
  · cases ht
    cases hdone
  · cases ht
  · dsimp only at ht
    split at ht
    · cases ht
      cases hdone
    · cases ht
      cases hdone
  · cases ht
    cases hdone
  · cases ht
    cases hdone
  · exact absurd hdone (settled_ne_busy h ht reason)

/-- **The step lemma.** An exchange that found the channel busy has sent nothing. -/
theorem BusyUnsent.step (h : BusyUnsent s) (hsent : Sent req s) {e : Exchange.Event}
    (ht : Exchange.step req readHead s e = some t) : BusyUnsent t := by
  have hquiet : Quiet s t → BusyUnsent t := by
    intro hquiet reason hdone
    rcases hquiet.point with heq | hne
    · exact hquiet.frames.trans (h reason (heq.symm.trans hdone))
    · exact absurd hdone (hne _)
  cases e with
  | proceed torn => exact .proceed hsent ht
  | _ => exact hquiet (quiet_step (fun _ => Exchange.Event.noConfusion) ht)

theorem busyUnsent_start (req : Request) : BusyUnsent (.start req) := by
  intro reason hdone
  rfl

/-! ## Runs -/

variable {env : Env} {y z : Sys}

/-- The books of a tunnelled request, of the agent's own responses and of a busy channel. -/
structure Book (req : Request) (env : Env) (y : Sys) : Prop where
  inv : Inv req env y
  owns : Owns env y.agent
  busy : BusyUnsent y.primary

theorem Book.step (h : Book req env y) {e : Tunnel.Event}
    (hz : Tunnel.step req readHead env y e = some z) : Book req env z where
  inv := h.inv.step hz
  owns := by
    have howns := h.owns
    have hreplies := h.inv.replies
    cases e with
    | primary e =>
      simp only [Tunnel.step] at hz
      split at hz
      · obtain ⟨t, -, rfl⟩ := Option.map_eq_some_iff.1 hz
        exact howns
      · cases hz
    | agent e =>
      obtain ⟨b, hb, rfl⟩ := Option.map_eq_some_iff.1 hz
      exact howns.step hreplies hb
    | up =>
      simp only [Tunnel.step] at hz
      split at hz
      · cases hz
      · split at hz
        · cases hz
          exact howns.hear hreplies _
        · cases hz
    | down torn =>
      simp only [Tunnel.step] at hz
      split at hz
      · obtain ⟨t, -, rfl⟩ := Option.map_eq_some_iff.1 hz
        exact howns
      · cases hz
  busy := by
    cases e with
    | primary e =>
      simp only [Tunnel.step] at hz
      split at hz
      · obtain ⟨t, ht, rfl⟩ := Option.map_eq_some_iff.1 hz
        exact h.busy.step h.inv.sent ht
      · cases hz
    | agent e =>
      obtain ⟨b, -, rfl⟩ := Option.map_eq_some_iff.1 hz
      exact h.busy
    | up =>
      simp only [Tunnel.step] at hz
      split at hz
      · cases hz
      · split at hz
        · cases hz
          exact h.busy
        · cases hz
    | down torn =>
      simp only [Tunnel.step] at hz
      split at hz
      · obtain ⟨t, ht, rfl⟩ := Option.map_eq_some_iff.1 hz
        exact h.busy.step h.inv.sent ht
      · cases hz

/-- An exchange that did not send its request in full reached no route. -/
theorem Book.unreached (h : Book req env y) {failure : Failure}
    (hpoint : y.primary.point = .done (.error failure))
    (hphase : ∀ reason tooLarge, failure ≠ .transport reason .afterSend tooLarge) :
    y.agent.injections = [] := by
  cases failure with
  | transport reason phase tooLarge =>
    cases phase with
    | beforeSend => exact h.inv.sound.beforeSend reason tooLarge hpoint
    | afterSend => exact absurd rfl (hphase reason tooLarge)
  | busy reason =>
    rcases h.inv.up with ⟨-, -, -, hnone⟩ | ⟨body, hcomplete, -⟩
    · exact hnone
    · have heof := hcomplete.eof_mem
      rw [h.busy reason hpoint] at heof
      cases heof

/-- What is mapped to no doubt was sent in full by a read alone. -/
theorem not_afterSend {caller : Caller} {failure : Failure}
    (hknown : (mapChannelError caller req failure).isOutcomeUnknown = false)
    (hmutation : caller.idempotent req = false) (reason : Reason) (tooLarge : Bool) :
    failure ≠ .transport reason .afterSend tooLarge := by
  rintro rfl
  simp [mapChannelError, hmutation, HostError.isOutcomeUnknown] at hknown

theorem read_known {caller : Caller} (hread : caller.idempotent req = true) (failure : Failure) :
    (mapChannelError caller req failure).isOutcomeUnknown = false := by
  unfold mapChannelError
  split
  · rfl
  · simp only [hread, Bool.or_true, Bool.and_true, Bool.not_true, Bool.and_false,
      Bool.false_eq_true, if_false]
    split
    · split <;> rfl
    · split <;> rfl

theorem refusal_known {caller : Caller} {status : ℕ} {text : String} {error : HostError}
    (h : refusalForStatus caller status text = some error) : error.isOutcomeUnknown = false := by
  unfold refusalForStatus at h
  split at h
  · cases h
  · split at h <;> cases h <;> rfl

theorem in_range {caller : Caller} {status : ℕ} {text : String}
    (h : refusalForStatus caller status text = none) : 200 ≤ status ∧ status < 300 := by
  unfold refusalForStatus at h
  split at h
  · next hrange => exact hrange
  · split at h <;> cases h

/-- What the caller is told of a response of the agent itself. -/
theorem own_refused {caller : Caller} (hstatus : ReadsOwn env caller)
    {injections : List Injection} {status : ℕ} {line : Line} {body : List UInt8}
    (hown : OwnReply env injections status line body) :
    injections = [] ∧ (refusalForStatus caller (caller.status line.bytes)
        (caller.text body)).isSome ∨
      ∃ injection ∈ injections,
        refusalForStatus caller (caller.status line.bytes) (caller.text body) =
          some (.request 413 (caller.text
            (env.message (responseTooLargeMessage (maxResponseBodyBytesForPath injection.url))))) ∨
        refusalForStatus caller (caller.status line.bytes) (caller.text body) =
          some (.unreachable (unreachableText caller.hostId "HTTP 500")) := by
  cases hown with
  | @refused status message hmem hnone =>
    have hlist : status ∈ [400, 405, 413, 500] ∧ 400 ≤ status ∧ status < 500 := by
      simp only [refusals, List.mem_cons, Prod.mk.injEq, List.not_mem_nil, or_false] at hmem
      rcases hmem with ⟨rfl, -⟩ | ⟨rfl, -⟩ | ⟨rfl, -⟩ | ⟨rfl, -⟩ <;> decide
    refine .inl ⟨hnone, ?_⟩
    rw [hstatus status hlist.1, refusalForStatus, if_neg (by omega), if_pos hlist.2]
    rfl
  | failed hsome =>
    obtain ⟨injection, hmem⟩ := List.exists_mem_of_ne_nil _ hsome
    refine .inr ⟨injection, hmem, .inr ?_⟩
    rw [hstatus 500 (by decide)]
    rfl
  | @tooLarge injection hmem =>
    refine .inr ⟨injection, hmem, .inl ?_⟩
    rw [hstatus 413 (by decide)]
    rfl

/-- A whole response is the route's, or one of the agent itself. -/
theorem Book.answered (h : Book req env y) {line body : List UInt8}
    (hpoint : y.primary.point = .done (.ok (.whole line body))) :
    (∃ headLine, y.agent.replayed = some headLine ∧ line = headLine.bytes ∧
        body = y.agent.produced ∧ y.agent.complete = true) ∨
      y.agent.replayed = none ∧ ∃ status headLine,
        OwnReply env y.agent.injections status headLine body ∧ line = headLine.bytes := by
  cases hreplayed : y.agent.replayed with
  | some headLine =>
    obtain ⟨hline, hbody, hdone⟩ := h.inv.sound.whole line body headLine hpoint hreplayed
    exact .inl ⟨headLine, rfl, hline, hbody, hdone⟩
  | none =>
    obtain ⟨hline, hcomplete⟩ := h.inv.whole line body (h.inv.sent.resolved _ hpoint)
    exact .inr ⟨rfl, h.owns.whole h.inv.replies hreplayed hline hcomplete⟩

/-- The books say what the caller may conclude. -/
theorem Book.honest (h : Book req env y) {caller : Caller} (hstatus : ReadsOwn env caller) :
    Honest env caller req y where
  read error herror hread := by
    unfold requestViaChannel at herror
    split at herror
    · cases herror
      exact read_known hread _
    · split at herror
      · next hrefusal =>
        cases herror
        exact refusal_known hrefusal
      · cases herror
    · cases herror
  refused error herror hknown hmutation := by
    unfold requestViaChannel at herror
    split at herror
    · next failure hpoint =>
      cases herror
      exact .inl (h.unreached hpoint (not_afterSend hknown hmutation))
    · next line body hpoint =>
      split at herror
      · next hrefusal =>
        cases herror
        rcases h.answered hpoint with ⟨headLine, hreplayed, rfl, rfl, hdone⟩ |
          ⟨hnone, status, headLine, hown, rfl⟩
        · exact .inr (.inl ⟨headLine, hreplayed, hdone, hrefusal⟩)
        · rcases own_refused hstatus hown with ⟨hinjections, -⟩ | ⟨injection, hmem, htold⟩
          · exact .inl hinjections
          · refine .inr (.inr ⟨hnone, injection, hmem, ?_⟩)
            rw [hrefusal] at htold
            exact htold.imp Option.some.inj Option.some.inj
      · cases herror
    · cases herror
  value value hvalue := by
    unfold requestViaChannel at hvalue
    split at hvalue
    · cases hvalue
    · next line body hpoint =>
      split at hvalue
      · cases hvalue
      · next hrefusal =>
        cases hvalue
        rcases h.answered hpoint with ⟨headLine, hreplayed, rfl, rfl, hdone⟩ |
          ⟨hnone, status, headLine, hown, rfl⟩
        · exact ⟨headLine, hreplayed, hdone, (in_range hrefusal).1, (in_range hrefusal).2, rfl⟩
        · rcases own_refused hstatus hown with ⟨-, hsome⟩ | ⟨injection, -, htold⟩
          · rw [hrefusal] at hsome
            cases hsome
          · rw [hrefusal] at htold
            rcases htold with htold | htold <;> cases htold
    · cases hvalue

/-- **An error that is no doubt says what became of a mutation.** In every state of every run. -/
theorem outcome_honest (caller : Caller) (req : Request)
    (readHead : List UInt8 → Option ResponseHead) (env : Env) (hstatus : ReadsOwn env caller)
    (es : List Tunnel.Event) :
    Run.Along (Tunnel.step req readHead env) (Honest env caller req) (Tunnel.start req) es :=
  Run.along_of_invariant (fun _ _ _ hbook _ hz => Book.step hbook hz)
    (fun _ hbook => Book.honest hbook hstatus) ⟨inv_start req env, rfl, busyUnsent_start req⟩
    (Run.Meets.of_forall (fun _ _ => trivial) _ _)

end Books

/-! ### A response that would be too large -/

namespace Sample

def bytes (text : String) : List UInt8 := text.toList.map fun c => .ofNat c.toNat

def text (bytes : List UInt8) : String := .ofList (bytes.map fun b => .ofNat b.toNat)

/-- `JSON.stringify` of a head whose names and values need no escape. -/
def head (status : ℕ) (headers : List (String × HeaderValue)) : List UInt8 :=
  let entry : String × HeaderValue → String := fun e => "\"" ++ e.1 ++ "\":\"" ++
    (match e.2 with
      | .one value => value
      | .many values => ",".intercalate values) ++ "\""
  bytes "\x7b\"status\":" ++ bytes (toString status) ++ bytes ",\"headers\":\x7b" ++
    bytes (",".intercalate (headers.map entry)) ++ bytes "\x7d\x7d"

def path : String := "/internal/sessions"

def env : Env where
  reader := ⟨fun _ => none, fun _ => some ⟨some path, none⟩⟩
  handlers := ⟨fun _ => none, fun _ => none, fun _ => none, fun _ => false⟩
  parse _ := some ⟨"POST", some path, []⟩
  toUpperCase := id
  toLowerCase := id
  decodeURIComponent := some
  stringify status headers := ⟨(head status headers).filter (· ≠ newline), by simp⟩
  message text := bytes (messageJson text)
  number _ := some 9000000
  authToken := ""
  peer := "peer"

def caller : Caller where
  hostId := "h"
  method := "POST"
  terminal := none
  confirmed _ := none
  status line := ((line.drop 10).takeWhile fun b => 48 ≤ b ∧ b ≤ 57).foldl
    (fun n b => 10 * n + (b.toNat - 48)) 0
  text := text

def req : Request where
  streaming := false
  path := path
  headLine := ⟨bytes
    "\x7b\"method\":\"POST\",\"path\":\"/internal/sessions\",\"headers\":\x7b\x7d\x7d",
    by decide⟩
  body := .bytes (bytes "\x7b\x7d")
  declaredBodyBytes := none
  timeoutMs := 1000
  idleTimeoutMs := none
  maxResponseBytes := none
  signalAborted := false

def step : Sys → Tunnel.Event → Option Sys :=
  Tunnel.step req (fun _ => some ⟨true, false, none⟩) env

/-- The request is sent and heard, but for its EOF. -/
def before : List Tunnel.Event :=
  .primary .openResolved :: List.replicate 5 (.primary (.proceed false)) ++ [.up, .up]

/-- The route answers with nine million bytes, and the agent for the route. -/
def behind : List Tunnel.Event :=
  .agent (.responded 200 [("content-length", .one "9000000")]) ::
    List.replicate 4 (.agent (.proceed false)) ++
      [.down false, .down false, .down false, .primary (.proceed false)]

def begun : Sys := (Run.play step (Tunnel.start req) before).getD (Tunnel.start req)

/-- The route is called. -/
def called : Sys :=
  { begun with
    agent := { begun.agent with
      channel := heard env begun.agent.channel .eof
      injections := [⟨"POST", path, [(authHeader, "")], "channel:peer", bytes "\x7b\x7d"⟩]
      point := .injecting "POST" path }
    heardUp := 3 }

theorem readsOwn : ReadsOwn env caller := by
  intro status hmem headers
  simp only [List.mem_cons, List.not_mem_nil, or_false] at hmem
  rcases hmem with rfl | rfl | rfl | rfl
  all_goals
    simp only [env, head, List.filter_append]
    rfl

theorem segments : path.splitOn "/" = ["", "internal", "sessions"] := by
  unfold path String.splitOn
  rw [if_neg (by decide), String.splitOnAux, if_neg (by decide), if_pos (by decide),
    if_pos (by decide)]
  iterate 8 rw [String.splitOnAux, if_neg (by decide), if_neg (by decide)]
  rw [String.splitOnAux, if_neg (by decide), if_pos (by decide), if_pos (by decide)]
  iterate 8 rw [String.splitOnAux, if_neg (by decide), if_neg (by decide)]
  rw [String.splitOnAux, if_pos (by decide)]
  decide

theorem path_carried : validateAndDecodePath env path = some path := by
  have hpathname : pathname path = path := by decide
  have hdecoded : ["", "internal", "sessions"].mapM (decodeSegment env) =
      some ["", "internal", "sessions"] := by decide
  have hjoined : "/".intercalate ["", "internal", "sessions"] = path := by decide
  have hinternal : path.startsWith "/internal/" = true :=
    String.startsWith_string_iff.2 (by decide)
  have hws : path.startsWith "/internal/ws/" = false :=
    String.startsWith_string_eq_false_iff.2 (by decide)
  have hsafe : hasUnsafeChar path = false := by decide
  simp [validateAndDecodePath, hpathname, segments, hdecoded, hjoined, hinternal, hws, hsafe]

theorem replayed (headLine : Option (List UInt8)) (body : List UInt8) :
    replay env headLine body =
      .ok ⟨"POST", path, [(authHeader, "")], "channel:peer", body⟩ := by
  have hmethod : env.toUpperCase "POST" ∈
      if (some path).any isPreviewPath then previewReplayMethods else replayMethods := by
    decide
  unfold replay
  rw [show env.parse _ = some ⟨"POST", some path, []⟩ from rfl]
  dsimp only
  rw [if_neg (not_not.2 hmethod), path_carried]
  rfl

theorem step_eof : step begun .up = some called := by
  have hframe : begun.primary.frames[begun.heardUp]? = some .eof := by decide
  have hbefore : answer begun.agent.channel = none := by decide
  have hafter : answer (heard env begun.agent.channel .eof) =
      some (.dispatched (some req.headLine.bytes) (bytes "\x7b\x7d")) := by decide
  have hhear : begun.agent.hear env .eof = called.agent := by
    unfold Agent.hear
    dsimp only
    rw [hbefore, hafter]
    dsimp only [Agent.dispatch]
    rw [replayed]
    rfl
  unfold step Tunnel.step
  dsimp only
  rw [if_neg (by decide), hframe]
  dsimp only
  rw [hhear]
  rfl

end Sample

/-- The route has run, and the caller of a mutation is told 413. -/
theorem outcome_of_large_response :
    Run.Along Sample.step (Honest Sample.env Sample.caller Sample.req) (Tunnel.start Sample.req)
        (Sample.before ++ .up :: Sample.behind) ∧
      Sample.caller.idempotent Sample.req = false ∧
      (Run.play Sample.step (Tunnel.start Sample.req) (Sample.before ++ .up :: Sample.behind)).map
        (fun y => (requestViaChannel Sample.caller Sample.req y.primary,
          y.agent.injections.length)) =
      some (some (.error (.request 413 (messageJson
        "response exceeds the 8 MiB limit of the outbound channel to this host"))), 1) := by
  refine ⟨outcome_honest _ _ _ _ Sample.readsOwn _, by decide, ?_⟩
  have hbegun : Run.play Sample.step (Tunnel.start Sample.req) Sample.before = some Sample.begun :=
    rfl
  rw [Run.play_append, hbegun]
  show (Run.play Sample.step Sample.begun (.up :: Sample.behind)).map _ = _
  rw [Run.play, Sample.step_eof]
  rfl

end Outcome
end Mullion
