import Mullion.Stream.Serve

/-!
# One exchange over a channel

`exchange` (`agent-channel-tunnel.ts`) opens a channel to an agent, sends the head and the
body of a request and waits for the response. Its timer and its abort signal only close the
channel; the promise is settled by what the listeners of the channel make of that.

* `Failure`, `Response` — how an exchange ends;
* `State`, `Point` — the variables, and the `await` at which the function stands;
* `onData`, `onEof`, `closeChannel` — the listeners of the channel;
* `proceed` — the function goes on from an `await` that has something to go on with;
* `step` — one event.
-/

namespace Mullion
namespace Exchange

open Mullion.Stream Mux Serve

/-! ## How an exchange ends -/

inductive Phase
  | beforeSend
  | afterSend
  deriving DecidableEq, Repr

/-- The texts of `fail`, and of `ChannelBusyError`. -/
inductive Reason
  | timedOut
  | aborted
  | slotWait
  | openFailed (message : String)
  | bodyTooLarge
  | bodyFailed
  | responseTooLarge
  | malformedHead
  | endedBeforeHead
  | lost
  | lostWhileSending
  deriving DecidableEq, Repr

inductive Failure
  /-- `ChannelTransportError` -/
  | transport (reason : Reason) (phase : Phase) (tooLarge : Bool)
  /-- `ChannelBusyError` -/
  | busy (reason : Reason)
  deriving DecidableEq, Repr

/-- `ChannelResponse` with its head line, or the head of a `ChannelStreamResponse`. -/
inductive Response
  | whole (headLine body : List UInt8)
  | stream (headLine : List UInt8)
  deriving DecidableEq, Repr

/-- The promise `response`. -/
inductive Reply
  | pending
  | resolved (response : Response)
  | rejected (failure : Failure)
  deriving DecidableEq, Repr

/-! ## The request -/

inductive Body
  | none
  | bytes (data : List UInt8)
  | stream
  deriving DecidableEq, Repr

/-- What `JSON.stringify` makes of a head: no line break is in it. -/
structure Line where
  bytes : List UInt8
  unbroken : newline ∉ bytes

/-- What `exchange` looks at of its request. -/
structure Request where
  streaming : Bool
  path : String
  headLine : Line
  body : Body
  declaredBodyBytes : Option ℕ
  timeoutMs : ℕ
  idleTimeoutMs : Option ℕ
  maxResponseBytes : Option ℕ
  signalAborted : Bool

def isDownloadPath (path : String) : Bool := pathname path = "/internal/project-files/download"

/-- `AGENT_CHANNEL_DEFAULT_MAX_RESPONSE_BYTES`. -/
def defaultMaxResponseBytes : ℕ := 8 * 1024 * 1024

def maxResponseBodyBytesForPath (path : String) : ℕ :=
  if isDownloadPath path || isPreviewPath path then Serve.maxResponseBytes
  else defaultMaxResponseBytes

namespace Request

def requestCap (req : Request) : ℕ := maxRequestBodyBytesForPath req.path

/-- `maxResponseBytes` of `exchange`. -/
def responseCap (req : Request) : ℕ :=
  req.maxResponseBytes.getD (maxResponseBodyBytesForPath req.path)

def limitMs (req : Request) : ℕ := req.idleTimeoutMs.getD req.timeoutMs

/-- Why no channel is opened at all. -/
def refusal (req : Request) : Option Failure :=
  if req.signalAborted then some (.transport .aborted .beforeSend false)
  else
    let length := match req.body with
      | .bytes data => data.length
      | _ => 0
    if req.requestCap < length ∨ req.declaredBodyBytes.any (req.requestCap < ·) then
      some (.transport .bodyTooLarge .beforeSend true)
    else none

end Request

/-- `formatLimit`. -/
def formatLimit (bytes : ℕ) : String :=
  if 1024 * 1024 ≤ bytes then
    toString ((bytes + 512 * 1024) / (1024 * 1024)) ++ " MiB"
  else toString bytes ++ " bytes"

def requestTooLargeMessage (cap : ℕ) : String :=
  "request body exceeds the " ++ formatLimit cap ++ " limit of the outbound channel to this host"

def responseTooLargeMessage (cap : ℕ) : String :=
  "response exceeds the " ++ formatLimit cap ++ " limit of the outbound channel to this host"

/-- The message of an error; `terminal` is why the primary ended the channel. -/
def Reason.message (req : Request) (terminal : Option String) : Reason → String
  | .timedOut => "timed out after " ++ toString req.limitMs ++ " ms" ++
      (if req.idleTimeoutMs.any (· ≠ 0) then " idle" else "")
  | .aborted => "aborted"
  | .slotWait => "timed out after 5000 ms waiting for free channel slot"
  | .openFailed message => message
  | .bodyTooLarge => requestTooLargeMessage req.requestCap
  | .bodyFailed => "request body stream failed"
  | .responseTooLarge => responseTooLargeMessage req.responseCap
  | .malformedHead => "malformed response head"
  | .endedBeforeHead => "channel ended before a response head"
  | .lost => match terminal with
    | some why => "outbound channel closed: " ++ why
    | none => "outbound channel lost before the response completed"
  | .lostWhileSending => "outbound channel lost while sending"

/-- What the listeners read of a response head: whether its status is an integer, whether it
has no body (`responseHasNoBody`), and its content length, if that is a finite number. -/
structure ResponseHead where
  validStatus : Bool
  noBody : Bool
  contentLength : Option ℚ

/-! ## The state -/

/-- What is sent behind which the function goes on. -/
inductive Part
  | head
  | bytes
  | piece
  deriving DecidableEq, Repr

/-- What the iterator of a streamed body yields. -/
inductive Piece
  | chunk (data : List UInt8)
  | ended
  | failed
  deriving DecidableEq, Repr

/-- What is sent on the channel. -/
inductive Frame
  | data (chunk : List UInt8)
  | eof
  deriving DecidableEq, Repr

/-- Where `exchange` stands. -/
inductive Point
  /-- the promise of the channel is pending -/
  | opening
  /-- it is settled, and the function has not gone on yet -/
  | opened (failure : Option Failure)
  /-- `write` has these bytes to go -/
  | sending (rest : List UInt8) (part : Part)
  /-- `write` waits for the window; `woken` once its waiter is settled -/
  | blocked (rest : List UInt8) (part : Part) (woken : Option Bool)
  /-- `for await`, until there is a piece -/
  | nextPiece (piece : Option Piece)
  /-- `await response`, behind the EOF or after a failure of `write` -/
  | awaiting (afterFailure : Bool)
  | done (result : Except Failure Response)

structure State where
  /-- the timer of the budget is armed -/
  timer : Bool
  /-- the backstop of the slot wait is armed -/
  slotTimer : Bool
  timedOut : Bool
  aborted : Bool
  closed : Bool
  window : ℕ
  /-- the listeners of the channel are attached -/
  listening : Bool
  pendingData : List (List UInt8)
  pendingEof : Bool
  parser : Parser
  /-- the response was handed over as a stream -/
  out : Bool
  eofSeen : Bool
  bodyBytes : ℕ
  reply : Reply
  /-- the bytes of the streamed body so far; `sent` is their number -/
  taken : List UInt8
  /-- the streamed body has ended -/
  ended : Bool
  /-- what was sent on the channel -/
  frames : List Frame
  point : Point

namespace State

/-- Before the channel is opened, behind the checks that come first. -/
def start (req : Request) : State :=
  let point : Point := match req.refusal with
    | some failure => .done (.error failure)
    | none => .opening
  { timer := true, slotTimer := false, timedOut := false, aborted := false, closed := false,
    window := channelWindowBytes, listening := false, pendingData := [], pendingEof := false,
    parser := .initial, out := false, eofSeen := false, bodyBytes := 0, reply := .pending,
    taken := [], ended := false, frames := [], point }

/-- The timer or the signal has fired. -/
def fired (s : State) : Bool := s.timedOut || s.aborted

/-- `lostMessage`. -/
def lostReason (s : State) : Reason :=
  if s.timedOut then .timedOut else if s.aborted then .aborted else .lost

/-- `settle`. -/
def settle (s : State) (reply : Reply) : State :=
  if s.reply = .pending then { s with reply } else s

/-- The listener of `onClose` that `response` attaches: a stream is destroyed instead. -/
def responseClosed (s : State) : State :=
  if s.out then s else s.settle (.rejected (.transport s.lostReason .afterSend false))

/-- The listener of `onClose` that `makeWriter` attaches. -/
def wake (s : State) (ok : Bool) : State :=
  match s.point with
  | .blocked rest part none => { s with point := .blocked rest part (some ok) }
  | _ => s

/-- The channel is closed, from either side: it tells those who listen. -/
def closeChannel (s : State) : State :=
  if s.closed then s
  else
    let s := { s with closed := true, pendingData := [] }
    if s.listening then s.responseClosed.wake false else s

/-- `touch`. -/
def touch (req : Request) (s : State) : State :=
  if req.idleTimeoutMs.isSome then { s with timer := true } else s

/-- `settle` with an error, and `ch.close()`. -/
def refuse (s : State) (reason : Reason) (tooLarge : Bool) : State :=
  (s.settle (.rejected (.transport reason .afterSend tooLarge))).closeChannel

end State

open State

variable (req : Request) (readHead : List UInt8 → Option ResponseHead)

/-- `declaredLength`. -/
def declaredLength (headLine : List UInt8) : ℚ :=
  match readHead headLine with
  | none => 0
  | some head => if head.noBody then 0 else head.contentLength.getD 0

/-- The head has the shape of a response. -/
def validHead (headLine : List UInt8) : Bool := (readHead headLine).any (·.validStatus)

/-- `startStream`. -/
def startStream (s : State) (headLine : List UInt8) : State :=
  if validHead readHead headLine then
    { s with out := true, bodyBytes := s.parser.body.length }.settle
      (.resolved (.stream headLine))
  else s.refuse .malformedHead false

/-- The listener of `onData`; `torn` when acknowledging the chunk finds the send buffer of the
connection over its limit, which ends the connection. -/
def onData (s : State) (chunk : List UInt8) (torn : Bool) : State :=
  let s := s.touch req
  if s.out then
    let s := { s with bodyBytes := s.bodyBytes + chunk.length }
    if req.responseCap < s.bodyBytes ∨ torn then s.closeChannel else s
  else
    let s := if torn then s.closeChannel else s
    let pushed := s.parser.push chunk req.responseCap
    let s := { s with parser := pushed.1 }
    if pushed.2 = false then s.refuse .responseTooLarge true
    else match pushed.1.headLine with
      | none => s
      | some headLine =>
        if (req.responseCap : ℚ) < declaredLength readHead headLine then
          s.refuse .responseTooLarge true
        else if req.streaming then startStream readHead s headLine
        else s

/-- The listener of `onEof`. -/
def onEof (s : State) : State :=
  if s.out then { s with eofSeen := true }
  else match s.parser.headLine with
    | none => s.settle (.rejected (.transport .endedBeforeHead .afterSend false))
    | some headLine =>
      if validHead readHead headLine then s.settle (.resolved (.whole headLine s.parser.body))
      else s.settle (.rejected (.transport .malformedHead .afterSend false))

/-! ## Going on -/

/-- The chunks that have arrived before are heard. -/
def hearPending (s : State) (chunks : List (List UInt8)) : State :=
  chunks.foldl (fun s chunk => onData req readHead s chunk false) s

/-- The listeners are attached. `onData` and `onEof` hear at once what has arrived before, while
nobody listens to the close yet, and a channel that is closed already never tells. -/
def attach (s : State) (torn : Bool) : State :=
  let heard := hearPending req readHead { s with pendingData := [] } s.pendingData
  let heard := if torn ∧ s.pendingData ≠ [] then heard.closeChannel else heard
  let heard := if heard.pendingEof then onEof readHead { heard with pendingEof := false } else heard
  { heard with listening := true }

/-- `release`, and the end of the function. -/
def finish (s : State) (result : Except Failure Response) : State :=
  { s with timer := false, slotTimer := false, point := .done result }

/-- The whole body is sent: `ch.eof()`, which may find the send buffer full. -/
def sendEof (s : State) (torn : Bool) : State :=
  let s := if s.closed then s
    else if torn then s.closeChannel
    else { s with frames := s.frames ++ [.eof] }
  { s with point := .awaiting false }

/-- `write` is over. -/
def written (s : State) (part : Part) (torn : Bool) : State :=
  match part with
  | .head =>
    let s := s.touch req
    match req.body with
    | .none => sendEof s torn
    | .bytes data =>
      if data ≠ [] then { s with point := .sending data .bytes } else sendEof s torn
    | .stream => { s with point := .nextPiece none }
  | .bytes => sendEof s torn
  | .piece => { s.touch req with point := .nextPiece none }

/-- `WRITE_CHUNK_BYTES`. -/
def writeChunkBytes : ℕ := 32 * 1024

/-- One round of the loop of `write`. -/
def writeRound (s : State) (rest : List UInt8) (part : Part) (torn : Bool) : State :=
  if rest = [] then written req s part torn
  else if s.closed then { s with point := .awaiting true }
  else
    let n := min (min writeChunkBytes rest.length) s.window
    if n = 0 then { s with point := .blocked rest part none }
    else
      let s := { s with window := s.window - n, point := .sending (rest.drop n) part }
      if torn then s.closeChannel else { s with frames := s.frames ++ [.data (rest.take n)] }

/-- The body could not be sent in full. -/
def bodyFailure (s : State) (reason : Reason) (tooLarge : Bool) : State :=
  finish s.closeChannel (.error (.transport reason .beforeSend tooLarge))

/-- The `await` of `response` is over. -/
def settled (s : State) (afterFailure : Bool) : Option State :=
  match s.reply with
  | .pending => none
  | .resolved (.stream headLine) => some { s with point := .done (.ok (.stream headLine)) }
  | .resolved response => some (finish s.closeChannel (.ok response))
  | .rejected failure =>
    let failure := if afterFailure then
        .transport (if s.timedOut then .timedOut else if s.aborted then .aborted
          else .lostWhileSending) .afterSend false
      else failure
    some (finish s.closeChannel (.error failure))

/-- `exchange` goes on, if its `await` is over; `torn` when a send finds the send buffer over its
limit. -/
def proceed (s : State) (torn : Bool) : Option State :=
  match s.point with
  | .opening | .done _ => none
  | .opened (some failure) => some (finish s (.error failure))
  | .opened none =>
    if s.fired then
      some (finish s.closeChannel (.error (.transport
        (if s.timedOut then .timedOut else .aborted) .beforeSend false)))
    else
      some { attach req readHead s torn with
        point := .sending (req.headLine.bytes ++ [newline]) .head }
  | .sending rest part => some (writeRound req s rest part torn)
  | .blocked _ _ none => none
  | .blocked rest part (some true) => some { s with point := .sending rest part }
  | .blocked _ _ (some false) => some { s with point := .awaiting true }
  | .nextPiece none => none
  | .nextPiece (some (.chunk data)) =>
    let s := { s with taken := s.taken ++ data }
    if req.requestCap < s.taken.length then some (bodyFailure s .bodyTooLarge true)
    else some { s with point := .sending data .piece }
  | .nextPiece (some .ended) => some (sendEof { s with ended := true } torn)
  | .nextPiece (some .failed) => some (bodyFailure s .bodyFailed false)
  | .awaiting afterFailure => settled s afterFailure

/-! ## Events -/

inductive Event
  /-- `onWaiting`: the mux has queued the call -/
  | waiting
  | slotAcquired
  | openResolved
  | openRejected (busy : Bool) (message : String)
  /-- `onTimeout` -/
  | timeout
  /-- `onSlotWaitBackstop` -/
  | slotTimeout
  /-- `onAbort` -/
  | abort
  | data (chunk : List UInt8) (torn : Bool)
  | eof
  /-- the agent closes the channel, or the connection ends -/
  | closed
  | windowAdjust (bytes : ℕ)
  /-- the request body has a piece, ends or fails -/
  | piece (piece : Piece)
  /-- the function goes on -/
  | proceed (torn : Bool)

/-- The exchange is over, and does not live on in a stream. -/
def Point.released : Point → Bool
  | .done (.ok (.stream _)) => false
  | .done _ => true
  | _ => false

/-- The function has its channel, and its listeners are attached. -/
def Point.running : Point → Bool
  | .sending _ _ | .blocked _ _ _ | .nextPiece _ | .awaiting _ => true
  | _ => false

/-- There is a channel, whether the function has gone on with it or not. -/
def Point.hasChannel : Point → Bool
  | .opening | .opened (some _) => false
  | point => !point.released

/-- `abortOpen`, which does nothing once the promise is settled. -/
def abortOpen (s : State) (failure : Failure) : State :=
  match s.point with
  | .opening => { s with point := .opened (some failure) }
  | _ => s

/-- What the timer and the signal do: close the channel, if the function has one, and give up
the opening of one. -/
def fire (s : State) (reason : Reason) : State :=
  abortOpen (if s.listening then s.closeChannel else s) (.transport reason .beforeSend false)

def step (s : State) : Event → Option State
  | .waiting =>
    match s.point with
    | .opening => some { s with timer := false, slotTimer := true }
    | _ => none
  | .slotAcquired =>
    match s.point with
    | .opening => some { s with slotTimer := false, timer := true }
    | _ => some { s with slotTimer := false }
  | .openResolved =>
    match s.point with
    | .opening => some { s with point := .opened none }
    | _ => some s
  | .openRejected busy message =>
    match s.point with
    | .opening =>
      some { s with point := .opened (some (if busy then .busy (.openFailed message)
        else .transport (.openFailed message) .beforeSend false)) }
    | _ => some s
  | .timeout =>
    if s.timer then some (fire { s with timer := false, timedOut := true } .timedOut) else none
  | .slotTimeout =>
    if s.slotTimer then some (abortOpen { s with slotTimer := false } (.busy .slotWait)) else none
  | .abort =>
    if s.point.released ∨ s.aborted then none
    else some (fire { s with aborted := true } .aborted)
  | .data chunk torn =>
    if s.point.hasChannel ∧ ¬ s.closed then
      if s.listening then some (onData req readHead s chunk torn)
      else if channelWindowBytes < s.pendingData.flatten.length + chunk.length then
        some s.closeChannel
      else some { s with pendingData := s.pendingData ++ [chunk] }
    else none
  | .eof =>
    if s.point.hasChannel ∧ ¬ s.closed then
      if s.listening then some (onEof readHead s) else some { s with pendingEof := true }
    else none
  | .closed => if s.point.hasChannel then some s.closeChannel else none
  | .windowAdjust bytes =>
    if s.point.hasChannel ∧ ¬ s.closed then
      some ({ s with window := min (s.window + bytes) channelWindowBytes }.wake true)
    else none
  | .piece piece =>
    match s.point with
    | .nextPiece none => some { s with point := .nextPiece (some piece) }
    | _ => none
  | .proceed torn => proceed req readHead s torn

end Exchange
end Mullion
