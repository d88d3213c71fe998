import Mullion.Stream.Exchange

/-!
# The agent's side of an exchange

`createRequestSink` (`agent-channel-tunnel.ts`) replays the request of a channel into the
agent's own routes and writes the response back.

* `Injection`, `replay` — what `app.inject` is called with, or why the request is refused;
* `Agent`, `Point` — the variables, and the `await` at which the handler of the EOF stands;
* `Agent.hear` — the listeners of the channel;
* `Agent.step` — one event.
-/

namespace Mullion
namespace Replay

open Mullion.Stream Serve Exchange
open Mux (channelWindowBytes)

/-! ## Requests -/

/-- What `JSON.parse` makes of a request head: `String(head.method)`, the path, if it is a
string, and the headers whose values are strings. -/
structure RequestHead where
  method : String
  path : Option String
  headers : List (String × String)

/-- A header of a response. -/
inductive HeaderValue
  | one (value : String)
  | many (values : List String)
  deriving DecidableEq, Repr

/-- What the handler uses of JavaScript and of its surroundings. -/
structure Env where
  reader : Reader
  handlers : Handlers
  parse : List UInt8 → Option RequestHead
  toUpperCase : String → String
  toLowerCase : String → String
  /-- `none` where it throws -/
  decodeURIComponent : String → Option String
  /-- `JSON.stringify` of `ChannelResponseHead` -/
  stringify : ℕ → List (String × HeaderValue) → Line
  /-- `JSON.stringify` of a message -/
  message : String → List UInt8
  /-- `Number()`, if it is finite -/
  number : HeaderValue → Option ℚ
  authToken : String
  peer : String

/-- The arguments of `app.inject`. -/
structure Injection where
  method : String
  url : String
  headers : List (String × String)
  remoteAddress : String
  payload : List UInt8
  deriving DecidableEq, Repr

def forwardedHeaders : List String := ["content-type", "accept"]

def replayMethods : List String := ["GET", "POST", "PUT", "PATCH", "DELETE"]

def previewReplayMethods : List String := replayMethods ++ ["HEAD", "OPTIONS"]

def previewDroppedRequestHeaders : List String :=
  ["host", "content-length", "transfer-encoding", "connection", "keep-alive", "upgrade",
    "authorization", "x-request-signature", "x-request-timestamp", "x-request-nonce"]

def droppedResponseHeaders : List String := ["connection", "keep-alive", "transfer-encoding"]

/-- `AGENT_CHANNEL_AUTH_HEADER`. -/
def authHeader : String := "x-mullion-channel-auth"

/-- `RESPONSE_TOO_LARGE_HEADER`. -/
def responseTooLargeHeader : String := "x-mullion-response-too-large"

/-- `object[key] = value`. -/
def assign {α : Type*} (object : List (String × α)) (key : String) (value : α) :
    List (String × α) :=
  if object.any (·.1 = key) then object.map fun e => if e.1 = key then (key, value) else e
  else object ++ [(key, value)]

/-- `hasUnsafeChar`. -/
def hasUnsafeChar (target : String) : Bool :=
  target.toList.any fun c => c.toNat ≤ 0x20 || c.toNat = 0x7f || c.toNat = 0x5c

variable (env : Env)

/-- One segment of `validateAndDecodePath`. -/
def decodeSegment (segment : String) : Option String :=
  match env.decodeURIComponent segment with
  | none => none
  | some decoded =>
    if '%' ∈ decoded.toList ∨ decoded = "." ∨ decoded = ".." then none else some decoded

def validateAndDecodePath (target : String) : Option String :=
  match ((pathname target).splitOn "/").mapM (decodeSegment env) with
  | none => none
  | some decodedSegments =>
    let decodedPath := "/".intercalate decodedSegments
    if ¬ decodedPath.startsWith "/internal/" then none
    else if decodedPath.startsWith "/internal/ws/" then none
    else if hasUnsafeChar target || hasUnsafeChar decodedPath then none
    else some decodedPath

/-- The header is passed on. -/
def forwards (preview : Bool) (key : String) : Bool :=
  if preview then key ∉ previewDroppedRequestHeaders && !key.startsWith "x-mullion-"
  else key ∈ forwardedHeaders || key.startsWith "x-mullion-"

/-- The headers of the replay. -/
def replayHeaders (preview : Bool) (headers : List (String × String)) : List (String × String) :=
  let passed := headers.foldl (fun object e =>
    let key := env.toLowerCase e.1
    if forwards preview key then assign object key e.2 else object) []
  assign passed authHeader env.authToken

/-- What `onEof` makes of a head line and a body: the status and the message of a refusal, or
the arguments of `app.inject`. -/
def replay (headLine : Option (List UInt8)) (body : List UInt8) :
    Except (ℕ × String) Injection :=
  match env.parse (headLine.getD []) with
  | none => .error (400, "malformed request head")
  | some head =>
    let method := env.toUpperCase head.method
    let preview := head.path.any isPreviewPath
    if method ∉ (if preview then previewReplayMethods else replayMethods) then
      .error (405, "method not allowed")
    else match head.path with
      | none => .error (400, "path not carried by the channel")
      | some path =>
        if (validateAndDecodePath env path).isNone then
          .error (400, "path not carried by the channel")
        else .ok {
          method := method
          url := path
          headers := replayHeaders env preview head.headers
          remoteAddress := "channel:" ++ env.peer
          payload := body }

/-! ## Responses -/

/-- `responseHasNoBody`. -/
def responseHasNoBody (method : String) (status : ℕ) : Bool :=
  env.toUpperCase method = "HEAD" || (100 ≤ status && status < 200) || status = 204 ||
    status = 304

/-- The headers of a response that are passed on. -/
def outHeaders (headers : List (String × HeaderValue)) : List (String × HeaderValue) :=
  headers.foldl (fun object e =>
    let key := env.toLowerCase e.1
    if key ∈ droppedResponseHeaders then object else assign object key e.2) []

/-- The declared length of a response, if it is a finite number. -/
def declared (headers : List (String × HeaderValue)) : Option ℚ :=
  (headers.find? (·.1 = "content-length")).bind fun e => env.number e.2

/-! ## The agent -/

/-- What comes behind a `write`. -/
inductive Next
  /-- `respond` writes this body -/
  | refusalBody (body : List UInt8)
  /-- `respond` ends -/
  | refusalEnd
  /-- the head of the route's response is written -/
  | head (bodyless : Bool) (cap : ℕ)
  /-- a piece of its body is written -/
  | piece (cap : ℕ)
  deriving DecidableEq, Repr

/-- Where the handler stands. -/
inductive Point
  /-- the request is not complete -/
  | reading
  /-- `write` has these bytes to go -/
  | writing (rest : List UInt8) (next : Next)
  /-- `app.inject` has not answered -/
  | injecting (method path : String)
  /-- `for await` over the body of the response -/
  | nextPiece (cap : ℕ)
  | finished
  deriving DecidableEq, Repr

/-- What the request of a channel has come to, if it has. -/
def answer (channel : Channel) : Option Answer :=
  match channel.sink with
  | some (.request sink) => sink.dispatched
  | _ => none

/-- The listeners of `serveChannel`. -/
def heard (channel : Channel) : Frame → Channel
  | .data chunk => channel.data env.reader env.handlers chunk
  | .eof => channel.eof env.reader

structure Agent where
  channel : Channel
  window : ℕ
  point : Point
  /-- the calls of `app.inject` -/
  injections : List Injection
  /-- what was sent on the channel -/
  frames : List Frame
  /-- the head line of the route's response, once it is written -/
  replayed : Option Line
  /-- the bytes that the route has produced; `sent` is their number -/
  produced : List UInt8
  /-- the route's response has ended, or has no body -/
  complete : Bool

namespace Agent

def start : Agent where
  channel := .waiting []
  window := channelWindowBytes
  point := .reading
  injections := []
  frames := []
  replayed := none
  produced := []
  complete := false

/-- `channel.close()`, or its end from elsewhere. -/
def close (a : Agent) : Agent := { a with channel := { a.channel with closed := true } }

/-- The handler is over, and closes the channel. -/
def finish (a : Agent) : Agent := { a.close with point := .finished }

/-- `respond`. -/
def respond (a : Agent) (status : ℕ) (headers : List (String × HeaderValue))
    (body : List UInt8) : Agent :=
  let line := (env.stringify status headers).bytes
  { a with point := .writing (line ++ [newline]) (.refusalBody body) }

/-- `refuse`. -/
def refuse (a : Agent) (status : ℕ) (message : String) : Agent :=
  a.respond env status [("content-type", .one "application/json")] (env.message message)

/-- The request is dispatched. -/
def dispatch (a : Agent) : Answer → Agent
  | .tooLarge => a.refuse env 413 "request too large"
  | .dispatched headLine body =>
    match replay env headLine body with
    | .error (status, message) => a.refuse env status message
    | .ok injection =>
      -- the channel may have gone by now
      if a.channel.closed then a.finish
      else { a with
        injections := a.injections ++ [injection]
        point := .injecting injection.method injection.url }

/-- The listeners hear a frame; a request that it completes, or refuses, is dispatched. -/
def hear (a : Agent) (frame : Frame) : Agent :=
  let channel := heard env a.channel frame
  match answer a.channel, answer channel with
  | none, some answer => { a with channel }.dispatch env answer
  | _, _ => { a with channel }

/-- `channel.eof()`, and the end. -/
def sendEof (a : Agent) (torn : Bool) : Agent :=
  if a.channel.closed ∨ torn then a.finish
  else { a with frames := a.frames ++ [Frame.eof] }.finish

/-- `write` is over. -/
def written (a : Agent) (next : Next) (torn : Bool) : Agent :=
  match next with
  | .refusalBody body => { a with point := .writing body .refusalEnd }
  | .refusalEnd => a.sendEof torn
  | .head bodyless cap =>
    if bodyless then { a with complete := true }.sendEof torn
    else { a with point := .nextPiece cap }
  | .piece cap => { a with point := .nextPiece cap }

/-- One round of the loop of `write`; a failure of it ends the handler. -/
def writeRound (a : Agent) (rest : List UInt8) (next : Next) (torn : Bool) : Option Agent :=
  if rest = [] then some (a.written next torn)
  else if a.channel.closed then some a.finish
  else
    let n := min (min Exchange.writeChunkBytes rest.length) a.window
    if n = 0 then none
    else
      let a := { a with window := a.window - n, point := .writing (rest.drop n) next }
      some (if torn then a.close else { a with frames := a.frames ++ [.data (rest.take n)] })

/-- `app.inject` has answered. -/
def responded (a : Agent) (method path : String) (status : ℕ)
    (headers : List (String × HeaderValue)) : Agent :=
  let headers := outHeaders env headers
  let cap := maxResponseBodyBytesForPath path
  let bodyless := responseHasNoBody env method status
  if a.channel.closed then a.finish
  else if !bodyless && (declared env headers).any ((cap : ℚ) < ·) then
    a.respond env 413
      [("content-type", .one "application/json"), (responseTooLargeHeader, .one "1")]
      (env.message (responseTooLargeMessage cap))
  else
    let line := env.stringify status headers
    { a with
      replayed := some line
      point := .writing (line.bytes ++ [newline]) (.head bodyless cap) }

end Agent

inductive Event
  /-- `app.inject` resolves -/
  | responded (status : ℕ) (headers : List (String × HeaderValue))
  /-- `app.inject` rejects -/
  | rejected
  | piece (data : List UInt8)
  /-- the body of the response has ended -/
  | ended (torn : Bool)
  /-- the body of the response has failed -/
  | failed
  /-- the primary closes the channel, the connection ends, or the request took too long -/
  | closed
  | windowAdjust (bytes : ℕ)
  /-- the handler goes on -/
  | proceed (torn : Bool)

/-- One event at the agent, but for what it hears. -/
def Agent.step (a : Agent) : Event → Option Agent
  | .responded status headers =>
    match a.point with
    | .injecting method path => some (a.responded env method path status headers)
    | _ => none
  | .rejected =>
    match a.point with
    | .injecting _ _ => some (a.refuse env 500 "agent failed to handle the request")
    | _ => none
  | .piece data =>
    match a.point with
    | .nextPiece cap =>
      let a := { a with produced := a.produced ++ data }
      some (if cap < a.produced.length then a.finish
        else { a with point := .writing data (.piece cap) })
    | _ => none
  | .ended torn =>
    match a.point with
    | .nextPiece _ => some ({ a with complete := true }.sendEof torn)
    | _ => none
  | .failed =>
    match a.point with
    | .nextPiece _ => some a.finish
    | _ => none
  | .closed => some a.close
  | .windowAdjust bytes => some { a with window := min (a.window + bytes) channelWindowBytes }
  | .proceed torn =>
    match a.point with
    | .writing rest next => a.writeRound rest next torn
    -- the close handler has given up the replay
    | .injecting _ _ | .nextPiece _ => if a.channel.closed then some a.finish else none
    | _ => none

end Replay
end Mullion
