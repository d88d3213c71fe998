import Mullion.Stream.Socket

/-!
# What the agent makes of a channel

`serveChannel` (`agent-channel-streams.ts`) reads the first line of a channel that the primary
opened, and hands the channel to the stream that the line names or to the request tunnel
(`createRequestSink` of `agent-channel-tunnel.ts`). The bytes come in data frames, cut anywhere.
What is asked is that the outcome does not depend on the cuts, for all readings of a head and all
handlers.

`settled` is what a line and a body come to, without any cuts. While the first line is not complete
the listener only collects (`data_waiting`); when it is, the rest goes to the stream or to the
tunnel, whose parser does not look at the cuts either (`pushBody_spec`). So every cut settles as it
should, but for the limit of the head: it is applied to what has come so far, which may be the line
and a piece of the body. A long line therefore settles if its end comes in the same frame and closes
the channel if it does not (`cut_matters`), unless it is so long that no frame can complete it.
`same_outcome_iff` has it that this is the only dependence.
-/

namespace Mullion
namespace Serve

open Mullion.Stream Mux

/-! ## Limits -/

/-- `AGENT_CHANNEL_DEFAULT_MAX_REQUEST_BYTES`. -/
def defaultMaxRequestBytes : Nat := 2 * 1024 * 1024

/-- `AGENT_CHANNEL_MAX_RESPONSE_BYTES`, the limit of the paths with large bodies. -/
def maxResponseBytes : Nat := 64 * 1024 * 1024

/-- `path.split("?")[0]`. -/
def pathname (path : String) : String := String.ofList (path.toList.takeWhile (· ≠ '?'))

def isUploadPath (path : String) : Bool :=
  pathname path ∈
    ["/internal/uploads", "/internal/project-files/upload", "/internal/project-files/write"]

def isPreviewPath (path : String) : Bool :=
  "/internal/preview/".toList.isPrefixOf (pathname path).toList ||
    pathname path = "/internal/configured-preview"

def maxRequestBodyBytesForPath (path : String) : Nat :=
  if isUploadPath path || isPreviewPath path then maxResponseBytes else defaultMaxRequestBytes

/-! ## Heads -/

/-- `ChannelStreamOpenHead`, with the entries of `query` that are strings. -/
structure StreamHead where
  stream : String
  query : List (String × String)
  resumed : Bool
  deriving DecidableEq, Repr

/-- What `onData` reads of a request head: its path, if that is a string, and its content length, if
that is a finite number. -/
structure RequestHead where
  path : Option String
  contentLength : Option ℚ
  deriving DecidableEq, Repr

/-- How the bytes of a line are read: `parseStreamHead`, and `JSON.parse` of a request head; `none`
where they return `null` or throw. -/
structure Reader where
  streamHead : List UInt8 → Option StreamHead
  requestHead : List UInt8 → Option RequestHead

/-- `AgentStreamHandlers`: why a stream is refused, and whether its handler throws. -/
structure Handlers where
  validateAttach : List (String × String) → Option String
  validatePreview : List (String × String) → Option String
  validateConfiguredPreview : List (String × String) → Option String
  throws : StreamHead → Bool

/-- `AGENT_CHANNEL_STREAM_KINDS`. -/
def streamKinds : List String :=
  ["attach", "events", "control-relay", "ssh-agent", "preview", "configured-preview"]

/-- What becomes of a stream: the accept head, and whether its handler runs. -/
inductive Opening
  | rejected (status : Nat) (message : String)
  | failed (resumed : Bool)
  | accepted (resumed : Bool)
  deriving DecidableEq, Repr

/-- The checks of `startStream`. -/
def Handlers.opening (handlers : Handlers) (head : StreamHead) : Opening :=
  if head.stream ∉ streamKinds then .rejected 404 "unknown stream"
  else
    let error :=
      if head.stream = "attach" then handlers.validateAttach head.query
      else if head.stream = "preview" then handlers.validatePreview head.query
      else if head.stream = "configured-preview" then handlers.validateConfiguredPreview head.query
      else none
    match error with
    | some message => .rejected 400 message
    | none => if handlers.throws head then .failed head.resumed else .accepted head.resumed

/-! ## Requests -/

/-- `HeadAndBodyParser`. -/
structure Parser where
  head : List (List UInt8)
  headBytes : Nat
  bodyChunks : List (List UInt8)
  bodyBytes : Nat
  headLine : Option (List UInt8)
  deriving DecidableEq, Repr

namespace Parser

def initial : Parser := ⟨[], 0, [], 0, none⟩

/-- The part of `push` behind the head. -/
def pushBody (p : Parser) (rest : List UInt8) (maxBodyBytes : Nat) : Parser × Bool :=
  let p := { p with bodyBytes := p.bodyBytes + rest.length }
  if maxBodyBytes < p.bodyBytes then (p, false)
  else if rest.length > 0 then ({ p with bodyChunks := p.bodyChunks ++ [rest] }, true)
  else (p, true)

/-- `push`; `false` when a limit was exceeded. -/
def push (p : Parser) (chunk : List UInt8) (maxBodyBytes : Nat) : Parser × Bool :=
  match p.headLine with
  | some _ => p.pushBody chunk maxBodyBytes
  | none =>
    let nl := chunk.idxOf? newline
    let take := match nl with
      | none => chunk
      | some k => chunk.take k
    let p := { p with headBytes := p.headBytes + take.length }
    if maxHeadBytes < p.headBytes then (p, false)
    else
      let p := { p with head := p.head ++ [take] }
      match nl with
      | none => (p, true)
      | some k =>
        { p with headLine := some p.head.flatten }.pushBody (chunk.drop (k + 1)) maxBodyBytes

/-- `body`. -/
def body (p : Parser) : List UInt8 := p.bodyChunks.flatten

end Parser

/-- What a request comes to: a 413, or a head line and a body to be replayed. -/
inductive Answer
  | tooLarge
  | dispatched (headLine : Option (List UInt8)) (body : List UInt8)
  deriving DecidableEq, Repr

/-- The variables of `createRequestSink`. -/
structure RequestSink where
  parser : Parser
  dispatched : Option Answer
  maxBodyBytes : Nat
  deriving DecidableEq, Repr

namespace RequestSink

def initial : RequestSink := ⟨Parser.initial, none, defaultMaxRequestBytes⟩

/-- `refuse(413, "request too large")`. -/
def refuse (s : RequestSink) : RequestSink := { s with dispatched := some .tooLarge }

/-- What `onData` does with the head. -/
def onHead (reader : Reader) (s : RequestSink) (headLine : List UInt8) : RequestSink :=
  let head := reader.requestHead headLine
  let maxBodyBytes : Nat := match head.bind RequestHead.path with
    | some path => maxRequestBodyBytesForPath path
    | none => s.maxBodyBytes
  let s := { s with maxBodyBytes := maxBodyBytes }
  match head.bind RequestHead.contentLength with
  | some cl =>
    if (maxBodyBytes : ℚ) < cl then s.refuse
    else if maxBodyBytes < s.parser.bodyBytes then s.refuse
    else s
  | none => if maxBodyBytes < s.parser.bodyBytes then s.refuse else s

/-- `onData`. -/
def data (reader : Reader) (s : RequestSink) (chunk : List UInt8) : RequestSink :=
  if s.dispatched.isSome then s
  else
    let pushed := s.parser.push chunk s.maxBodyBytes
    let next := { s with parser := pushed.1 }
    if pushed.2 = false then next.refuse
    else match s.parser.headLine, pushed.1.headLine with
      | none, some headLine => next.onHead reader headLine
      | _, _ => next

/-- `onEof`. -/
def eof (s : RequestSink) : RequestSink :=
  if s.dispatched.isSome then s
  else { s with dispatched := some (.dispatched s.parser.headLine s.parser.body) }

end RequestSink

/-! ## Channels -/

/-- `ChannelSink`: the tunnel, or the socket of a stream with all that it was given. -/
inductive Sink
  | request (s : RequestSink)
  | stream (head : StreamHead) (resumed : Bool) (input : List UInt8) (ended : Bool)
  deriving DecidableEq, Repr

namespace Sink

def data (reader : Reader) : Sink → List UInt8 → Sink
  | .request s, chunk => .request (s.data reader chunk)
  | .stream head resumed input ended, chunk => .stream head resumed (input ++ chunk) ended

def eof : Sink → Sink
  | .request s => .request s.eof
  | .stream head resumed input _ => .stream head resumed input true

end Sink

/-- The variables of `serveChannel`; `refused` with what was answered. A closed channel hears
nothing. -/
structure Channel where
  sink : Option Sink
  pending : List UInt8
  pendingEof : Bool
  refused : Option (StreamHead × Opening)
  closed : Bool
  deriving DecidableEq, Repr

namespace Channel

variable (reader : Reader) (handlers : Handlers)

/-- With bytes that no decision was made on. -/
def waiting (pending : List UInt8) : Channel := ⟨none, pending, false, none, false⟩

/-- `decide`. -/
def decide (s : Channel) : Channel :=
  match s.pending.idxOf? newline with
  | none => if maxHeadBytes < s.pending.length then { s with closed := true } else s
  | some nl =>
    match reader.streamHead (s.pending.take nl) with
    | none =>
      let sink := (Sink.request .initial).data reader s.pending
      { s with pending := [], sink := some (if s.pendingEof then sink.eof else sink) }
    | some head =>
      let rest := s.pending.drop (nl + 1)
      match handlers.opening head with
      | .accepted resumed =>
        let sink := Sink.stream head resumed rest false
        { s with pending := [], sink := some (if s.pendingEof then sink.eof else sink) }
      | answer => { s with pending := [], refused := some (head, answer) }

/-- The listener of `onData`. -/
def data (s : Channel) (chunk : List UInt8) : Channel :=
  if s.closed then s
  else match s.sink with
    | some sink => { s with sink := some (sink.data reader chunk) }
    | none =>
      if s.refused.isSome then s
      else { s with pending := s.pending ++ chunk }.decide reader handlers

/-- The listener of `onEof`. -/
def eof (s : Channel) : Channel :=
  if s.closed then s
  else match s.sink with
    | some sink => { s with sink := some sink.eof }
    | none =>
      if s.refused.isSome then s
      else if s.pending ≠ [] ∧ newline ∉ s.pending then
        let sink := ((Sink.request .initial).data reader s.pending).eof
        { s with pendingEof := true, sink := some sink, pending := [] }
      else { s with pendingEof := true }

end Channel

/-- What has become of a channel. -/
inductive Outcome
  | waiting
  | closed
  | refused (head : StreamHead) (answer : Opening)
  | stream (head : StreamHead) (resumed : Bool) (input : List UInt8) (ended : Bool)
  | request (answer : Option Answer)
  deriving DecidableEq, Repr

def Channel.outcome (s : Channel) : Outcome :=
  if s.closed then .closed
  else match s.sink, s.refused with
    | some (.request sink), _ => .request sink.dispatched
    | some (.stream head resumed input ended), _ => .stream head resumed input ended
    | none, some (head, answer) => .refused head answer
    | none, none => .waiting

/-- What the agent makes of data frames and the EOF behind them. -/
def serve (reader : Reader) (handlers : Handlers) (frames : List (List UInt8)) : Outcome :=
  ((frames.foldl (Channel.data reader handlers) (.waiting [])).eof reader).outcome

/-- The bytes are cut into data frames that the window allows. -/
def Frames (bytes : List UInt8) (frames : List (List UInt8)) : Prop :=
  frames.flatten = bytes ∧ ∀ frame ∈ frames, frame.length ≤ channelWindowBytes

/-- The first line, if there is one, fits into a head, or cannot arrive in one frame behind a head
that fits. -/
def Fits (bytes : List UInt8) : Prop :=
  ∀ line rest, newline ∉ line → bytes = line ++ newline :: rest →
    line.length ≤ maxHeadBytes ∨ maxHeadBytes + channelWindowBytes ≤ line.length

/-! ## What a line and a body come to -/

/-- The limit of the body behind a head. -/
def capOf (reader : Reader) (line : List UInt8) : Nat :=
  match (reader.requestHead line).bind RequestHead.path with
  | some path => maxRequestBodyBytesForPath path
  | none => defaultMaxRequestBytes

/-- The head declares a body over its limit. -/
def declaresTooMuch (reader : Reader) (line : List UInt8) : Bool :=
  match (reader.requestHead line).bind RequestHead.contentLength with
  | some cl => (capOf reader line : ℚ) < cl
  | none => false

/-- What a request with this line and body comes to. -/
def answered (reader : Reader) (line body : List UInt8) : Answer :=
  if maxHeadBytes < line.length ∨ declaresTooMuch reader line ∨ capOf reader line < body.length then
    .tooLarge
  else .dispatched (some line) body

/-- What a channel with this line and body comes to, if it is not closed. -/
def settled (reader : Reader) (handlers : Handlers) (line body : List UInt8) : Outcome :=
  match reader.streamHead line with
  | none => .request (some (answered reader line body))
  | some head =>
    match handlers.opening head with
    | .accepted resumed => .stream head resumed body true
    | answer => .refused head answer

/-! ## The request tunnel -/

theorem idxOf_newline {line : List UInt8} (hline : newline ∉ line) (rest : List UInt8) :
    (line ++ newline :: rest).idxOf? newline = some line.length := by
  induction line with
  | nil => simp [List.idxOf?_cons]
  | cons b line ih =>
    rw [List.mem_cons, not_or] at hline
    rw [List.cons_append, List.idxOf?_cons, ih hline.2]
    simp [Ne.symm hline.1]

namespace RequestSink

variable {reader : Reader} {line body : List UInt8} {s : RequestSink}

/-- The tunnel has read the line, and this part of a body that fits. -/
structure Receives (reader : Reader) (line body : List UInt8) (s : RequestSink) : Prop where
  dispatched : s.dispatched = none
  headLine : s.parser.headLine = some line
  parsed : s.parser.body = body
  bodyBytes : s.parser.bodyBytes = body.length
  maxBodyBytes : s.maxBodyBytes = capOf reader line

theorem data_of_dispatched (h : s.dispatched = some .tooLarge) (chunk : List UInt8) :
    s.data reader chunk = s := by
  rw [data, if_pos (by simp [h])]

theorem foldl_data_of_dispatched (h : s.dispatched = some .tooLarge) (frames : List (List UInt8)) :
    frames.foldl (data reader) s = s := by
  induction frames with
  | nil => rfl
  | cons frame frames ih => rw [List.foldl_cons, data_of_dispatched h, ih]

theorem eof_of_dispatched (h : s.dispatched = some .tooLarge) : s.eof = s := by
  rw [eof, if_pos (by simp [h])]

theorem pushBody_spec (p : Parser) (rest : List UInt8) (limit : Nat) :
    (p.pushBody rest limit).2 = decide (p.bodyBytes + rest.length ≤ limit) ∧
      (p.pushBody rest limit).1.headLine = p.headLine ∧
      (p.pushBody rest limit).1.bodyBytes = p.bodyBytes + rest.length ∧
      (p.bodyBytes + rest.length ≤ limit →
        (p.pushBody rest limit).1.body = p.body ++ rest) := by
  rw [Parser.pushBody]
  by_cases hlimit : p.bodyBytes + rest.length ≤ limit
  · rw [if_neg (by simpa using hlimit)]
    by_cases hrest : rest.length > 0
    · simp [hrest, hlimit, Parser.body]
    · have hnil : rest = [] := by simpa using hrest
      simp only [hnil] at hlimit ⊢
      simpa [Parser.body] using hlimit
  · rw [if_pos (by simpa using hlimit)]
    simp [hlimit]

/-- One more chunk of the body. -/
theorem Receives.data (h : Receives reader line body s) (chunk : List UInt8) :
    (body ++ chunk).length ≤ capOf reader line ∧
        Receives reader line (body ++ chunk) (s.data reader chunk) ∨
      capOf reader line < (body ++ chunk).length ∧
        (s.data reader chunk).dispatched = some .tooLarge := by
  have hpush : s.parser.push chunk s.maxBodyBytes =
      s.parser.pushBody chunk (capOf reader line) := by
    rw [Parser.push, h.headLine, h.maxBodyBytes]
  obtain ⟨hfits, hline, hbytes, hbody⟩ := pushBody_spec s.parser chunk (capOf reader line)
  rw [h.bodyBytes, ← List.length_append] at hfits hbytes hbody
  rw [RequestSink.data, if_neg (by simp [h.dispatched]), hpush]
  dsimp only
  rw [hfits, hline, h.headLine]
  by_cases hle : (body ++ chunk).length ≤ capOf reader line
  · left
    refine ⟨hle, ?_⟩
    rw [if_neg (by simp only [hle]; decide)]
    exact ⟨h.dispatched, hline.trans h.headLine, (hbody hle).trans (by rw [h.parsed]), hbytes,
      h.maxBodyBytes⟩
  · right
    refine ⟨Nat.lt_of_not_le hle, ?_⟩
    rw [if_pos (by simp only [hle]; decide)]
    rfl

/-- A request that has fitted so far is answered by its line and its whole body. -/
theorem Receives.answered (h : Receives reader line body s) (hline : line.length ≤ maxHeadBytes)
    (hdeclared : declaresTooMuch reader line = false) (hbody : body.length ≤ capOf reader line)
    (frames : List (List UInt8)) :
    (frames.foldl (RequestSink.data reader) s).eof.dispatched =
      some (answered reader line (body ++ frames.flatten)) := by
  induction frames generalizing s body with
  | nil =>
    rw [List.foldl_nil, eof, if_neg (by simp [h.dispatched]), List.flatten_nil, List.append_nil,
      Serve.answered, if_neg (by simp [hline, hdeclared, hbody]), h.headLine, h.parsed]
  | cons frame frames ih =>
    rw [List.foldl_cons, List.flatten_cons, ← List.append_assoc]
    rcases h.data frame with ⟨hle, hnext⟩ | ⟨hlt, hrefused⟩
    · exact ih hnext hle
    · rw [foldl_data_of_dispatched hrefused, eof_of_dispatched hrefused, hrefused, Serve.answered,
        if_pos]
      right; right
      rw [List.length_append]
      omega

/-- What is made of a head. -/
theorem onHead_eq (h : s.maxBodyBytes = defaultMaxRequestBytes) :
    s.onHead reader line =
      if declaresTooMuch reader line ∨ capOf reader line < s.parser.bodyBytes then
        { s with maxBodyBytes := capOf reader line }.refuse
      else { s with maxBodyBytes := capOf reader line } := by
  have hcap : (match (reader.requestHead line).bind RequestHead.path with
      | some path => maxRequestBodyBytesForPath path
      | none => s.maxBodyBytes) = capOf reader line := by
    rw [h, capOf]
  rw [onHead]
  dsimp only
  rw [hcap, declaresTooMuch]
  cases (reader.requestHead line).bind RequestHead.contentLength with
  | none => simp
  | some cl =>
    by_cases hcl : (capOf reader line : ℚ) < cl
    · simp [hcl]
    · simp [hcl]

/-- The chunk that holds the line. -/
theorem data_line (hline : newline ∉ line) {rest : List UInt8}
    (hrest : rest.length ≤ defaultMaxRequestBytes) :
    (maxHeadBytes < line.length ∨ declaresTooMuch reader line ∨ capOf reader line < rest.length) ∧
        (initial.data reader (line ++ newline :: rest)).dispatched = some .tooLarge ∨
      (line.length ≤ maxHeadBytes ∧ declaresTooMuch reader line = false ∧
          rest.length ≤ capOf reader line) ∧
        Receives reader line rest (initial.data reader (line ++ newline :: rest)) := by
  have htake : (line ++ newline :: rest).take line.length = line := List.take_left
  have hdrop : (line ++ newline :: rest).drop (line.length + 1) = rest := by
    rw [← List.drop_drop, List.drop_left]
    rfl
  by_cases hlong : maxHeadBytes < line.length
  · left
    refine ⟨.inl hlong, ?_⟩
    have hpush :
        (initial.parser.push (line ++ newline :: rest) initial.maxBodyBytes).2 = false := by
      rw [Parser.push]
      simp only [initial, Parser.initial, idxOf_newline hline, htake]
      rw [if_pos (by simpa using hlong)]
    rw [RequestSink.data, if_neg (by simp [initial])]
    dsimp only
    rw [if_pos hpush]
    rfl
  · have hpush : initial.parser.push (line ++ newline :: rest) initial.maxBodyBytes =
        Parser.pushBody ⟨[line], line.length, [], 0, some line⟩ rest defaultMaxRequestBytes := by
      rw [Parser.push]
      simp only [initial, Parser.initial, idxOf_newline hline, htake, hdrop, Nat.zero_add,
        List.nil_append]
      rw [if_neg hlong]
      simp
    obtain ⟨hfits, hhead, hbytes, hbody⟩ :=
      pushBody_spec ⟨[line], line.length, [], 0, some line⟩ rest defaultMaxRequestBytes
    rw [Nat.zero_add] at hfits hbytes hbody
    rw [RequestSink.data, if_neg (by simp [initial])]
    dsimp only
    rw [hpush, hfits, hhead, if_neg (by simp only [hrest]; decide)]
    simp only [initial, Parser.initial]
    rw [onHead_eq rfl, hbytes]
    by_cases hrefused : declaresTooMuch reader line = true ∨ capOf reader line < rest.length
    · rw [if_pos hrefused]
      exact .inl ⟨.inr hrefused, rfl⟩
    · rw [if_neg hrefused]
      rw [not_or, Bool.not_eq_true, Nat.not_lt] at hrefused
      exact .inr ⟨⟨Nat.le_of_not_lt hlong, hrefused⟩, rfl, hhead, (hbody hrest).trans rfl, hbytes,
        rfl⟩

/-- What the tunnel makes of a line and the body behind it. -/
theorem answered_line (hline : newline ∉ line) {rest : List UInt8}
    (hrest : rest.length ≤ defaultMaxRequestBytes) (frames : List (List UInt8)) :
    (frames.foldl (data reader) (initial.data reader (line ++ newline :: rest))).eof.dispatched =
      some (answered reader line (rest ++ frames.flatten)) := by
  rcases data_line hline hrest with ⟨hwhy, hrefused⟩ | ⟨⟨hle, hdeclared, hfits⟩, hreceives⟩
  · rw [foldl_data_of_dispatched hrefused, eof_of_dispatched hrefused, hrefused, answered, if_pos]
    rcases hwhy with hlong | hdeclared | hbody
    · exact .inl hlong
    · exact .inr (.inl hdeclared)
    · right; right
      rw [List.length_append]
      omega
  · exact hreceives.answered hle hdeclared hfits frames

end RequestSink

/-! ## The listeners of a channel -/

namespace Channel

variable {reader : Reader} {handlers : Handlers} {line pending : List UInt8}

/-- What a channel comes to behind these frames. -/
def conclude (reader : Reader) (handlers : Handlers) (s : Channel) (frames : List (List UInt8)) :
    Outcome :=
  ((frames.foldl (data reader handlers) s).eof reader).outcome

theorem conclude_request (sink : RequestSink) (frames : List (List UInt8)) (pendingEof : Bool) :
    conclude reader handlers ⟨some (.request sink), [], pendingEof, none, false⟩ frames =
      .request (frames.foldl (RequestSink.data reader) sink).eof.dispatched := by
  induction frames generalizing sink with
  | nil => rfl
  | cons frame frames ih => exact ih (sink.data reader frame)

theorem conclude_stream (head : StreamHead) (resumed : Bool) (input : List UInt8)
    (frames : List (List UInt8)) :
    conclude reader handlers ⟨some (.stream head resumed input false), [], false, none, false⟩
        frames = .stream head resumed (input ++ frames.flatten) true := by
  induction frames generalizing input with
  | nil =>
    rw [List.flatten_nil, List.append_nil]
    rfl
  | cons frame frames ih =>
    rw [List.flatten_cons, ← List.append_assoc]
    exact ih (input ++ frame)

theorem conclude_refused (head : StreamHead) (answer : Opening) (frames : List (List UInt8)) :
    conclude reader handlers ⟨none, [], false, some (head, answer), false⟩ frames =
      .refused head answer := by
  induction frames with
  | nil => rfl
  | cons frame frames ih => exact ih

theorem conclude_closed {s : Channel} (h : s.closed = true) (frames : List (List UInt8)) :
    conclude reader handlers s frames = .closed := by
  have hdata : frames.foldl (data reader handlers) s = s := by
    induction frames with
    | nil => rfl
    | cons frame frames ih => rw [List.foldl_cons, data, if_pos h, ih]
  rw [conclude, hdata, eof, if_pos h, outcome, if_pos h]

/-- The frame that completes the line. -/
theorem conclude_line (hline : newline ∉ line) {rest : List UInt8}
    (hrest : rest.length ≤ defaultMaxRequestBytes) (frames : List (List UInt8)) :
    conclude reader handlers ((waiting (line ++ newline :: rest)).decide reader handlers) frames =
      settled reader handlers line (rest ++ frames.flatten) := by
  have htake : (line ++ newline :: rest).take line.length = line := List.take_left
  have hdrop : (line ++ newline :: rest).drop (line.length + 1) = rest := by
    rw [← List.drop_drop, List.drop_left]
    rfl
  rw [decide, settled]
  simp only [waiting, idxOf_newline hline, htake, hdrop]
  cases reader.streamHead line with
  | none =>
    refine (conclude_request _ frames false).trans ?_
    rw [RequestSink.answered_line hline hrest]
  | some head =>
    simp only
    cases handlers.opening head with
    | accepted resumed => exact conclude_stream head resumed rest frames
    | rejected status message => exact conclude_refused head _ frames
    | failed resumed => exact conclude_refused head _ frames

/-- A frame that completes no line. -/
theorem data_waiting (h : newline ∉ pending) (frame : List UInt8) (hframe : newline ∉ frame) :
    (waiting pending).data reader handlers frame =
      if maxHeadBytes < (pending ++ frame).length then
        { waiting (pending ++ frame) with closed := true }
      else waiting (pending ++ frame) := by
  have hnone : (pending ++ frame).idxOf? newline = none := by
    rw [List.idxOf?_eq_none_iff]
    simp [h, hframe]
  rw [data, if_neg (by simp [waiting])]
  simp only [waiting, Option.isSome_none, Bool.false_eq_true, if_false]
  rw [decide]
  simp only [hnone]

theorem window_le : channelWindowBytes ≤ defaultMaxRequestBytes := by decide

/-- A channel with a line and a body, cut in any way: it comes to what they come to, or it is
closed because the line is too long. -/
theorem conclude_cut {body : List UInt8} {frames : List (List UInt8)} (hline : newline ∉ line)
    (hpending : newline ∉ pending) (hshort : pending.length ≤ maxHeadBytes)
    (hframes : ∀ frame ∈ frames, frame.length ≤ channelWindowBytes)
    (heq : pending ++ frames.flatten = line ++ newline :: body) :
    (conclude reader handlers (waiting pending) frames = settled reader handlers line body ∧
        line.length < maxHeadBytes + channelWindowBytes) ∨
      conclude reader handlers (waiting pending) frames = .closed ∧ maxHeadBytes < line.length := by
  induction frames generalizing pending with
  | nil =>
    rw [List.flatten_nil, List.append_nil] at heq
    exact absurd (heq ▸ List.mem_append_right line (List.mem_cons_self ..)) hpending
  | cons frame frames ih =>
    rw [List.forall_mem_cons] at hframes
    rw [List.flatten_cons] at heq
    have hnext : conclude reader handlers (waiting pending) (frame :: frames) =
        conclude reader handlers ((waiting pending).data reader handlers frame) frames := rfl
    rw [hnext]
    cases hnl : frame.idxOf? newline with
    | some nl =>
      obtain ⟨rfl, rfl⟩ := line_split hpending hline hnl heq.symm
      obtain ⟨hlt, hat, -⟩ := List.idxOf?_eq_some_iff.1 hnl
      have hframe : frame = frame.take nl ++ newline :: frame.drop (nl + 1) := by
        rw [← hat, List.getElem_cons_drop, List.take_append_drop]
      have hdata : (waiting pending).data reader handlers frame =
          (waiting (pending ++ frame.take nl ++ newline :: frame.drop (nl + 1))).decide
            reader handlers := by
        rw [List.append_assoc, ← hframe]
        rfl
      have hrest : (frame.drop (nl + 1)).length ≤ defaultMaxRequestBytes := by
        have := window_le
        rw [List.length_drop]
        omega
      rw [hdata, conclude_line hline hrest]
      refine .inl ⟨rfl, ?_⟩
      rw [List.length_append, List.length_take]
      omega
    | none =>
      have hmem : newline ∉ frame := List.idxOf?_eq_none_iff.1 hnl
      have hno : newline ∉ pending ++ frame := by simp [hpending, hmem]
      rw [data_waiting hpending frame hmem]
      split
      · next hlong =>
        refine .inr ⟨conclude_closed rfl frames, Nat.lt_of_lt_of_le hlong ?_⟩
        exact (line_part hno (heq.symm.trans (List.append_assoc ..).symm)).length_le
      · next hlong =>
        exact ih hno (Nat.le_of_not_lt hlong) hframes.2 (by rw [← heq, List.append_assoc])

/-- A channel without a line, cut in any way. -/
theorem conclude_unfinished {frames : List (List UInt8)}
    (hno : newline ∉ pending ++ frames.flatten) (hshort : pending.length ≤ maxHeadBytes) :
    conclude reader handlers (waiting pending) frames =
      if maxHeadBytes < (pending ++ frames.flatten).length then .closed
      else if pending ++ frames.flatten = [] then .waiting
      else .request (some (.dispatched none [])) := by
  induction frames generalizing pending with
  | nil =>
    rw [List.flatten_nil, List.append_nil] at hno ⊢
    rw [if_neg (Nat.not_lt_of_le hshort)]
    by_cases hnil : pending = []
    · rw [if_pos hnil, hnil]
      rfl
    · have hnone : pending.idxOf? newline = none := List.idxOf?_eq_none_iff.2 hno
      have hpush : Parser.initial.push pending defaultMaxRequestBytes =
          (⟨[pending], pending.length, [], 0, none⟩, true) := by
        rw [Parser.push]
        simp only [Parser.initial, hnone, Nat.zero_add, List.nil_append]
        rw [if_neg (Nat.not_lt_of_le hshort)]
      have hdata : RequestSink.initial.data reader pending =
          ⟨⟨[pending], pending.length, [], 0, none⟩, none, defaultMaxRequestBytes⟩ := by
        rw [RequestSink.data, if_neg (by simp [RequestSink.initial])]
        simp only [RequestSink.initial, hpush]
        rfl
      have heof : (waiting pending).eof reader =
          ⟨some (.request ⟨⟨[pending], pending.length, [], 0, none⟩,
            some (.dispatched none []), defaultMaxRequestBytes⟩), [], true, none, false⟩ := by
        unfold eof
        simp only [waiting, Option.isSome_none, Bool.false_eq_true, if_false, ne_eq, hnil, hno,
          not_false_eq_true, and_self, if_true]
        rw [Sink.data, hdata]
        rfl
      rw [if_neg hnil, conclude, List.foldl_nil, heof]
      rfl
  | cons frame frames ih =>
    rw [List.flatten_cons, ← List.append_assoc] at hno ⊢
    have hpending : newline ∉ pending := by
      intro hmem
      exact hno (by simp [hmem])
    have hframe : newline ∉ frame := by
      intro hmem
      exact hno (by simp [hmem])
    have hnext : conclude reader handlers (waiting pending) (frame :: frames) =
        conclude reader handlers ((waiting pending).data reader handlers frame) frames := rfl
    rw [hnext, data_waiting hpending frame hframe]
    split
    · next hlong =>
      rw [conclude_closed rfl, if_pos]
      rw [List.length_append]
      omega
    · next hlong => exact ih hno (Nat.le_of_not_lt hlong)

end Channel

/-! ## The main result -/

/-- All bytes in frames of one byte. -/
theorem frames_singletons (bytes : List UInt8) : Frames bytes (bytes.map ([·])) := by
  refine ⟨by induction bytes <;> simp_all, fun frame hframe => ?_⟩
  obtain ⟨b, -, rfl⟩ := List.mem_map.1 hframe
  exact Nat.le_trans (Nat.le_of_eq List.length_singleton) (by decide)

theorem Frames.cons {bytes frame : List UInt8} {frames : List (List UInt8)}
    (hframe : frame.length ≤ channelWindowBytes) (h : Frames bytes frames) :
    Frames (frame ++ bytes) (frame :: frames) :=
  ⟨by rw [List.flatten_cons, h.1], List.forall_mem_cons.2 ⟨hframe, h.2⟩⟩

theorem settled_ne_closed (reader : Reader) (handlers : Handlers) (line body : List UInt8) :
    settled reader handlers line body ≠ .closed := by
  rw [settled]
  split
  · exact nofun
  · split <;> exact nofun

/-- A line that is too long for a head, but not for a frame behind one, comes to what it comes to or
to a closed channel. -/
theorem cut_matters (reader : Reader) (handlers : Handlers) {line : List UInt8}
    (hline : newline ∉ line) (hlong : maxHeadBytes < line.length)
    (hwindow : line.length < maxHeadBytes + channelWindowBytes) (body : List UInt8) :
    ∃ xs ys, Frames (line ++ newline :: body) xs ∧ Frames (line ++ newline :: body) ys ∧
      serve reader handlers xs = settled reader handlers line body ∧
      serve reader handlers ys = .closed := by
  have hhead : ∀ n, n ≤ line.length → (line.take n).length = n := fun n hn => by
    rw [List.length_take, Nat.min_eq_left hn]
  have hpart : ∀ n, newline ∉ line.take n := fun n hmem => hline (List.mem_of_mem_take hmem)
  have hsize : maxHeadBytes + 1 ≤ channelWindowBytes := by decide
  refine ⟨line.take maxHeadBytes :: (line.drop maxHeadBytes ++ [newline]) :: body.map ([·]),
    line.take (maxHeadBytes + 1) ::
      (line.drop (maxHeadBytes + 1) ++ newline :: body).map ([·]), ?_, ?_, ?_, ?_⟩
  · have hframes : Frames (line.take maxHeadBytes ++ (line.drop maxHeadBytes ++ [newline] ++ body))
        (line.take maxHeadBytes :: (line.drop maxHeadBytes ++ [newline]) :: body.map ([·])) := by
      refine .cons ?_ (.cons ?_ (frames_singletons body))
      · rw [hhead _ hlong.le]
        omega
      · rw [List.length_append, List.length_drop, List.length_singleton]
        omega
    rwa [← List.append_assoc, ← List.append_assoc, List.take_append_drop, List.append_assoc,
      List.singleton_append] at hframes
  · have hfirst : (line.take (maxHeadBytes + 1)).length ≤ channelWindowBytes := by
      rw [hhead _ hlong]
      exact hsize
    have hframes := Frames.cons hfirst
      (frames_singletons (line.drop (maxHeadBytes + 1) ++ newline :: body))
    rwa [← List.append_assoc, List.take_append_drop] at hframes
  · have hfirst : (Channel.waiting []).data reader handlers (line.take maxHeadBytes) =
        .waiting (line.take maxHeadBytes) := by
      rw [Channel.data_waiting (by simp) _ (hpart _), List.nil_append, hhead _ hlong.le,
        if_neg (Nat.lt_irrefl _)]
    have hsecond : (Channel.waiting (line.take maxHeadBytes)).data reader handlers
        (line.drop maxHeadBytes ++ [newline]) =
        (Channel.waiting (line ++ newline :: [])).decide reader handlers := by
      conv_rhs => rw [← List.take_append_drop maxHeadBytes line, List.append_assoc]
      rfl
    rw [serve, List.foldl_cons, List.foldl_cons, hfirst, hsecond]
    refine (Channel.conclude_line hline (Nat.zero_le _) _).trans ?_
    rw [(frames_singletons body).1, List.nil_append]
  · have hfirst : ((Channel.waiting []).data reader handlers
        (line.take (maxHeadBytes + 1))).closed = true := by
      rw [Channel.data_waiting (by simp) _ (hpart _), List.nil_append, hhead _ hlong,
        if_pos (Nat.lt_succ_self _)]
    rw [serve, List.foldl_cons]
    exact Channel.conclude_closed hfirst _

/-- **Reading a channel.** Whatever the heads say and the handlers do, the outcome is the same for
all ways to cut the bytes into data frames exactly if the first line is at most the limit of a head,
or so long that no frame can complete it behind a head within the limit. -/
theorem same_outcome_iff (reader : Reader) (handlers : Handlers) (bytes : List UInt8) :
    (∀ xs ys, Frames bytes xs → Frames bytes ys →
      serve reader handlers xs = serve reader handlers ys) ↔ Fits bytes := by
  constructor
  · intro hsame line body hline hbytes
    subst hbytes
    by_contra hfits
    rw [not_or, Nat.not_le, Nat.not_le] at hfits
    obtain ⟨xs, ys, hxs, hys, hsettled, hclosed⟩ :=
      cut_matters reader handlers hline hfits.1 hfits.2 body
    exact settled_ne_closed reader handlers line body
      (hsettled.symm.trans ((hsame xs ys hxs hys).trans hclosed))
  · intro hfits
    by_cases hmem : newline ∈ bytes
    · obtain ⟨line, body, rfl, hline⟩ := List.eq_append_cons_of_mem hmem
      have hout : ∀ frames, Frames (line ++ newline :: body) frames →
          serve reader handlers frames =
            if line.length ≤ maxHeadBytes then settled reader handlers line body else .closed := by
        intro frames hframes
        have hcut : (Channel.conclude reader handlers (.waiting []) frames = _ ∧ _) ∨ _ :=
          Channel.conclude_cut hline List.not_mem_nil (Nat.zero_le _) hframes.2 hframes.1
        rcases hcut with ⟨hsettled, hlt⟩ | ⟨hclosed, hlong⟩
        · rw [if_pos (by have := hfits line body hline rfl; omega)]
          exact hsettled
        · rw [if_neg (by omega)]
          exact hclosed
      intro xs ys hxs hys
      rw [hout xs hxs, hout ys hys]
    · have hout : ∀ frames, Frames bytes frames → serve reader handlers frames =
          if maxHeadBytes < bytes.length then .closed
          else if bytes = [] then .waiting
          else .request (some (.dispatched none [])) := by
        rintro frames ⟨rfl, -⟩
        exact Channel.conclude_unfinished hmem (Nat.zero_le _)
      intro xs ys hxs hys
      rw [hout xs hxs, hout ys hys]

/-- The open head of an attach with a command of 65536 characters. -/
def longHead : List UInt8 :=
  ascii "\x7b\"stream\":\"attach\",\"query\":\x7b\"id\":\"1\",\"cwd\":\"/\",\"command\":\"" ++
    List.replicate maxHeadBytes 0x78 ++ ascii "\",\"cols\":\"80\",\"rows\":\"24\"\x7d\x7d"

/-- What it says. -/
def longHeadReader : Reader where
  streamHead line :=
    if line = longHead then
      some ⟨"attach", [("id", "1"), ("cwd", "/"), ("command", String.ofList
        (List.replicate maxHeadBytes 'x')), ("cols", "80"), ("rows", "24")], false⟩
    else none
  requestHead _ := none

/-- Cut behind its first 65536 bytes, it starts the stream; cut one byte later, it closes the
channel. -/
theorem long_head_depends :
    ¬ ∀ (reader : Reader) (handlers : Handlers) (bytes : List UInt8) (xs ys : List (List UInt8)),
      Frames bytes xs → Frames bytes ys →
        serve reader handlers xs = serve reader handlers ys := by
  intro hsame
  have hline : newline ∉ longHead := by
    simp only [longHead, List.mem_append, List.mem_replicate, not_or, not_and]
    exact ⟨⟨by decide, fun _ => by decide⟩, by decide⟩
  have hlength : longHead.length = 58 + maxHeadBytes + 27 := by
    simp only [longHead, List.length_append, List.length_replicate]
    rfl
  have hwindow : 58 + 27 < channelWindowBytes := by decide
  obtain ⟨xs, ys, hxs, hys, hsettled, hclosed⟩ := cut_matters longHeadReader
    ⟨fun _ => none, fun _ => none, fun _ => none, fun _ => false⟩ hline (by omega) (by omega) []
  exact settled_ne_closed _ _ _ _ (hsettled.symm.trans ((hsame _ _ _ xs ys hxs hys).trans hclosed))

end Serve
end Mullion
