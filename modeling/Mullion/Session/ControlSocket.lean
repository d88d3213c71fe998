import Mullion.Lib.Fields
import Mullion.Lib.Run
import Mullion.Session.HookInput

/-!
# The lines of a control connection

`handleConnection` (`plugins/control-socket.ts`) for a local connection, and what it uses of
`services/control-protocol.ts`. The first line is the handshake, every other one a request; while
too much is in flight or too much is queued, the socket is paused and complete lines stay in the
buffer. Two things could go wrong: a line is lost, handled twice or out of order, because the scan
of the buffer starts at a wrong place, or the connection hangs with a line that nothing will come
back for. What is not in these files is a parameter (`Outside`): `JSON.parse`, the tokens, the table
of ops and what their handlers write, the length of a frame.

* **Lines.** `Sound` compares a state with what was received of a stream: so many lines have been
  taken, each has had the fate that is its own (`Books`), and the buffer holds the rest, in which no
  newline lies before the index of the scan (`Held`). A line keeps that (`State.line_sound`), hence
  the loop (`State.pumpWith_sound`) and each step.
* **Waiting.** `Awake` says that a paused socket waits for a dispatch or for "drain", and that lines
  are left only in a paused one. The loop ends in such a state, and whatever it waits for runs the
  loop again.

`lines_handled_once` has both for every run. Blank lines, a full queue and bytes that are no text
are dealt with in another way than one might think (`blank_lines_and_full_queues`).
-/

namespace Mullion
namespace ControlSocket

open Fields (get)
open HookInput (isBlank textOf)

/-! ## Messages -/

/-- What `JSON.parse` gives; a number is `none` when it is not finite. -/
inductive Value
  | null
  | bool (value : Bool)
  | number (value : Option ℚ)
  | string (value : String)
  | array (items : List Value)
  | object (fields : List (String × Value))

structure ControlMessage where
  id : ℚ
  op : String
  body : Option (List (String × Value))

inductive Scope
  | full
  | session
  deriving DecidableEq, Repr

/-- What a handshake is resolved to. -/
structure Resolved where
  scope : Scope
  sessionId : Option String
  deriving DecidableEq, Repr

/-- The reply `{ id, ok: false, status, error }`. -/
structure ErrorReply where
  id : Option ℚ
  status : Nat
  error : String
  deriving DecidableEq

structure Outside where
  /-- `JSON.parse`; `none` is a throw -/
  parse : List Char → Option Value
  isAuthEnabled : Bool
  configuredToken : String
  /-- `app.pty.resolveToken` -/
  resolveToken : String → Option String
  /-- `OPS[op].scopes`, if `OPS` has the op itself -/
  scopes : String → Option (List Scope)
  /-- the bytes of what the handler of the nth line writes before it first waits -/
  handler : Nat → ControlMessage → List Nat
  /-- the bytes of `JSON.stringify` of a reply -/
  bytes : ErrorReply → Nat
  /-- `socket.writableHighWaterMark` -/
  highWaterMark : Nat

variable (w : Outside)

namespace Outside

/-- `payload.id`, if it is a finite number. -/
def recoveredId (payload : List (String × Value)) : Option ℚ :=
  match get payload "id" with
  | some (.number id) => id
  | _ => none

def parseControlMessage (line : List Char) : Except (Option ℚ × String) ControlMessage :=
  match w.parse line with
  | none => .error (none, "malformed JSON")
  | some (.object payload) =>
    match recoveredId payload with
    | none => .error (none, "message must have a numeric 'id' field")
    | some id =>
      match get payload "op" with
      | some (.string op) =>
        if op = "" then .error (some id, "message must have a non-empty string 'op' field")
        else match get payload "body" with
          | none => .ok ⟨id, op, none⟩
          | some (.object body) => .ok ⟨id, op, some body⟩
          | some _ => .error (some id, "'body', when present, must be a JSON object")
      | _ => .error (some id, "message must have a non-empty string 'op' field")
  | some _ => .error (none, "message must be a JSON object")

/-- The token of a handshake, itself an option. -/
def parseControlHandshake (line : List Char) : Option (Option String) :=
  match w.parse line with
  | some (.object payload) =>
    match get payload "token" with
    | some (.string token) => some (if token = "" then none else some token)
    | _ => some none
  | _ => none

def resolveHandshake (token : Option String) : Option Resolved :=
  if !w.isAuthEnabled then some ⟨.full, none⟩
  else match token with
    | none => none
    | some token =>
      if w.configuredToken ≠ "" ∧ token = w.configuredToken then some ⟨.full, none⟩
      else (w.resolveToken token).map fun sessionId => ⟨.session, some sessionId⟩

end Outside

/-! ## The socket -/

def MAX_LINE_BYTES : Nat := 2 * 1024 * 1024

def MAX_HANDSHAKE_BYTES : Nat := 4 * 1024

def MAX_INFLIGHT_OPS : Nat := 32

def WRITE_HIGH_WATER_BYTES : Nat := 1024 * 1024

def WRITE_HARD_CEILING_BYTES : Nat := 16 * 1024 * 1024

/-- `Buffer.byteLength`. -/
def byteLength (text : List Char) : Nat := (Utf8.encode text).length

/-- What is queued on a socket; `needDrain` when it will emit "drain". -/
structure Socket where
  writableLength : Nat
  needDrain : Bool
  destroyed : Bool
  deriving DecidableEq, Repr

namespace Socket

def destroy (k : Socket) : Socket := { k with destroyed := true }

/-- A frame, of a JSON text of so many bytes. -/
def writeFrame (k : Socket) (bytes : Nat) : Socket :=
  if k.destroyed then k
  else
    { writableLength := k.writableLength + (bytes + 1)
      needDrain := k.needDrain || w.highWaterMark ≤ k.writableLength + (bytes + 1)
      destroyed := WRITE_HARD_CEILING_BYTES < k.writableLength + (bytes + 1) }

end Socket

/-! ## The connection -/

/-- What becomes of a line after the handshake. -/
inductive Handled
  | dispatched (message : ControlMessage)
  | answered (reply : ErrorReply)

/-- The variables of `handleConnection`; `events` is what became of the lines so far. -/
structure State where
  socket : Socket
  decoder : Option Utf8.Pending
  buffer : List Char
  bufferBytes : Nat
  scanFrom : Nat
  conn : Option Resolved
  inflight : Nat
  paused : Bool
  events : List Handled

namespace State

def initial : State := ⟨⟨0, false, false⟩, none, [], 0, 0, none, 0, false, []⟩

def overloaded (s : State) : Bool :=
  s.conn.isSome &&
    (MAX_INFLIGHT_OPS ≤ s.inflight || WRITE_HIGH_WATER_BYTES ≤ s.socket.writableLength)

def destroy (s : State) : State := { s with socket := s.socket.destroy }

/-- A line that is not dispatched. -/
def answer (s : State) (reply : ErrorReply) : State :=
  { s with
    socket := s.socket.writeFrame w (w.bytes reply)
    events := s.events ++ [.answered reply] }

/-- What `dispatch` writes before it first waits. -/
def dispatch (s : State) (conn : Resolved) (message : ControlMessage) : List Nat :=
  match w.scopes message.op with
  | none => [w.bytes ⟨some message.id, 404, "unknown op: " ++ message.op⟩]
  | some scopes =>
    if conn.scope ∉ scopes then
      [w.bytes ⟨some message.id, 403, "not permitted for this connection's scope"⟩]
    else w.handler s.events.length message

/-- A line that the loop has taken from the buffer. -/
def line (s : State) (line : List Char) : State :=
  if isBlank line then s
  else if s.conn.isNone ∧ MAX_HANDSHAKE_BYTES < byteLength line then s.destroy
  else if MAX_LINE_BYTES < byteLength line then
    s.answer w ⟨none, 400, "line exceeds the maximum message size"⟩
  else match s.conn with
    | none =>
      match (w.parseControlHandshake line).bind w.resolveHandshake with
      | none => s.destroy
      | some resolved => { s with conn := some resolved }
    | some conn =>
      match w.parseControlMessage line with
      | .error (id, error) => s.answer w ⟨id, 400, error⟩
      | .ok message =>
        { s with
          socket := (s.dispatch w conn message).foldl (Socket.writeFrame w) s.socket
          inflight := s.inflight + 1
          events := s.events ++ [.dispatched message] }

/-- The next complete line, and the state without it. -/
def takeLine (s : State) : Option (List Char × State) :=
  ((s.buffer.drop s.scanFrom).findIdx? (· == '\n')).map fun i =>
    let line := s.buffer.take (s.scanFrom + i)
    (line,
      { s with
        buffer := s.buffer.drop (s.scanFrom + i + 1)
        scanFrom := 0
        bufferBytes := s.bufferBytes - (byteLength line + 1) })

/-- What follows the loop, when the buffer holds no complete line. -/
def checkRest (s : State) : State :=
  if (if s.conn.isNone then MAX_HANDSHAKE_BYTES else MAX_LINE_BYTES) < s.bufferBytes then s.destroy
  else s

/-- The loop, for so many lines. -/
def pumpWith : Nat → State → State
  | 0, s => s
  | n + 1, s =>
    if s.socket.destroyed then s
    else if s.overloaded then { s with paused := true }
    else match s.takeLine with
      | none => ({ s with scanFrom := s.buffer.length } : State).checkRest
      | some (line, s) => pumpWith n (s.line w line)

def pump (s : State) : State := s.pumpWith w (s.buffer.length + 1)

def flow (s : State) : State :=
  if s.socket.destroyed then s
  else if s.overloaded then { s with paused := true }
  else ({ s with paused := false } : State).pump w

/-- The "data" listener. -/
def data (s : State) (chunk : List UInt8) : State :=
  let text := (Utf8.feed s.decoder chunk).1
  ({ s with
    decoder := (Utf8.feed s.decoder chunk).2
    buffer := s.buffer ++ text
    bufferBytes := s.bufferBytes + byteLength text } : State).pump w

/-- A dispatch has settled. -/
def settled (s : State) : State := ({ s with inflight := s.inflight - 1 } : State).flow w

/-- Bytes have left the queue; "drain" when they were the last and a write was refused. -/
def sent (s : State) (bytes : Nat) : State :=
  let length := s.socket.writableLength - bytes
  if length = 0 ∧ s.socket.needDrain then
    ({ s with socket := ⟨length, false, s.socket.destroyed⟩ } : State).flow w
  else { s with socket := { s.socket with writableLength := length } }

end State

/-! ## Runs -/

inductive Label
  | data (chunk : List UInt8)
  | frame (bytes : Nat)
  | settled
  | sent (bytes : Nat)
  | close
  deriving DecidableEq

/-- The bytes of a chunk. -/
def Label.chunk : Label → List UInt8
  | .data chunk => chunk
  | _ => []

/-- The bytes that were received. -/
def received (labels : List Label) : List UInt8 := labels.flatMap Label.chunk

/-- A paused socket delivers no chunk; frames come from what was dispatched. -/
def step (s : State) : Label → Option State
  | .data chunk => if s.paused ∨ s.socket.destroyed then none else some (s.data w chunk)
  | .frame bytes =>
    if s.conn.isNone then none else some { s with socket := s.socket.writeFrame w bytes }
  | .settled => if s.inflight = 0 then none else some (s.settled w)
  | .sent bytes =>
    if s.socket.destroyed ∨ bytes = 0 ∨ s.socket.writableLength < bytes then none
    else some (s.sent w bytes)
  | .close => some s.destroy

/-! ## The lines of a stream -/

@[simp] theorem byteLength_nil : byteLength [] = 0 := rfl

theorem byteLength_append (a b : List Char) :
    byteLength (a ++ b) = byteLength a + byteLength b := by
  rw [byteLength, Utf8.encode_append, List.length_append, byteLength, byteLength]

theorem byteLength_newline_cons (text : List Char) :
    byteLength ('\n' :: text) = byteLength text + 1 := rfl

theorem byteLength_mono {a b : List Char} (h : a <+: b) : byteLength a ≤ byteLength b := by
  obtain ⟨rest, rfl⟩ := h
  rw [byteLength_append]
  exact Nat.le_add_right _ _

theorem textOf_take_drop (lines : List (List Char)) (n : Nat) :
    textOf lines = textOf (lines.take n) ++ textOf (lines.drop n) := by
  rw [textOf, textOf, textOf, ← List.flatMap_append, List.take_append_drop]

theorem textOf_take_succ {lines : List (List Char)} {n : Nat} {line : List Char}
    (h : lines[n]? = some line) :
    textOf (lines.take (n + 1)) = textOf (lines.take n) ++ (line ++ ['\n']) := by
  rw [List.take_add_one, h, textOf, List.flatMap_append, ← textOf]
  simp

section Lines

variable {lines : List (List Char)} {n : Nat} {line rest : List Char}

/-- The line that is complete after n lines is the next one. -/
theorem getElem?_of_complete (hlines : ∀ line ∈ lines, '\n' ∉ line) (hline : '\n' ∉ line)
    (h : textOf (lines.take n) ++ (line ++ '\n' :: rest) <+: textOf lines) :
    lines[n]? = some line := by
  rw [textOf_take_drop lines n, List.prefix_append_right_inj] at h
  rw [← List.head?_drop]
  have hdrop : ∀ l ∈ lines.drop n, '\n' ∉ l := fun l hl => hlines l (List.mem_of_mem_drop hl)
  obtain ⟨more, hmore⟩ := h
  have hheads := congrArg (HookInput.complete []) hmore
  rw [HookInput.complete_textOf hdrop, List.append_assoc, HookInput.complete_part hline,
    List.nil_append, List.cons_append, HookInput.complete, if_pos rfl] at hheads
  rw [← hheads, List.head?_cons]

/-- What is not complete after n lines is a part of the next one. -/
theorem prefix_of_rest (hrest : '\n' ∉ rest)
    (h : textOf (lines.take n) ++ rest <+: textOf lines) :
    rest = [] ∨ ∃ line, lines[n]? = some line ∧ rest <+: line := by
  rw [textOf_take_drop lines n, List.prefix_append_right_inj] at h
  rw [← List.head?_drop]
  cases hdrop : lines.drop n with
  | nil =>
    rw [hdrop] at h
    exact Or.inl (List.prefix_nil.1 h)
  | cons line after =>
    refine Or.inr ⟨line, rfl, ?_⟩
    rw [hdrop, textOf, List.flatMap_cons, ← textOf] at h
    have hnext : line ++ ['\n'] <+: (line ++ ['\n']) ++ textOf after := List.prefix_append _ _
    rcases le_total rest.length line.length with hle | hle
    · rw [List.append_assoc] at h
      exact List.prefix_of_prefix_length_le h (List.prefix_append _ _) hle
    · rcases hle.eq_or_lt with heq | hlt
      · rw [List.append_assoc] at h
        exact List.prefix_of_prefix_length_le h (List.prefix_append _ _) heq.ge
      · have hlong : line ++ ['\n'] <+: rest :=
          List.prefix_of_prefix_length_le hnext h (by
            rw [List.length_append, List.length_singleton]
            exact hlt)
        exact absurd (hlong.subset (by simp)) hrest

end Lines

/-! ## What holds of the parts of a state -/

/-- The stream of a client: an accepted handshake and requests, all of them short enough. -/
structure Stream (handshake : List Char) (requests : List (List Char)) (resolved : Resolved) :
    Prop where
  newline : ∀ line ∈ handshake :: requests, '\n' ∉ line
  handshake_short : byteLength handshake ≤ MAX_HANDSHAKE_BYTES
  short : ∀ line ∈ requests, byteLength line ≤ MAX_LINE_BYTES
  not_blank : isBlank handshake = false
  accepted : (w.parseControlHandshake handshake).bind w.resolveHandshake = some resolved

/-- What becomes of a request line that is short enough. -/
def fate (line : List Char) : Option Handled :=
  if isBlank line then none
  else match w.parseControlMessage line with
    | .error (id, error) => some (.answered ⟨id, 400, error⟩)
    | .ok message => some (.dispatched message)

def Handled.isDispatched : Handled → Bool
  | .dispatched _ => true
  | .answered _ => false

/-- A queue that is long will emit "drain", and a socket is gone for a reason. -/
structure Socket.Sound (closed : Prop) (k : Socket) : Prop where
  queued : k.needDrain = true → 0 < k.writableLength
  marked : WRITE_HIGH_WATER_BYTES ≤ k.writableLength → k.needDrain = true
  gone : k.destroyed = true → closed ∨ WRITE_HARD_CEILING_BYTES < k.writableLength

/-- What the first lines have led to, when so many dispatches have settled. -/
structure Books (requests : List (List Char)) (resolved : Resolved) (settled taken : Nat)
    (conn : Option Resolved) (inflight : Nat) (events : List Handled) : Prop where
  conn_eq : conn = if taken = 0 then none else some resolved
  events_eq : events = (requests.take (taken - 1)).filterMap (fate w)
  settled_eq : inflight + settled = events.countP Handled.isDispatched
  inflight_le : inflight ≤ MAX_INFLIGHT_OPS

/-- What the buffer holds of a text whose first lines are taken. -/
structure Held (lines : List (List Char)) (text : List Char) (taken : Nat) (buffer : List Char)
    (bufferBytes scanFrom : Nat) : Prop where
  taken_le : taken ≤ lines.length
  text_eq : textOf (lines.take taken) ++ buffer = text
  bytes_eq : bufferBytes = byteLength buffer
  scan_le : scanFrom ≤ buffer.length
  scanned : '\n' ∉ buffer.take scanFrom

/-- The text of what was received. -/
def decoded (labels : List Label) : List Char := (Utf8.feed none (received labels)).1

structure Sound (handshake : List Char) (requests : List (List Char)) (resolved : Resolved)
    (labels : List Label) (s : State) : Prop where
  socket : s.socket.Sound (.close ∈ labels)
  decoder : s.decoder = (Utf8.feed none (received labels)).2
  lines : ∃ taken,
    Books w requests resolved (labels.count .settled) taken s.conn s.inflight s.events ∧
    Held (handshake :: requests) (decoded labels) taken s.buffer s.bufferBytes s.scanFrom

/-- A paused socket waits for a dispatch or a "drain", and only then are lines left. -/
def Awake (s : State) : Prop :=
  s.socket.destroyed = false →
    (s.paused = true → 0 < s.inflight ∨ s.socket.needDrain = true) ∧
    ('\n' ∈ s.buffer → s.paused = true)

variable {w}

theorem Socket.of_writeFrame (k : Socket) {bytes : Nat}
    (h : (k.writeFrame w bytes).destroyed = false) :
    k.destroyed = false ∧ (k.needDrain = true → (k.writeFrame w bytes).needDrain = true) := by
  rw [Socket.writeFrame] at h ⊢
  split_ifs at h ⊢ with hgone
  case pos => exact ⟨h, id⟩
  case neg => exact ⟨Bool.eq_false_of_not_eq_true hgone, fun hdrain => by simp [hdrain]⟩

theorem Socket.Sound.writeFrame (hmark : w.highWaterMark ≤ WRITE_HIGH_WATER_BYTES) {closed : Prop}
    {k : Socket} (h : k.Sound closed) (bytes : Nat) : (k.writeFrame w bytes).Sound closed := by
  rw [Socket.writeFrame]
  split
  case isTrue => exact h
  case isFalse =>
    refine ⟨fun _ => Nat.succ_pos _, fun hlong => ?_, fun hgone => ?_⟩
    · exact Bool.or_eq_true_iff.2 (Or.inr (decide_eq_true (hmark.trans hlong)))
    · exact Or.inr (of_decide_eq_true hgone)

theorem Socket.Sound.writeFrames (hmark : w.highWaterMark ≤ WRITE_HIGH_WATER_BYTES) {closed : Prop}
    {k : Socket} (h : k.Sound closed) (frames : List Nat) :
    (frames.foldl (Socket.writeFrame w) k).Sound closed := by
  induction frames generalizing k with
  | nil => exact h
  | cons bytes frames ih => exact ih (h.writeFrame hmark bytes)

theorem Socket.Sound.imp {closed closed' : Prop} (himp : closed → closed') {k : Socket}
    (h : k.Sound closed) : k.Sound closed' :=
  ⟨h.queued, h.marked, fun hgone => (h.gone hgone).imp_left himp⟩

/-- What is overloaded will be woken. -/
theorem awake_of_overloaded {closed : Prop} {s : State} (hsocket : s.socket.Sound closed)
    (h : s.overloaded = true) : Awake { s with paused := true } := by
  rintro -
  refine ⟨fun _ => ?_, fun _ => rfl⟩
  rw [State.overloaded, Bool.and_eq_true, Bool.or_eq_true, decide_eq_true_iff,
    decide_eq_true_iff] at h
  rcases h.2 with hbusy | hlong
  · exact Or.inl (lt_of_lt_of_le (by decide) hbusy)
  · exact Or.inr (hsocket.marked hlong)

/-! ## One line -/

theorem State.newline_not_mem_of_takeLine {s : State} (hscan : '\n' ∉ s.buffer.take s.scanFrom)
    (h : s.takeLine = none) : '\n' ∉ s.buffer := by
  rw [State.takeLine, Option.map_eq_none_iff, List.findIdx?_eq_none_iff] at h
  rw [← List.take_append_drop s.scanFrom s.buffer, List.mem_append, not_or]
  refine ⟨hscan, fun hmem => ?_⟩
  simpa using h '\n' hmem

theorem State.of_takeLine {s s' : State} {line : List Char}
    (hscan : '\n' ∉ s.buffer.take s.scanFrom) (hbytes : s.bufferBytes = byteLength s.buffer)
    (h : s.takeLine = some (line, s')) :
    ∃ rest, s.buffer = line ++ '\n' :: rest ∧ '\n' ∉ line ∧
      s' = { s with buffer := rest, scanFrom := 0, bufferBytes := byteLength rest } := by
  rw [State.takeLine] at h
  obtain ⟨i, hi, heq⟩ := Option.map_eq_some_iff.1 h
  obtain ⟨rfl, rfl⟩ := Prod.mk.inj heq
  obtain ⟨hlt, hnewline, hbefore⟩ := List.findIdx?_eq_some_iff_getElem.1 hi
  have hdrop : s.buffer.drop (s.scanFrom + i) = '\n' :: s.buffer.drop (s.scanFrom + i + 1) := by
    rw [← List.drop_drop, List.drop_eq_getElem_cons hlt, List.drop_drop, eq_of_beq hnewline,
      Nat.add_assoc]
  have hsplit : s.buffer =
      s.buffer.take (s.scanFrom + i) ++ '\n' :: s.buffer.drop (s.scanFrom + i + 1) := by
    rw [← hdrop, List.take_append_drop]
  refine ⟨s.buffer.drop (s.scanFrom + i + 1), hsplit, ?_, ?_⟩
  · rw [List.take_add, List.mem_append, not_or]
    refine ⟨hscan, fun hmem => ?_⟩
    obtain ⟨j, hj, hget⟩ := List.mem_take_iff_getElem.1 hmem
    exact hbefore j (by omega) (by rw [hget]; rfl)
  · have hlength := byteLength_append (s.buffer.take (s.scanFrom + i))
      ('\n' :: s.buffer.drop (s.scanFrom + i + 1))
    rw [← hsplit, byteLength_newline_cons] at hlength
    rw [hbytes, hlength, Nat.add_sub_add_left, Nat.add_sub_cancel]

/-- A line is handled without the buffer. -/
theorem State.line_frame (s : State) (line : List Char) :
    (s.line w line).decoder = s.decoder ∧ (s.line w line).buffer = s.buffer ∧
      (s.line w line).bufferBytes = s.bufferBytes ∧ (s.line w line).scanFrom = s.scanFrom ∧
      (s.line w line).paused = s.paused := by
  rw [State.line]
  split_ifs
  case pos => exact ⟨rfl, rfl, rfl, rfl, rfl⟩
  case pos => exact ⟨rfl, rfl, rfl, rfl, rfl⟩
  case pos => exact ⟨rfl, rfl, rfl, rfl, rfl⟩
  case neg =>
    split
    case h_1 => split <;> exact ⟨rfl, rfl, rfl, rfl, rfl⟩
    case h_2 => split <;> exact ⟨rfl, rfl, rfl, rfl, rfl⟩

section Stream

variable {handshake : List Char} {requests : List (List Char)} {resolved : Resolved}
  {settled taken : Nat} {closed : Prop}

/-- What becomes of one more line. -/
theorem Books.events_succ {n : Nat} {conn : Option Resolved} {inflight : Nat}
    {events : List Handled} (h : Books w requests resolved settled (n + 1) conn inflight events)
    {line : List Char} (hline : requests[n]? = some line) :
    (requests.take (n + 1)).filterMap (fate w) = events ++ (fate w line).toList := by
  rw [List.take_add_one, hline, List.filterMap_append, h.events_eq, Nat.add_sub_cancel]
  cases hfate : fate w line <;> simp [hfate]

/-- The handshake is accepted. -/
theorem State.line_handshake (hs : Stream w handshake requests resolved) {s : State}
    (h : s.conn = none) : s.line w handshake = { s with conn := some resolved } := by
  have hshort := hs.handshake_short
  have hline : MAX_HANDSHAKE_BYTES ≤ MAX_LINE_BYTES := by decide
  rw [State.line, hs.not_blank, if_neg (by simp), if_neg (by omega), if_neg (by omega), h,
    hs.accepted]

theorem State.line_of_conn {s : State} {line : List Char} (hblank : ¬ isBlank line = true)
    (hshort : byteLength line ≤ MAX_LINE_BYTES) (hconn : s.conn = some resolved) :
    s.line w line = match w.parseControlMessage line with
      | .error (id, error) => s.answer w ⟨id, 400, error⟩
      | .ok message =>
        { s with
          socket := (s.dispatch w resolved message).foldl (Socket.writeFrame w) s.socket
          inflight := s.inflight + 1
          events := s.events ++ [.dispatched message] } := by
  rw [State.line, if_neg hblank, if_neg (by simp [hconn]), if_neg (by omega)]
  split
  case h_1 hnone => cases hconn.symm.trans hnone
  case h_2 conn hsome =>
    obtain rfl := Option.some.inj (hconn.symm.trans hsome)
    rfl

/-- A request is dispatched or answered. -/
theorem State.line_request (hmark : w.highWaterMark ≤ WRITE_HIGH_WATER_BYTES) {s : State}
    {line : List Char} (hshort : byteLength line ≤ MAX_LINE_BYTES) (hsocket : s.socket.Sound closed)
    (hfree : s.overloaded = false) {n : Nat}
    (h : Books w requests resolved settled (n + 1) s.conn s.inflight s.events)
    (hline : requests[n]? = some line) :
    (s.line w line).socket.Sound closed ∧
      Books w requests resolved settled (n + 1 + 1) (s.line w line).conn
        (s.line w line).inflight (s.line w line).events := by
  have hconn : s.conn = some resolved := h.conn_eq
  have hevents := h.events_succ hline
  rw [fate] at hevents
  split_ifs at hevents with hblank
  case pos =>
    rw [State.line, if_pos hblank]
    refine ⟨hsocket, hconn, ?_, h.settled_eq, h.inflight_le⟩
    rw [Nat.add_sub_cancel, hevents]
    exact (List.append_nil _).symm
  case neg =>
    rw [State.line_of_conn hblank hshort hconn]
    cases hparse : w.parseControlMessage line with
    | error e =>
      obtain ⟨id, error⟩ := e
      rw [hparse] at hevents
      refine ⟨hsocket.writeFrame hmark _, hconn, ?_, ?_, h.inflight_le⟩
      · rw [Nat.add_sub_cancel, hevents]
        rfl
      · have hsettled := h.settled_eq
        dsimp only [State.answer]
        rw [List.countP_append, hsettled]
        rfl
    | ok message =>
      rw [hparse] at hevents
      have hidle : s.inflight < MAX_INFLIGHT_OPS := by
        by_contra hbusy
        rw [State.overloaded, hconn, decide_eq_true (not_lt.1 hbusy)] at hfree
        cases hfree
      refine ⟨hsocket.writeFrames hmark _, hconn, ?_, ?_, hidle⟩
      · rw [Nat.add_sub_cancel, hevents]
        rfl
      · have hsettled := h.settled_eq
        dsimp only
        rw [List.countP_append, ← hsettled, List.countP_singleton]
        simp only [Handled.isDispatched, if_true]
        omega

/-- **The next line leads to the books of one more line.** -/
theorem State.line_sound (hmark : w.highWaterMark ≤ WRITE_HIGH_WATER_BYTES)
    (hs : Stream w handshake requests resolved) {s : State} {line : List Char}
    (hline : (handshake :: requests)[taken]? = some line) (hsocket : s.socket.Sound closed)
    (hfree : s.overloaded = false)
    (h : Books w requests resolved settled taken s.conn s.inflight s.events) :
    (s.line w line).socket.Sound closed ∧
      Books w requests resolved settled (taken + 1) (s.line w line).conn
        (s.line w line).inflight (s.line w line).events := by
  cases taken with
  | zero =>
    obtain rfl : handshake = line := by simpa using hline
    rw [State.line_handshake hs h.conn_eq]
    exact ⟨hsocket, rfl, h.events_eq, h.settled_eq, h.inflight_le⟩
  | succ n =>
    rw [List.getElem?_cons_succ] at hline
    have hshort := hs.short line (List.mem_of_getElem? hline)
    exact State.line_request hmark hshort hsocket hfree h hline

end Stream

/-! ## The loop -/

section Runs

variable {handshake : List Char} {requests : List (List Char)} {resolved : Resolved}
  {labels : List Label}

/-- What is left of a line does not destroy the socket. -/
theorem State.checkRest_eq (hs : Stream w handshake requests resolved) {settled taken : Nat}
    {text : List Char} {s : State} (hrest : '\n' ∉ s.buffer)
    (hcut : text <+: textOf (handshake :: requests))
    (hbooks : Books w requests resolved settled taken s.conn s.inflight s.events)
    (hheld : Held (handshake :: requests) text taken s.buffer s.bufferBytes s.scanFrom) :
    s.checkRest = s := by
  rw [State.checkRest, if_neg]
  rw [hheld.bytes_eq, not_lt]
  rw [← hheld.text_eq] at hcut
  rcases prefix_of_rest hrest hcut with hnil | ⟨line, hline, hpart⟩
  · rw [hnil]
    exact Nat.zero_le _
  · refine (byteLength_mono hpart).trans ?_
    rw [hbooks.conn_eq]
    cases taken with
    | zero =>
      obtain rfl : handshake = line := by simpa using hline
      exact hs.handshake_short
    | succ n =>
      rw [List.getElem?_cons_succ] at hline
      exact hs.short line (List.mem_of_getElem? hline)

/-- The loop keeps the books, and what it leaves in the buffer has a cause. -/
theorem State.pumpWith_sound (hmark : w.highWaterMark ≤ WRITE_HIGH_WATER_BYTES)
    (hs : Stream w handshake requests resolved)
    (hcut : decoded labels <+: textOf (handshake :: requests)) {n : Nat} {s : State}
    (hn : s.buffer.length < n) (hpaused : s.paused = false)
    (h : Sound w handshake requests resolved labels s) :
    Sound w handshake requests resolved labels (s.pumpWith w n) ∧ Awake (s.pumpWith w n) := by
  induction n generalizing s with
  | zero => exact absurd hn (Nat.not_lt_zero _)
  | succ n ih =>
    obtain ⟨taken, hbooks, hheld⟩ := h.lines
    rw [State.pumpWith]
    split_ifs with hgone hover
    case pos => exact ⟨h, fun hopen => absurd hgone (by simp [hopen])⟩
    case pos => exact ⟨⟨h.socket, h.decoder, h.lines⟩, awake_of_overloaded h.socket hover⟩
    case neg =>
      cases htake : s.takeLine with
      | none =>
        have hrest := State.newline_not_mem_of_takeLine hheld.scanned htake
        have hheld' : Held (handshake :: requests) (decoded labels) taken s.buffer s.bufferBytes
            s.buffer.length :=
          ⟨hheld.taken_le, hheld.text_eq, hheld.bytes_eq, le_rfl, by rwa [List.take_length]⟩
        have hcheck : ({ s with scanFrom := s.buffer.length } : State).checkRest = _ :=
          State.checkRest_eq hs hrest hcut hbooks hheld'
        rw [hcheck]
        refine ⟨⟨h.socket, h.decoder, taken, hbooks, hheld'⟩,
          fun _ => ⟨fun hp => ?_, fun hmem => ?_⟩⟩
        · exact absurd hp (by simp [hpaused])
        · exact absurd hmem hrest
      | some e =>
        obtain ⟨line, s'⟩ := e
        obtain ⟨rest, hbuffer, hline, rfl⟩ :=
          State.of_takeLine hheld.scanned hheld.bytes_eq htake
        have htext := hheld.text_eq
        rw [hbuffer] at htext
        have hpart := hcut
        rw [← htext] at hpart
        have hnext := getElem?_of_complete hs.newline hline hpart
        have hfree : s.overloaded = false := Bool.eq_false_of_not_eq_true hover
        set s' : State :=
          { s with buffer := rest, scanFrom := 0, bufferBytes := byteLength rest } with hs'
        obtain ⟨hsocket, hbooks'⟩ :=
          State.line_sound (s := s') hmark hs hnext h.socket hfree hbooks
        obtain ⟨hdecoder, hbuffer', hbytes', hscan', hpaused'⟩ := State.line_frame (w := w) s' line
        refine ih ?_ (by rw [hpaused', hs', hpaused]) ⟨hsocket, ?_, taken + 1, hbooks',
          ?_, ?_, ?_, ?_, ?_⟩
        · rw [hbuffer', hs']
          rw [hbuffer, List.length_append, List.length_cons] at hn
          dsimp only
          omega
        · rw [hdecoder]
          exact h.decoder
        · exact (List.getElem?_eq_some_iff.1 hnext).1
        · rw [hbuffer', textOf_take_succ hnext, List.append_assoc, List.append_assoc,
            List.singleton_append]
          exact htext
        · rw [hbytes', hbuffer']
        · rw [hscan']
          exact Nat.zero_le _
        · rw [hscan', List.take_zero]
          exact List.not_mem_nil

theorem State.pump_sound (hmark : w.highWaterMark ≤ WRITE_HIGH_WATER_BYTES)
    (hs : Stream w handshake requests resolved)
    (hcut : decoded labels <+: textOf (handshake :: requests)) {s : State}
    (hpaused : s.paused = false) (h : Sound w handshake requests resolved labels s) :
    Sound w handshake requests resolved labels (s.pump w) ∧ Awake (s.pump w) :=
  State.pumpWith_sound hmark hs hcut (Nat.lt_succ_self _) hpaused h

theorem State.flow_sound (hmark : w.highWaterMark ≤ WRITE_HIGH_WATER_BYTES)
    (hs : Stream w handshake requests resolved)
    (hcut : decoded labels <+: textOf (handshake :: requests)) {s : State}
    (h : Sound w handshake requests resolved labels s) :
    Sound w handshake requests resolved labels (s.flow w) ∧ Awake (s.flow w) := by
  rw [State.flow]
  split_ifs with hgone hover
  case pos => exact ⟨h, fun hopen => absurd hgone (by simp [hopen])⟩
  case pos => exact ⟨⟨h.socket, h.decoder, h.lines⟩, awake_of_overloaded h.socket hover⟩
  case neg => exact State.pump_sound hmark hs hcut rfl ⟨h.socket, h.decoder, h.lines⟩

/-! ## Runs -/

theorem received_concat (labels : List Label) (a : Label) :
    received (labels ++ [a]) = received labels ++ a.chunk := by
  rw [received, List.flatMap_append, ← received, List.flatMap_singleton]

theorem received_of_no_chunk {a : Label} (h : a.chunk = []) :
    received (labels ++ [a]) = received labels := by
  rw [received_concat, h, List.append_nil]

theorem decoded_of_no_chunk {a : Label} (h : a.chunk = []) :
    decoded (labels ++ [a]) = decoded labels := by
  rw [decoded, received_of_no_chunk h, decoded]

/-- A label that is no chunk changes nothing in what was received. -/
theorem Sound.concat {s : State} (h : Sound w handshake requests resolved labels s) {a : Label}
    (hchunk : a.chunk = []) (hsettled : a ≠ .settled) :
    Sound w handshake requests resolved (labels ++ [a]) s := by
  obtain ⟨taken, hbooks, hheld⟩ := h.lines
  refine ⟨h.socket.imp (List.mem_append_left _), ?_, taken, ?_, ?_⟩
  · rw [received_of_no_chunk hchunk, h.decoder]
  · rwa [List.count_append, List.count_singleton, if_neg (by simpa using hsettled)]
  · rwa [decoded_of_no_chunk hchunk]

/-- **What one step preserves.** -/
theorem step_sound (hmark : w.highWaterMark ≤ WRITE_HIGH_WATER_BYTES)
    (hs : Stream w handshake requests resolved) {s s' : State} {a : Label}
    (h : Sound w handshake requests resolved labels s) (hawake : Awake s)
    (hcut : decoded (labels ++ [a]) <+: textOf (handshake :: requests))
    (hstep : step w s a = some s') :
    Sound w handshake requests resolved (labels ++ [a]) s' ∧ Awake s' := by
  cases a with
  | data chunk =>
    rw [step] at hstep
    split_ifs at hstep with hidle
    obtain rfl := Option.some.inj hstep
    rw [not_or, Bool.not_eq_true] at hidle
    obtain ⟨taken, hbooks, hheld⟩ := h.lines
    have hfeed := Utf8.feed_append none (received labels) chunk
    have hdecoded : decoded (labels ++ [.data chunk]) =
        decoded labels ++ (Utf8.feed s.decoder chunk).1 := by
      rw [decoded, received_concat, Label.chunk, hfeed, decoded, h.decoder]
    refine State.pump_sound hmark hs hcut hidle.1 ⟨h.socket.imp (List.mem_append_left _), ?_, taken,
      ?_, hheld.taken_le, ?_, ?_, ?_, ?_⟩
    · rw [received_concat, Label.chunk, hfeed, h.decoder]
    · rwa [List.count_append, List.count_singleton, if_neg (by simp)]
    · rw [hdecoded, ← hheld.text_eq, List.append_assoc]
    · rw [hheld.bytes_eq, byteLength_append]
    · exact hheld.scan_le.trans (List.length_append ▸ Nat.le_add_right _ _)
    · rw [List.take_append_of_le_length hheld.scan_le]
      exact hheld.scanned
  | frame bytes =>
    rw [step] at hstep
    split_ifs at hstep
    obtain rfl := Option.some.inj hstep
    have hnext := h.concat (a := .frame bytes) rfl (by simp)
    refine ⟨⟨hnext.socket.writeFrame hmark bytes, hnext.decoder, hnext.lines⟩, fun hopen => ?_⟩
    obtain ⟨hbefore, hkept⟩ := s.socket.of_writeFrame hopen
    exact ⟨fun hp => ((hawake hbefore).1 hp).imp_right hkept, (hawake hbefore).2⟩
  | settled =>
    rw [step] at hstep
    split_ifs at hstep with hidle
    obtain rfl := Option.some.inj hstep
    obtain ⟨taken, hbooks, hheld⟩ := h.lines
    refine State.flow_sound hmark hs hcut ⟨h.socket.imp (List.mem_append_left _), ?_, taken,
      ⟨hbooks.conn_eq, hbooks.events_eq, ?_, (Nat.sub_le _ _).trans hbooks.inflight_le⟩, ?_⟩
    · rw [received_of_no_chunk rfl]
      exact h.decoder
    · rw [← hbooks.settled_eq, List.count_append, List.count_singleton_self]
      dsimp only
      omega
    · rwa [decoded_of_no_chunk rfl]
  | sent bytes =>
    rw [step] at hstep
    split_ifs at hstep with hsent
    obtain rfl := Option.some.inj hstep
    rw [not_or, Bool.not_eq_true] at hsent
    have hnext := h.concat (a := .sent bytes) rfl (by simp)
    rw [State.sent]
    split_ifs with hlast
    case pos =>
      refine State.flow_sound hmark hs hcut ⟨⟨?_, ?_, ?_⟩, hnext.decoder, hnext.lines⟩
      · rintro ⟨⟩
      · intro hlong
        rw [hlast.1] at hlong
        cases hlong
      · intro hgone
        exact absurd hgone (by simp [hsent.1])
    case neg =>
      refine ⟨⟨⟨fun hdrain => ?_, fun hlong => ?_, fun hgone => ?_⟩, hnext.decoder, hnext.lines⟩,
        hawake⟩
      · exact Nat.pos_of_ne_zero fun hzero => hlast ⟨hzero, hdrain⟩
      · exact h.socket.marked (le_trans hlong (Nat.sub_le _ _))
      · exact absurd hgone (by simp [hsent.1])
  | close =>
    rw [step] at hstep
    obtain rfl := Option.some.inj hstep
    have hnext := h.concat (a := .close) rfl (by simp)
    refine ⟨⟨⟨hnext.socket.queued, hnext.socket.marked, fun _ => Or.inl (by simp)⟩, hnext.decoder,
      hnext.lines⟩, ?_⟩
    rintro ⟨⟩

theorem initial_sound :
    Sound w handshake requests resolved [] .initial ∧ Awake .initial := by
  refine ⟨⟨⟨?_, ?_, ?_⟩, rfl, 0, ⟨rfl, rfl, rfl, Nat.zero_le _⟩,
    ⟨Nat.zero_le _, rfl, rfl, le_rfl, List.not_mem_nil⟩⟩, fun _ => ⟨?_, ?_⟩⟩
  · rintro ⟨⟩
  · intro hlong
    cases hlong
  · rintro ⟨⟩
  · rintro ⟨⟩
  · rintro ⟨⟩

/-- **What a run preserves.** -/
theorem run_sound (hmark : w.highWaterMark ≤ WRITE_HIGH_WATER_BYTES)
    (hs : Stream w handshake requests resolved) {s : State}
    (hrun : Run.play (step w) .initial labels = some s)
    (hcut : decoded labels <+: textOf (handshake :: requests)) :
    Sound w handshake requests resolved labels s ∧ Awake s := by
  induction labels using List.reverseRecOn generalizing s with
  | nil =>
    obtain rfl := Option.some.inj hrun
    exact initial_sound
  | append_singleton labels a ih =>
    rw [Run.play_append] at hrun
    cases hbefore : Run.play (step w) .initial labels with
    | none =>
      rw [hbefore] at hrun
      cases hrun
    | some t =>
      rw [hbefore] at hrun
      have hstep : step w t a = some s := by
        rw [Option.bind_some, Run.play] at hrun
        split at hrun
        case h_1 => cases hrun
        case h_2 _ heq => rwa [heq]
      have hpart : decoded labels <+: decoded (labels ++ [a]) := by
        rw [decoded, decoded, received_concat, Utf8.feed_append]
        exact List.prefix_append _ _
      obtain ⟨hsound, hawake⟩ := ih hbefore (hpart.trans hcut)
      exact step_sound hmark hs hsound hawake hcut hstep

end Runs

/-! ## Every line once -/

theorem count_textOf {lines : List (List Char)} (h : ∀ line ∈ lines, '\n' ∉ line) :
    (textOf lines).count '\n' = lines.length := by
  induction lines with
  | nil => rfl
  | cons line lines ih =>
    rw [List.forall_mem_cons] at h
    rw [textOf, List.flatMap_cons, ← textOf, List.count_append, ih h.2, List.count_append,
      List.count_eq_zero_of_not_mem h.1, List.length_cons, List.count_singleton_self]
    omega

/-- **Lines are handled once.** Of a stream of an accepted handshake and requests that are short
enough in what they are decoded to, however it is cut and whatever happens in between: the complete
lines that have left the buffer were dispatched or answered, each once and in order, but for those
that are blank; no more than `MAX_INFLIGHT_OPS` dispatches have not settled; the socket is
destroyed only when it is closed from elsewhere or too much is queued; and an open socket with
nothing in flight and nothing queued has no complete line left and is not paused. -/
theorem lines_handled_once (w : Outside) (hmark : w.highWaterMark ≤ WRITE_HIGH_WATER_BYTES)
    {handshake : List Char} {requests : List (List Char)} {resolved : Resolved}
    (hs : Stream w handshake requests resolved) {bytes : List UInt8}
    (hbytes : (Utf8.feed none bytes).1 = textOf (handshake :: requests)) {labels : List Label}
    (hcut : received labels <+: bytes) {s : State}
    (hrun : Run.play (step w) .initial labels = some s) :
    (∃ taken, taken + s.buffer.count '\n' = (decoded labels).count '\n' ∧
      s.conn = (if taken = 0 then none else some resolved) ∧
      s.events = (requests.take (taken - 1)).filterMap (fate w)) ∧
    s.inflight + labels.count .settled = s.events.countP Handled.isDispatched ∧
    s.inflight ≤ MAX_INFLIGHT_OPS ∧
    (s.socket.destroyed = true →
      .close ∈ labels ∨ WRITE_HARD_CEILING_BYTES < s.socket.writableLength) ∧
    (s.socket.destroyed = false → s.inflight = 0 → s.socket.writableLength = 0 →
      '\n' ∉ s.buffer ∧ s.paused = false) := by
  have hpart : decoded labels <+: textOf (handshake :: requests) := by
    obtain ⟨rest, rfl⟩ := hcut
    rw [← hbytes, decoded, Utf8.feed_append]
    exact List.prefix_append _ _
  obtain ⟨hsound, hawake⟩ := run_sound hmark hs hrun hpart
  obtain ⟨taken, hbooks, hheld⟩ := hsound.lines
  refine ⟨⟨taken, ?_, hbooks.conn_eq, hbooks.events_eq⟩, hbooks.settled_eq, hbooks.inflight_le,
    hsound.socket.gone, fun hopen hidle hqueue => ?_⟩
  · rw [← hheld.text_eq, List.count_append, count_textOf
      fun line hline => hs.newline line (List.mem_of_mem_take hline),
      List.length_take, Nat.min_eq_left hheld.taken_le]
  · obtain ⟨hcause, hleft⟩ := hawake hopen
    have hpaused : s.paused ≠ true := fun hp => by
      rcases hcause hp with hbusy | hdrain
      · exact absurd hidle hbusy.ne'
      · exact absurd hqueue (hsound.socket.queued hdrain).ne'
    exact ⟨fun hmem => hpaused (hleft hmem), Bool.eq_false_of_not_eq_true hpaused⟩

/-! ### Two clients -/

/-- `{}` -/
def emptyHandshake : List Char := "\x7b\x7d".toList

/-- `{"id":1,"op":"ls"}` -/
def listRequest : List Char := "\x7b\"id\":1,\"op\":\"ls\"\x7d".toList

/-- A server without authentication, with one op. -/
def openServer (frames : List Nat) : Outside where
  parse line :=
    if line = emptyHandshake then some (.object [])
    else if line = listRequest then some (.object [("id", .number (some 1)), ("op", .string "ls")])
    else none
  isAuthEnabled := false
  configuredToken := ""
  resolveToken _ := none
  scopes op := if op = "ls" then some [.full, .session] else none
  handler _ _ := frames
  bytes reply := reply.error.length + 40
  highWaterMark := 65536

/-- A handshake and a request in two chunks, and the reply. -/
def twoChunks : List Label :=
  [.data ((Utf8.encode (textOf [emptyHandshake, listRequest])).take 10),
    .data ((Utf8.encode (textOf [emptyHandshake, listRequest])).drop 10), .settled, .sent 31]

theorem lines_handled_once_of_two_chunks :
    ∃ s, Run.play (step (openServer [30])) .initial twoChunks = some s ∧
      '\n' ∉ s.buffer ∧ s.paused = false := by
  have hview : (Run.play (step (openServer [30])) .initial twoChunks).map
      (fun s => (s.socket, s.inflight)) = some (⟨0, false, false⟩, 0) := by decide +kernel
  have hstream : Stream (openServer [30]) emptyHandshake [listRequest] ⟨.full, none⟩ :=
    ⟨by decide +kernel, by decide +kernel, by decide +kernel, by decide +kernel, by decide +kernel⟩
  have hbytes : (Utf8.feed none (Utf8.encode (textOf [emptyHandshake, listRequest]))).1 =
      textOf [emptyHandshake, listRequest] := by decide +kernel
  obtain ⟨s, hrun, hs⟩ := Option.map_eq_some_iff.1 hview
  obtain ⟨hsocket, hidle⟩ := Prod.mk.inj hs
  obtain ⟨-, -, -, -, hquiet⟩ :=
    lines_handled_once (openServer [30]) (by decide) hstream hbytes (by decide +kernel) hrun
  rw [hsocket] at hquiet
  exact ⟨s, hrun, hquiet rfl hidle rfl⟩

theorem feed_invalid (n : Nat) :
    Utf8.feed none (List.replicate n 0xff) = (List.replicate n Utf8.replacement, none) := by
  induction n with
  | zero => rfl
  | succ n ih =>
    rw [List.replicate_succ, Utf8.feed]
    simp only [show Utf8.step none (0xff : UInt8).toNat = ([Utf8.replacement], none) from rfl, ih]
    rfl

theorem byteLength_replacement (n : Nat) :
    byteLength (List.replicate n Utf8.replacement) = 3 * n := by
  induction n with
  | zero => rfl
  | succ n ih =>
    rw [List.replicate_succ, ← List.singleton_append, byteLength_append, ih,
      show byteLength [Utf8.replacement] = 3 from rfl]
    omega

/-- Bytes that are no text take three times their length in the buffer. -/
theorem destroyed_of_invalid {w : Outside} {s : State} {n : Nat}
    (hfresh : (s.decoder, s.buffer, s.bufferBytes, s.scanFrom) = (none, [], 0, 0))
    (hopen : (s.socket.destroyed, s.conn.isSome, s.overloaded) = (false, true, false))
    (hn : MAX_LINE_BYTES < 3 * n) :
    (s.data w (List.replicate n 0xff)).socket = s.socket.destroy := by
  obtain ⟨hdecoder, hbuffer, hbytes, hscan⟩ : s.decoder = none ∧ s.buffer = [] ∧
      s.bufferBytes = 0 ∧ s.scanFrom = 0 := by simpa using hfresh
  obtain ⟨hdestroyed, hconn, hover⟩ : s.socket.destroyed = false ∧ s.conn.isSome = true ∧
      s.overloaded = false := by simpa using hopen
  have hnone : (List.replicate n Utf8.replacement).findIdx? (· == '\n') = none := by
    rw [List.findIdx?_eq_none_iff]
    intro c hc
    rw [List.eq_of_mem_replicate hc]
    rfl
  have hconn' : s.conn.isNone = false := by
    rw [← Option.not_isSome, hconn]
    rfl
  simp only [State.overloaded] at hover
  simp only [State.data, hdecoder, feed_invalid, hbuffer, List.nil_append, hbytes, Nat.zero_add,
    byteLength_replacement, State.pump, State.pumpWith, hdestroyed, Bool.false_eq_true, if_false,
    State.overloaded, hover, State.takeLine, hscan, List.drop_zero, hnone, Option.map_none,
    State.checkRest, hconn', hn, if_true, State.destroy]

/-- A blank line is neither dispatched nor answered; when too much is queued, the socket is
destroyed with a line that is left; and it is destroyed in a line that is too long in what it is
decoded to, though not in its bytes. -/
theorem blank_lines_and_full_queues :
    (Run.play (step (openServer [])) .initial
        [.data (Utf8.encode (textOf [emptyHandshake, []]))]).map
      (fun s => (s.events.length, s.buffer, s.inflight, s.socket)) =
        some (0, [], 0, ⟨0, false, false⟩) ∧
    (Run.play (step (openServer [1048576])) .initial
        [.data (Utf8.encode (textOf [emptyHandshake, listRequest, listRequest])),
          .frame 16777216, .settled]).map
      (fun s => (s.events.length, s.buffer, s.inflight, s.socket.destroyed)) =
        some (1, textOf [listRequest], 0, true) ∧
    (1048576 ≤ MAX_LINE_BYTES ∧
      (Run.play (step (openServer [])) .initial
          [.data (Utf8.encode (textOf [emptyHandshake])), .data (List.replicate 1048576 0xff)]).map
        (fun s => s.socket) = some ⟨0, false, true⟩) := by
  refine ⟨by decide +kernel, by decide +kernel, by decide, ?_⟩
  have hview : (Run.play (step (openServer [])) .initial
      [.data (Utf8.encode (textOf [emptyHandshake]))]).map
        (fun s => (s.conn.isSome, s.overloaded, s.paused, s.socket)) =
      some (true, false, false, ⟨0, false, false⟩) := by decide +kernel
  have hbuffer : (Run.play (step (openServer [])) .initial
      [.data (Utf8.encode (textOf [emptyHandshake]))]).map
        (fun s => (s.decoder, s.buffer, s.bufferBytes, s.scanFrom)) =
      some (none, [], 0, 0) := by decide +kernel
  obtain ⟨s, hrun, hs⟩ := Option.map_eq_some_iff.1 hview
  rw [hrun, Option.map_some, Option.some.injEq] at hbuffer
  simp only [Prod.mk.injEq] at hs
  obtain ⟨hconn, hover, hpaused, hsocket⟩ := hs
  have hstep : step (openServer []) s (.data (List.replicate 1048576 0xff)) =
      some (s.data (openServer []) (List.replicate 1048576 0xff)) := by
    rw [step, hpaused, hsocket]
    exact if_neg (by simp)
  have hlast := destroyed_of_invalid (w := openServer []) (n := 1048576) hbuffer
    (by rw [hsocket, hconn, hover]) (by decide)
  rw [← List.singleton_append, Run.play_append, hrun, Option.bind_some]
  simp only [Run.play, hstep, Option.map_some, hlast, hsocket, Socket.destroy]

end ControlSocket
end Mullion
