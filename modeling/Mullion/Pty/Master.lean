import Mullion.Lib.Framing
import Mullion.Lib.Run

/-!
# The pty-host master's clients

The connection handler of `serve` (`pty-host/master.mjs`), on frames cut by `createDeframer`
(`pty-host/protocol.mjs`). A client must present the token of the session in its first frame before
anything it sends reaches the terminal. What a stream of bytes may do is said without the handler:
`Host.granted` are the effects of its frames if the first one presents the token, and none
otherwise. The question is whether a connection never does anything else, for any chunks, the
authentication timer and the end of the connection.

A `Client` has what is buffered, whether it is admitted, and its effects. The invariant compares
these with the stream so far: an admitted client's first frame was the right one, one that is not
admitted has sent no whole frame, and one that is cut off has its last effects. A chunk of an
admitted client adds the effects of its frames (`loop_authed`); one that is not is admitted by its
first frame or destroyed (`loop_unauthed_effects`). But the loop over a chunk goes on after the
connection was destroyed, and then a later frame of the chunk can still admit the client
(`late_hello_is_admitted`). `granted_iff` has the law exactly when no chunk does this.
-/

namespace Mullion
namespace PtyHost

open Framing

/-! ## Frames -/

/-- `FRAME_DATA`. -/
def frameData : Nat := 0

/-- `FRAME_RESIZE`. -/
def frameResize : Nat := 1

/-- `FRAME_HELLO`. -/
def frameHello : Nat := 3

/-- `MAX_FRAME_BYTES`. -/
def maxFrameBytes : Nat := 16 * 1024 * 1024

/-- `[type: u8][length: u32 big-endian][payload: length bytes]`. -/
def frames : Format UInt8 Tagged := prefixed 1 maxFrameBytes

def frameType (f : Tagged) : Nat := ofBytes f.tag

/-- What a connection does. -/
inductive Effect
  /-- The client joins `clients`, which receive the output. -/
  | join
  /-- `term.write`, of the payload as text. -/
  | write (payload : List UInt8)
  /-- `term.resize`. -/
  | resize (cols rows : Nat)
  deriving DecidableEq, Repr

/-- The session. -/
structure Host where
  token : List UInt8
  /-- Whether a call of the terminal throws; `none` when the program has not started. -/
  term : Option (Effect → Bool)

/-- A connection. -/
structure Client where
  buffered : List UInt8 := []
  authed : Bool := false
  /-- `authTimer` is armed. -/
  authTimer : Bool := true
  destroyed : Bool := false
  /-- The client is in `clients`. -/
  inClients : Bool := false
  /-- The connection is over for a reason that does not lie in what the client sent. -/
  cut : Bool := false
  /-- All the client has sent. -/
  stream : List UInt8 := []
  effects : List Effect := []
  deriving DecidableEq, Repr

namespace Host

variable (host : Host)

/-! ## The handlers -/

/-- `tokenMatches`. -/
def tokenMatches (offered : List UInt8) : Bool :=
  offered.length = host.token.length && offered = host.token

/-- The frame presents the token. -/
def isHello (f : Tagged) : Bool := frameType f = frameHello && host.tokenMatches f.payload

/-- The call of the terminal that a frame of an authenticated client asks for. -/
def termCall (f : Tagged) : Option Effect :=
  if frameType f = frameData then some (.write f.payload)
  else if frameType f = frameResize && 4 ≤ f.payload.length then
    some (.resize (ofBytes (f.payload.take 2)) (ofBytes ((f.payload.drop 2).take 2)))
  else none

/-- The handler of a frame, and whether it throws. -/
def onFrame (c : Client) (f : Tagged) : Client × Bool :=
  if !c.authed then
    if host.isHello f then
      ({ c with
        authed := true
        authTimer := false
        inClients := true
        effects := c.effects ++ [.join] }, false)
    else ({ c with destroyed := true }, false)
  else
    match host.term with
    | none => (c, false)
    | some throws =>
      match termCall f with
      | none => (c, false)
      | some e => ({ c with effects := c.effects ++ [e] }, throws e)

/-- The loop of the deframer, for at most `n` frames; what is thrown destroys the socket. -/
def loop : Nat → Client → Client
  | 0, c => c
  | n + 1, c =>
    match frames.front c.buffered with
    | .more => c
    | .bad => { c with destroyed := true }
    | .frame f rest =>
      match host.onFrame { c with buffered := rest } f with
      | (c, true) => { c with destroyed := true }
      | (c, false) => loop n c

/-- The handler of a chunk. -/
def onChunk (c : Client) (chunk : List UInt8) : Client :=
  host.loop (c.buffered.length + chunk.length + 1) { c with buffered := c.buffered ++ chunk }

end Host

/-! ## Runs -/

/-- What can happen to a connection. -/
inductive Event
  | chunk (bytes : List UInt8)
  | authTimeout
  /-- The socket closes. -/
  | closed

/-- One step. A destroyed socket delivers no chunk. -/
def Host.step (host : Host) (c : Client) : Event → Option Client
  | .chunk bytes =>
    if c.cut then none
    else
      let sent := { c with stream := c.stream ++ bytes }
      some (if c.destroyed then sent else host.onChunk sent bytes)
  | .authTimeout =>
    if c.authTimer then some { c with authTimer := false, destroyed := true, cut := true } else none
  | .closed =>
    some { c with authTimer := false, inClients := false, destroyed := true, cut := true }

/-! ## What a stream may do -/

namespace Host

variable (host : Host)

/-- The calls that the frames of an authenticated client ask for, up to one that throws. -/
def applied : List Tagged → List Effect
  | [] => []
  | f :: fs =>
    match host.term with
    | none => []
    | some throws =>
      match termCall f with
      | none => applied fs
      | some e => if throws e then [e] else e :: applied fs

/-- The effects of a stream: none, unless its first frame presents the token. -/
def granted (stream : List UInt8) : List Effect :=
  match (frames.drain stream).1 with
  | [] => []
  | f :: fs => if host.isHello f then .join :: host.applied fs else []

/-- No frame presents the token after one that should have. -/
def NoLateHello : List Tagged → Prop
  | [] => True
  | f :: fs => host.isHello f ∨ ∀ g ∈ fs, ¬ host.isHello g

/-- The chunk does not bring the token after the frame that closes the connection. -/
def Clean (c : Client) : Event → Prop
  | .chunk bytes =>
    c.authed ∨ c.destroyed ∨ host.NoLateHello (frames.drain (c.buffered ++ bytes)).1
  | _ => True

end Host

/-! ## Calls of the terminal -/

namespace Host

variable (host : Host)

/-- The call that a frame makes; none while the program has not started. -/
def called (f : Tagged) : Option Effect := host.term.bind fun _ => termCall f

def throwsAt (e : Effect) : Bool :=
  match host.term with
  | none => false
  | some throws => throws e

/-- No call of these frames throws. -/
def Smooth (fs : List Tagged) : Prop :=
  ∀ f ∈ fs, ∀ e, host.called f = some e → host.throwsAt e = false

theorem onFrame_authed {c : Client} (ha : c.authed = true) (f : Tagged) :
    host.onFrame c f =
      match host.called f with
      | none => (c, false)
      | some e => ({ c with effects := c.effects ++ [e] }, host.throwsAt e) := by
  unfold onFrame called throwsAt
  rw [ha]
  cases host.term with
  | none => rfl
  | some throws => rfl

theorem applied_none (h : host.term = none) (fs : List Tagged) : host.applied fs = [] := by
  cases fs with
  | nil => rfl
  | cons f fs => rw [applied, h]

theorem applied_cons (f : Tagged) (fs : List Tagged) :
    host.applied (f :: fs) =
      match host.called f with
      | none => host.applied fs
      | some e => if host.throwsAt e then [e] else e :: host.applied fs := by
  rw [applied]
  unfold called throwsAt
  cases hterm : host.term with
  | none => exact (host.applied_none hterm fs).symm
  | some throws => rfl

theorem smooth_cons (f : Tagged) (fs : List Tagged) :
    host.Smooth (f :: fs) ↔
      (∀ e, host.called f = some e → host.throwsAt e = false) ∧ host.Smooth fs :=
  List.forall_mem_cons

/-- While no call throws, frames that come later are applied later. -/
theorem applied_append {fs : List Tagged} (h : host.Smooth fs) (gs : List Tagged) :
    host.applied (fs ++ gs) = host.applied fs ++ host.applied gs := by
  induction fs with
  | nil => rfl
  | cons f fs ih =>
    obtain ⟨hf, hfs⟩ := (host.smooth_cons f fs).1 h
    rw [List.cons_append, applied_cons, applied_cons]
    cases hc : host.called f with
    | none => exact ih hfs
    | some e =>
      simp only [hf e hc]
      rw [ih hfs]
      rfl

/-- After a call that throws nothing is applied. -/
theorem applied_append_rough {fs : List Tagged} (h : ¬ host.Smooth fs) (gs : List Tagged) :
    host.applied (fs ++ gs) = host.applied fs := by
  induction fs with
  | nil => exact absurd (fun f hf => absurd hf List.not_mem_nil) h
  | cons f fs ih =>
    rw [List.cons_append, applied_cons, applied_cons]
    cases hc : host.called f with
    | none =>
      refine ih fun hfs => h ((host.smooth_cons f fs).2 ⟨?_, hfs⟩)
      intro e he
      rw [hc] at he
      cases he
    | some e =>
      cases ht : host.throwsAt e with
      | true => simp only [ht, if_true]
      | false =>
        have hfs : ¬ host.Smooth fs := by
          refine fun hfs => h ((host.smooth_cons f fs).2 ⟨?_, hfs⟩)
          intro e' he'
          cases hc.symm.trans he'
          exact ht
        simp only [ht]
        rw [ih hfs]

/-! ## The loop -/

theorem onFrame_stream (c : Client) (f : Tagged) :
    (host.onFrame c f).1.stream = c.stream ∧ (host.onFrame c f).1.cut = c.cut := by
  unfold onFrame
  split
  · split <;> exact ⟨rfl, rfl⟩
  · split
    · exact ⟨rfl, rfl⟩
    · split <;> exact ⟨rfl, rfl⟩

/-- The loop does not change what was sent. -/
theorem loop_stream (n : Nat) (c : Client) :
    (host.loop n c).stream = c.stream ∧ (host.loop n c).cut = c.cut := by
  induction n generalizing c with
  | zero => exact ⟨rfl, rfl⟩
  | succ n ih =>
    rw [loop]
    split
    case h_1 => exact ⟨rfl, rfl⟩
    case h_2 => exact ⟨rfl, rfl⟩
    case h_3 f rest _ =>
      have hf := host.onFrame_stream { c with buffered := rest } f
      split
      case h_1 heq =>
        rw [heq] at hf
        exact hf
      case h_2 c' heq =>
        rw [heq] at hf
        have hloop := ih c'
        exact ⟨hloop.1.trans hf.1, hloop.2.trans hf.2⟩

/-- The loop over the frames of an authenticated client. -/
theorem loop_authed {n : Nat} {c : Client} (ha : c.authed = true) (hn : c.buffered.length < n) :
    (host.loop n c).effects = c.effects ++ host.applied (frames.drain c.buffered).1 ∧
    (host.loop n c).authed = true ∧
    ((host.loop n c).destroyed = false → host.Smooth (frames.drain c.buffered).1 ∧
      (frames.drain c.buffered).2 = some (host.loop n c).buffered) ∧
    (c.destroyed = false → (host.loop n c).destroyed = true →
      ¬ host.Smooth (frames.drain c.buffered).1 ∨ (frames.drain c.buffered).2 = none) := by
  induction n generalizing c with
  | zero => exact absurd hn (Nat.not_lt_zero _)
  | succ n ih =>
    rw [loop]
    cases hf : frames.front c.buffered with
    | more =>
      rw [Format.drain_more _ hf]
      refine ⟨(List.append_nil _).symm, ha, fun _ => ⟨fun f hf => absurd hf List.not_mem_nil, rfl⟩,
        fun hd h => ?_⟩
      exact absurd (hd.symm.trans h) Bool.false_ne_true
    | bad =>
      rw [Format.drain_bad _ hf]
      refine ⟨(List.append_nil _).symm, ha, fun h => ?_, fun _ _ => .inr rfl⟩
      cases h
    | frame f rest =>
      have hlt := frames.shorter hf
      rw [Format.drain_frame _ hf]
      simp only []
      rw [onFrame_authed _ (c := { c with buffered := rest }) ha, applied_cons, smooth_cons]
      cases hc : host.called f with
      | none =>
        obtain ⟨heff, hauth, hopen, hover⟩ :=
          ih (c := { c with buffered := rest }) ha (by show rest.length < n; omega)
        refine ⟨heff, hauth, fun h => ?_, fun hd h => ?_⟩
        · exact ⟨⟨fun e he => (by cases he), (hopen h).1⟩, (hopen h).2⟩
        · rcases hover hd h with hrough | hnone
          · exact .inl fun hs => hrough hs.2
          · exact .inr hnone
      | some e =>
        cases ht : host.throwsAt e with
        | true =>
          simp only [ht, if_true]
          refine ⟨trivial, ha, fun h => ?_, fun _ _ => .inl fun hs => ?_⟩
          · cases h
          · exact absurd (ht.symm.trans (hs.1 e rfl)) (by decide)
        | false =>
          simp only [ht]
          obtain ⟨heff, hauth, hopen, hover⟩ :=
            ih (c := { c with buffered := rest, effects := c.effects ++ [e] }) ha
              (by show rest.length < n; omega)
          refine ⟨?_, hauth, fun h => ?_, fun hd h => ?_⟩
          · refine heff.trans ?_
            rw [List.append_assoc]
            rfl
          · refine ⟨⟨fun e' he' => ?_, (hopen h).1⟩, (hopen h).2⟩
            cases he'
            exact ht
          · rcases hover hd h with hrough | hnone
            · exact .inl fun hs => hrough hs.2
            · exact .inr hnone

/-- The effects of the frames of a chunk for a client that has not presented the token:
the handler goes on looking for the token after it has destroyed the socket. -/
def admitted : List Tagged → List Effect
  | [] => []
  | f :: fs => if host.isHello f then .join :: host.applied fs else admitted fs

theorem admitted_eq_nil (fs : List Tagged) :
    host.admitted fs = [] ↔ ∀ f ∈ fs, ¬ host.isHello f := by
  induction fs with
  | nil => exact ⟨fun _ f hf => absurd hf List.not_mem_nil, fun _ => rfl⟩
  | cons f fs ih =>
    rw [admitted, List.forall_mem_cons]
    split
    case isTrue h => exact ⟨fun heq => (by cases heq), fun hnone => absurd h hnone.1⟩
    case isFalse h => exact ih.trans ⟨fun hfs => ⟨h, hfs⟩, fun hfs => hfs.2⟩

theorem onFrame_hello {c : Client} (ha : c.authed = false) {f : Tagged} (hf : host.isHello f) :
    host.onFrame c f =
      ({ c with
        authed := true
        authTimer := false
        inClients := true
        effects := c.effects ++ [.join] }, false) := by
  unfold onFrame
  rw [ha, hf]
  rfl

theorem onFrame_other {c : Client} (ha : c.authed = false) {f : Tagged} (hf : ¬ host.isHello f) :
    host.onFrame c f = ({ c with destroyed := true }, false) := by
  unfold onFrame
  rw [ha, Bool.eq_false_iff.2 hf]
  rfl

/-- The effects of a chunk of a client that has not presented the token. -/
theorem loop_unauthed_effects {n : Nat} {c : Client} (ha : c.authed = false)
    (hn : c.buffered.length < n) :
    (host.loop n c).effects = c.effects ++ host.admitted (frames.drain c.buffered).1 := by
  induction n generalizing c with
  | zero => exact absurd hn (Nat.not_lt_zero _)
  | succ n ih =>
    rw [loop]
    cases hf : frames.front c.buffered with
    | more =>
      rw [Format.drain_more _ hf]
      exact (List.append_nil _).symm
    | bad =>
      rw [Format.drain_bad _ hf]
      exact (List.append_nil _).symm
    | frame f rest =>
      have hlt := frames.shorter hf
      rw [Format.drain_frame _ hf, admitted]
      simp only []
      by_cases hh : host.isHello f = true
      · rw [onFrame_hello _ (c := { c with buffered := rest }) ha hh, if_pos hh]
        refine (host.loop_authed rfl (by show rest.length < n; omega)).1.trans ?_
        rw [List.append_assoc]
        rfl
      · rw [onFrame_other _ (c := { c with buffered := rest }) ha hh, if_neg hh]
        exact ih (c := { c with buffered := rest, destroyed := true }) ha
          (by show rest.length < n; omega)

/-- A destroyed socket stays destroyed. -/
theorem loop_destroyed {n : Nat} {c : Client} (hd : c.destroyed = true) :
    (host.loop n c).destroyed = true := by
  have hframe : ∀ c f, c.destroyed = true → (host.onFrame c f).1.destroyed = true := by
    intro c f hd
    unfold onFrame
    split
    · split
      · exact hd
      · rfl
    · split
      · exact hd
      · split <;> exact hd
  induction n generalizing c with
  | zero => exact hd
  | succ n ih =>
    rw [loop]
    split
    case h_1 => exact hd
    case h_2 => rfl
    case h_3 f rest _ =>
      have hf := hframe { c with buffered := rest } f hd
      split
      case h_1 => rfl
      case h_2 c' heq =>
        rw [heq] at hf
        exact ih hf

/-! ## What a stream may do, chunk by chunk -/

theorem granted_of_nil {stream : List UInt8} (h : (frames.drain stream).1 = []) :
    host.granted stream = [] := by
  rw [granted, h]

theorem granted_of_hello {stream : List UInt8} {f : Tagged} {fs : List Tagged}
    (h : (frames.drain stream).1 = f :: fs) (hf : host.isHello f) :
    host.granted stream = .join :: host.applied fs := by
  rw [granted, h]
  exact if_pos hf

theorem granted_of_other {stream : List UInt8} {f : Tagged} {fs : List Tagged}
    (h : (frames.drain stream).1 = f :: fs) (hf : ¬ host.isHello f) :
    host.granted stream = [] := by
  rw [granted, h]
  exact if_neg hf

/-- Nothing that is sent after the stream has gone wrong changes what it may do. -/
def Final (stream : List UInt8) : Prop :=
  ∀ t, host.granted (stream ++ t) = host.granted stream

theorem final_of_none {stream : List UInt8} (h : (frames.drain stream).2 = none) :
    host.Final stream := by
  intro t
  unfold granted
  rw [Format.drain_append, h]

/-- What the first frame of a stream is does not change. -/
theorem drain_head_append {stream : List UInt8} {f : Tagged} {fs : List Tagged}
    (h : (frames.drain stream).1 = f :: fs) (t : List UInt8) :
    ∃ gs, (frames.drain (stream ++ t)).1 = f :: (fs ++ gs) := by
  rw [Format.drain_append]
  cases (frames.drain stream).2 with
  | none => exact ⟨[], by rw [h, List.append_nil]⟩
  | some rest => exact ⟨(frames.drain (rest ++ t)).1, by simp only [h, List.cons_append]⟩

theorem final_of_other {stream : List UInt8} {f : Tagged} {fs : List Tagged}
    (h : (frames.drain stream).1 = f :: fs) (hf : ¬ host.isHello f) : host.Final stream := by
  intro t
  obtain ⟨gs, hgs⟩ := drain_head_append h t
  rw [host.granted_of_other hgs hf, host.granted_of_other h hf]

theorem final_of_rough {stream : List UInt8} {f : Tagged} {fs : List Tagged}
    (h : (frames.drain stream).1 = f :: fs) (hf : host.isHello f) (hs : ¬ host.Smooth fs) :
    host.Final stream := by
  intro t
  obtain ⟨gs, hgs⟩ := drain_head_append h t
  rw [host.granted_of_hello hgs hf, host.granted_of_hello h hf, host.applied_append_rough hs]

/-! ## The invariant -/

/-- What holds of a connection between two events. -/
structure Inv (c : Client) : Prop where
  granted : c.effects = host.granted c.stream
  rest : c.destroyed = false → (frames.drain c.stream).2 = some c.buffered
  fresh : c.destroyed = false → c.authed = false → (frames.drain c.stream).1 = []
  presented : c.destroyed = false → c.authed = true →
    ∃ f fs, (frames.drain c.stream).1 = f :: fs ∧ host.isHello f ∧ host.Smooth fs
  ended_ : c.destroyed = true → c.cut = true ∨ host.Final c.stream

variable {host}

/-- A chunk of an authenticated client. -/
theorem Inv.authed {c c' : Client} (h : host.Inv c) (hd : c.destroyed = false)
    (ha : c.authed = true) {bytes : List UInt8} (hstream : c'.stream = c.stream ++ bytes)
    (heff : c'.effects = c.effects ++ host.applied (frames.drain (c.buffered ++ bytes)).1)
    (hauth : c'.authed = true)
    (hopen : c'.destroyed = false → host.Smooth (frames.drain (c.buffered ++ bytes)).1 ∧
      (frames.drain (c.buffered ++ bytes)).2 = some c'.buffered)
    (hover : c'.destroyed = true → ¬ host.Smooth (frames.drain (c.buffered ++ bytes)).1 ∨
      (frames.drain (c.buffered ++ bytes)).2 = none) : host.Inv c' := by
  obtain ⟨f, fs, hfs, hf, hs⟩ := h.presented hd ha
  have hdrain : frames.drain c'.stream =
      (f :: (fs ++ (frames.drain (c.buffered ++ bytes)).1),
        (frames.drain (c.buffered ++ bytes)).2) := by
    rw [hstream, Format.drain_append_some _ (Prod.ext hfs (h.rest hd)), List.cons_append]
  have hold : c.effects = .join :: host.applied fs := h.granted.trans (host.granted_of_hello hfs hf)
  constructor
  case granted =>
    rw [host.granted_of_hello (congrArg Prod.fst hdrain) hf, heff, hold, host.applied_append hs]
    rfl
  case rest =>
    intro hd'
    rw [hdrain]
    exact (hopen hd').2
  case fresh =>
    intro _ ha'
    exact absurd (hauth.symm.trans ha') (by decide)
  case presented =>
    intro hd' _
    refine ⟨f, _, congrArg Prod.fst hdrain, hf, ?_⟩
    exact List.forall_mem_append.2 ⟨hs, (hopen hd').1⟩
  case ended_ =>
    intro hd'
    refine .inr ?_
    rcases hover hd' with hrough | hnone
    · refine host.final_of_rough (congrArg Prod.fst hdrain) hf fun hall => hrough ?_
      exact (List.forall_mem_append.1 hall).2
    · exact host.final_of_none ((congrArg Prod.snd hdrain).trans hnone)

/-- A chunk of a client that has not presented the token, when it does not come late. -/
theorem Inv.unauthed {c : Client} (h : host.Inv c) (hd : c.destroyed = false)
    (ha : c.authed = false) {bytes : List UInt8}
    (hclean : host.NoLateHello (frames.drain (c.buffered ++ bytes)).1) :
    host.Inv (host.onChunk { c with stream := c.stream ++ bytes } bytes) := by
  have hold : c.effects = [] := h.granted.trans (host.granted_of_nil (h.fresh hd ha))
  have hdrain : frames.drain (c.stream ++ bytes) = frames.drain (c.buffered ++ bytes) := by
    rw [Format.drain_append_some _ (Prod.ext (h.fresh hd ha) (h.rest hd)), List.nil_append]
  set c₁ : Client := { c with stream := c.stream ++ bytes, buffered := c.buffered ++ bytes }
  obtain ⟨n, hn, hchunk⟩ : ∃ n, (c.buffered ++ bytes).length ≤ n ∧
      host.onChunk { c with stream := c.stream ++ bytes } bytes = host.loop (n + 1) c₁ :=
    ⟨_, Nat.le_of_eq List.length_append, rfl⟩
  have hstream : (host.loop (n + 1) c₁).stream = c.stream ++ bytes := (host.loop_stream _ _).1
  have heff : (host.loop (n + 1) c₁).effects = host.admitted (frames.drain c₁.buffered).1 := by
    refine (host.loop_unauthed_effects (c := c₁) ha (Nat.lt_succ_of_le hn)).trans ?_
    rw [show c₁.effects = [] from hold, List.nil_append]
  rw [hchunk]
  cases hf : frames.front (c.buffered ++ bytes) with
  | more =>
    have hloop : host.loop (n + 1) c₁ = c₁ := by
      rw [loop, show frames.front c₁.buffered = .more from hf]
    rw [Format.drain_more _ hf] at hdrain
    rw [hloop]
    constructor
    case granted => exact hold.trans (host.granted_of_nil (congrArg Prod.fst hdrain)).symm
    case rest => exact fun _ => congrArg Prod.snd hdrain
    case fresh => exact fun _ _ => congrArg Prod.fst hdrain
    case presented => exact fun _ ha' => absurd (ha.symm.trans ha') Bool.false_ne_true
    case ended_ => exact fun hd' => absurd (hd.symm.trans hd') Bool.false_ne_true
  | bad =>
    have hloop : host.loop (n + 1) c₁ = { c₁ with destroyed := true } := by
      rw [loop, show frames.front c₁.buffered = .bad from hf]
    rw [Format.drain_bad _ hf] at hdrain
    rw [hloop]
    constructor
    case granted => exact hold.trans (host.granted_of_nil (congrArg Prod.fst hdrain)).symm
    case ended_ => exact fun _ => .inr (host.final_of_none (congrArg Prod.snd hdrain))
    all_goals
      intro hd'
      cases hd'
  | frame f rest =>
    have hlt := frames.shorter hf
    have hfront : frames.front c₁.buffered = .frame f rest := hf
    rw [Format.drain_frame _ hf] at hdrain hclean
    by_cases hh : host.isHello f = true
    · have hloop : host.loop (n + 1) c₁ = host.loop n
          { c₁ with
            buffered := rest
            authed := true
            authTimer := false
            inClients := true
            effects := c₁.effects ++ [.join] } := by
        rw [loop, hfront]
        simp only []
        rw [host.onFrame_hello (c := { c₁ with buffered := rest }) ha hh]
      obtain ⟨-, hauth, hopen, hover⟩ := host.loop_authed (n := n)
        (c := { c₁ with
            buffered := rest
            authed := true
            authTimer := false
            inClients := true
            effects := c₁.effects ++ [.join] }) rfl (by show rest.length < n; omega)
      rw [← hloop] at hauth hopen hover
      constructor
      case granted =>
        rw [heff, hstream, host.granted_of_hello (congrArg Prod.fst hdrain) hh,
          Format.drain_frame _ hfront, admitted, if_pos hh]
      case rest =>
        intro hd'
        rw [hstream, hdrain]
        exact (hopen hd').2
      case fresh => exact fun _ ha' => absurd (hauth.symm.trans ha') (by decide)
      case presented =>
        intro hd' _
        rw [hstream, hdrain]
        exact ⟨f, _, rfl, hh, (hopen hd').1⟩
      case ended_ =>
        intro hd'
        rw [hstream]
        rcases hover hd hd' with hrough | hnone
        · exact .inr (host.final_of_rough (congrArg Prod.fst hdrain) hh hrough)
        · exact .inr (host.final_of_none ((congrArg Prod.snd hdrain).trans hnone))
    · have hdestroyed : (host.loop (n + 1) c₁).destroyed = true := by
        rw [loop, hfront]
        simp only []
        rw [host.onFrame_other (c := { c₁ with buffered := rest }) ha hh]
        exact host.loop_destroyed rfl
      have hnone : host.admitted (frames.drain c₁.buffered).1 = [] := by
        rw [Format.drain_frame _ hfront, admitted, if_neg hh, admitted_eq_nil]
        exact hclean.resolve_left hh
      constructor
      case granted =>
        rw [heff, hnone, hstream, host.granted_of_other (congrArg Prod.fst hdrain) hh]
      case ended_ =>
        rw [hstream]
        exact fun _ => .inr (host.final_of_other (congrArg Prod.fst hdrain) hh)
      all_goals
        intro hd'
        exact absurd (hdestroyed.symm.trans hd') (by decide)

/-- A step that is clean keeps the invariant. -/
theorem step_inv {c c' : Client} {e : Event} (h : host.Inv c) (hclean : host.Clean c e)
    (hs : host.step c e = some c') : host.Inv c' := by
  cases e with
  | chunk bytes =>
    rw [step] at hs
    split at hs
    case isTrue => cases hs
    case isFalse hcut =>
      cases hs
      by_cases hd : c.destroyed = true
      · rw [if_pos hd]
        have hfinal := (h.ended_ hd).resolve_left hcut
        constructor
        case granted => exact h.granted.trans (hfinal bytes).symm
        case ended_ =>
          refine fun _ => .inr fun t => ?_
          show host.granted (c.stream ++ bytes ++ t) = host.granted (c.stream ++ bytes)
          rw [List.append_assoc, hfinal, hfinal]
        all_goals
          intro hd'
          exact absurd (hd.symm.trans hd') (by decide)
      · rw [if_neg hd]
        have hd := Bool.eq_false_iff.2 hd
        by_cases ha : c.authed = true
        · have hn : (c.buffered ++ bytes).length < c.buffered.length + bytes.length + 1 := by
            rw [List.length_append]
            exact Nat.lt_succ_self _
          obtain ⟨heff, hauth, hopen, hover⟩ := host.loop_authed
            (c := { c with stream := c.stream ++ bytes, buffered := c.buffered ++ bytes }) ha hn
          exact h.authed hd ha (host.loop_stream _ _).1 heff hauth hopen (hover hd)
        · refine h.unauthed hd (Bool.eq_false_iff.2 ha) ?_
          rcases hclean with hauth | hdest | hlate
          · exact absurd hauth ha
          · exact absurd (hd.symm.trans hdest) (by decide)
          · exact hlate
  | authTimeout =>
    rw [step] at hs
    split at hs
    · cases hs
      exact ⟨h.granted, fun h => (by cases h), fun h => (by cases h), fun h => (by cases h),
        fun _ => .inl rfl⟩
    · cases hs
  | closed =>
    cases hs
    exact ⟨h.granted, fun h => (by cases h), fun h => (by cases h), fun h => (by cases h),
      fun _ => .inl rfl⟩

/-- A chunk that is not clean has an effect that the stream may not have. -/
theorem step_late {c c' : Client} {e : Event} (h : host.Inv c) (hclean : ¬ host.Clean c e)
    (hs : host.step c e = some c') : c'.effects ≠ host.granted c'.stream := by
  cases e with
  | chunk bytes =>
    obtain ⟨ha, hlate⟩ := not_or.1 hclean
    obtain ⟨hd, hlate⟩ := not_or.1 hlate
    have ha := Bool.eq_false_iff.2 ha
    rw [step] at hs
    split at hs
    case isTrue => cases hs
    case isFalse hcut =>
      cases hs
      have hd := Bool.eq_false_iff.2 hd
      have hn : (c.buffered ++ bytes).length < c.buffered.length + bytes.length + 1 := by
        rw [List.length_append]
        exact Nat.lt_succ_self _
      have hdrain : frames.drain (c.stream ++ bytes) = frames.drain (c.buffered ++ bytes) := by
        rw [Format.drain_append_some _ (Prod.ext (h.fresh hd ha) (h.rest hd)), List.nil_append]
      have heff := host.loop_unauthed_effects
        (c := { c with stream := c.stream ++ bytes, buffered := c.buffered ++ bytes }) ha hn
      have hstream := (host.loop_stream (c.buffered.length + bytes.length + 1)
        { c with stream := c.stream ++ bytes, buffered := c.buffered ++ bytes }).1
      cases hfs : (frames.drain (c.buffered ++ bytes)).1 with
      | nil => exact absurd (hfs ▸ trivial) hlate
      | cons f fs =>
        rw [hfs] at hlate
        obtain ⟨hf, hfs'⟩ := not_or.1 hlate
        have hsome : host.admitted fs ≠ [] := fun hnil =>
          hfs' ((host.admitted_eq_nil fs).1 hnil)
        intro heq
        have hgranted : host.granted (c.stream ++ bytes) = [] :=
          host.granted_of_other ((congrArg Prod.fst hdrain).trans hfs) hf
        have hnil := heff.symm.trans (heq.trans ((congrArg host.granted hstream).trans hgranted))
        obtain ⟨-, hnil⟩ := List.append_eq_nil_iff.1 hnil
        rw [show (frames.drain (c.buffered ++ bytes)).1 = f :: fs from hfs, admitted,
          if_neg hf] at hnil
        exact hsome hnil
  | authTimeout => exact absurd trivial hclean
  | closed => exact absurd trivial hclean

/-- The invariant holds of a connection that has been accepted. -/
theorem Inv.accepted : host.Inv {} := by
  have hdrain : frames.drain [] = ([], some []) := rfl
  constructor
  case granted => rfl
  case rest => exact fun _ => rfl
  case fresh => exact fun _ _ => rfl
  case presented => exact fun _ ha => (by cases ha)
  case ended_ => exact fun hd => (by cases hd)

end Host

/-- **Only authenticated input is applied.** Whatever a client sends, in whatever chunks,
the effects of the connection are at every moment the ones its stream is granted, whose
first frame must present the token, exactly when no chunk brings the token after the first
frame of the stream, one that does not present it. -/
theorem granted_iff (host : Host) (events : List Event) :
    Run.Along host.step (fun c => c.effects = host.granted c.stream) {} events ↔
      Run.Meets host.step host.Clean {} events :=
  Run.along_iff_meets (I := host.Inv) (fun _ _ _ h hc hs => Host.step_inv h hc hs)
    (fun _ h => h.granted) (fun _ _ _ h hc hs => Host.step_late h hc hs) Host.Inv.accepted

/-- A frame of keystrokes before the token in one chunk: the client is admitted and its
later keystrokes reach the terminal. -/
theorem late_hello_is_admitted :
    ¬ Run.Along (Host.step ⟨[7], some fun _ => false⟩)
      (fun c => c.effects = Host.granted ⟨[7], some fun _ => false⟩ c.stream) {}
      [.chunk ([0, 0, 0, 0, 0] ++ [3, 0, 0, 0, 1, 7] ++ [0, 0, 0, 0, 1, 65])] := by
  rintro ⟨-, h⟩
  have hlast := Run.Along.head h
  revert hlast
  decide

end PtyHost
end Mullion
