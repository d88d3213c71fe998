import Mullion.Terminal.Modes
import Mullion.Terminal.Scrollback
import Mullion.Terminal.StartupQuery

/-!
# A session and its output

The part of `Session` (`pty-manager.ts`) that handles what the program writes: the tracked
modes, the scrollback ring, the redraw nudge (`redraw-nudge.ts`) whose window keeps a
repaint out of the ring, and what a chunk of output does to them.

* `RedrawNudge` — the dip, the restore and the grace period, and the window they hold open;
* `Session.onData` — one chunk of output;
* `Session.getScrollback` — what is replayed to a terminal that attaches;
* `Session.next` — the events of a session's life that touch any of these.
-/

namespace Mullion
namespace Terminal

/-! ## The redraw nudge -/

/-- The stage whose timer is pending. -/
inductive NudgeStage
  | dip (dipRows : Nat) (suppressCapture : Bool)
  | restore (suppressCapture : Bool)
  | graceReset
  deriving DecidableEq, Repr

/-- `RedrawNudge`. -/
structure RedrawNudge where
  suppressed : Bool
  timer : Option NudgeStage
  deriving DecidableEq, Repr

namespace RedrawNudge

def idle : RedrawNudge := ⟨false, none⟩

/-- `cancel`: no stage is pending, and nothing is suppressed. -/
def cancel (_ : RedrawNudge) : RedrawNudge := ⟨false, none⟩

def trigger (n : RedrawNudge) (rows : Nat) (suppressCapture : Bool) : RedrawNudge :=
  let n := n.cancel
  { suppressed := if suppressCapture then true else n.suppressed
    timer := some (.dip (max 4 (rows / 2)) suppressCapture) }

/-- The pending timer fires; the second component is the size the terminal is given. -/
def fire (n : RedrawNudge) (cols rows : Nat) : Option (RedrawNudge × Option (Nat × Nat)) :=
  match n.timer with
  | none => none
  | some (.dip dipRows suppressCapture) =>
    some ({ n with timer := some (.restore suppressCapture) }, some (cols, dipRows))
  | some (.restore suppressCapture) =>
    some ({ n with timer := if suppressCapture then some .graceReset else none },
      some (cols, rows))
  | some .graceReset => some (⟨false, none⟩, none)

end RedrawNudge

/-! ## The session -/

open StartupQuery (TerminalPalette splitStartupQueries)

def startupQueryReplyWindowMs : Nat := 30000
def minTerminalCols : Nat := 40
def minTerminalRows : Nat := 10
def maxTerminalCols : Nat := 4000
def maxTerminalRows : Nat := 1000

/-- `clampTerminalSize`. -/
def clampTerminalSize (cols rows : Nat) : Nat × Nat :=
  (min (max cols minTerminalCols) maxTerminalCols, min (max rows minTerminalRows) maxTerminalRows)

/-- `Session`, as far as its output goes. -/
structure Session where
  createdAt : Nat
  cols : Nat
  rows : Nat
  modes : TerminalModeTracker
  scrollbackBuffer : ScrollbackBuffer
  redrawNudge : RedrawNudge
  altScreenExitedAtBytes : Nat
  deriving DecidableEq, Repr

/-- What a chunk of output makes the session do: answer the program, report a flip of the
screen, and hand the chunk to its listeners. -/
structure DataOutcome where
  reply : List Char
  screen : Option ScreenMode
  fanOut : Option (List UInt8)
  deriving DecidableEq, Repr

namespace Session

/-- The constructor, with the state file of an earlier process if there is one. -/
def create (createdAt cols rows : Nat) (stored : Option StoredTermModes) : Session where
  createdAt := createdAt
  cols := (clampTerminalSize cols rows).1
  rows := (clampTerminalSize cols rows).2
  modes := TerminalModeTracker.initial.restore stored
  scrollbackBuffer := .empty
  redrawNudge := .idle
  altScreenExitedAtBytes := 0

variable (s : Session)

/-- The answer to the startup queries of a chunk of output, and what is left of the chunk. -/
def answerQueries (now : Nat) (palette : Option TerminalPalette) (rawData : List Char) :
    List Char × List Char :=
  if now - s.createdAt < startupQueryReplyWindowMs then
    let split := splitStartupQueries rawData palette
    (split.reply, split.rest)
  else ([], rawData)

/-- `altScreenExitedAtBytes` after a switch of the screen: what follows the sequence in the
chunk is not part of the screen that was left, if the chunk is in the ring at all. -/
def exitedAtBytes (data : List Char) (chunk : List UInt8) (pushedToScrollback : Bool)
    (sw : AltScreenResult) : Nat :=
  if sw.exited then
    if pushedToScrollback then
      let offsetInData := sw.endIndex - s.modes.detectCarryLength
      let bytesBeforeOffset := (Text.utf8 (data.take offsetInData)).length
      let trailingBytes := chunk.length - bytesBeforeOffset
      s.scrollbackBuffer.bytesEverPushed - trailingBytes
    else s.scrollbackBuffer.bytesEverPushed
  else s.altScreenExitedAtBytes

/-- The detectors' part of `onData`. -/
def detect (data : List Char) (chunk : List UInt8) (pushedToScrollback : Bool) :
    Session × Option ScreenMode :=
  let detectChunk := s.modes.detectChunk data
  let altScreen := s.modes.applyAltScreen detectChunk
  ({ s with
    modes := (altScreen.1.applyInputModes detectChunk).detectCwd data
    altScreenExitedAtBytes :=
      match altScreen.2 with
      | none => s.altScreenExitedAtBytes
      | some sw => s.exitedAtBytes data chunk pushedToScrollback sw },
    altScreen.2.bind fun sw => if sw.flipped then some sw.mode else none)

/-- `pushedToScrollback`: nothing is captured in the window of a redraw nudge. -/
def pushesToScrollback (data : List Char) : Bool := data ≠ [] && !s.redrawNudge.suppressed

/-- The ring's part of `onData`. -/
def capture (data : List Char) : Session :=
  if s.pushesToScrollback data then
    { s with scrollbackBuffer := s.scrollbackBuffer.push (Text.utf8 data) }
  else s

/-- `plainChunk`: no detector has anything to look at. -/
def plainChunk (data : List Char) : Bool :=
  s.modes.carriesEmpty && '\x1b' ∉ data && '\x07' ∉ data

/-- The rest of `onData`, once the startup queries are answered. -/
def deliver (data : List Char) : Session × Option ScreenMode × Option (List UInt8) :=
  let chunk := Text.utf8 data
  let s' := s.capture data
  let detected :=
    if s'.plainChunk data then (s', none) else s'.detect data chunk (s.pushesToScrollback data)
  (detected.1, detected.2, if data ≠ [] then some chunk else none)

/-- A chunk of output, at the time `now`. -/
def onData (now : Nat) (palette : Option TerminalPalette) (rawData : List Char) :
    Session × DataOutcome :=
  let answered := s.answerQueries now palette rawData
  let delivered := s.deliver answered.2
  (delivered.1, ⟨answered.1, delivered.2.1, delivered.2.2⟩)

@[simp] theorem capture_modes (data : List Char) : (s.capture data).modes = s.modes := by
  rw [capture]
  split_ifs <;> rfl

@[simp] theorem capture_redrawNudge (data : List Char) :
    (s.capture data).redrawNudge = s.redrawNudge := by
  rw [capture]
  split_ifs <;> rfl

/-- The ring after a chunk. -/
theorem deliver_scrollbackBuffer (data : List Char) :
    (s.deliver data).1.scrollbackBuffer =
      if s.pushesToScrollback data then s.scrollbackBuffer.push (Text.utf8 data)
      else s.scrollbackBuffer := by
  have hcapture : (s.deliver data).1.scrollbackBuffer = (s.capture data).scrollbackBuffer := by
    simp only [deliver, detect]
    split_ifs <;> rfl
  rw [hcapture, capture]
  split_ifs <;> rfl

/-- The nudge does not depend on the output. -/
@[simp] theorem deliver_redrawNudge (data : List Char) :
    (s.deliver data).1.redrawNudge = s.redrawNudge := by
  rw [← s.capture_redrawNudge data]
  simp only [deliver, detect]
  split_ifs <;> rfl

/-- The tracker after a chunk: a plain chunk leaves it alone, every other chunk goes through
the detectors. -/
theorem deliver_modes (data : List Char) :
    (s.deliver data).1.modes =
      if s.plainChunk data then s.modes
      else ((s.modes.applyAltScreen (s.modes.detectChunk data)).1.applyInputModes
        (s.modes.detectChunk data)).detectCwd data := by
  have hplain : (s.capture data).plainChunk data = s.plainChunk data := by
    rw [plainChunk, capture_modes, plainChunk]
  simp only [deliver, detect, hplain, capture_modes]
  split_ifs
  · exact s.capture_modes data
  · rfl

/-- `getScrollback`: the preamble, then what is buffered. -/
def getScrollback : List UInt8 := s.scrollbackBuffer.toBuffer s.modes.buildPreamble

def resize (cols rows : Nat) : Session :=
  { s with cols := (clampTerminalSize cols rows).1, rows := (clampTerminalSize cols rows).2 }

def requestRedraw : Session := { s with redrawNudge := s.redrawNudge.trigger s.rows true }

/-- The end of `attachClient`. -/
def attachClient : Session := { s with redrawNudge := s.redrawNudge.trigger s.rows false }

/-- The exit of the attach client. -/
def onExit : Session :=
  { s with redrawNudge := s.redrawNudge.cancel, modes := s.modes.clearDetectCarry }

def kill : Session :=
  { s with
    redrawNudge := s.redrawNudge.cancel
    modes := s.modes.clearDetectCarry.clearCwdDetectCarry }

end Session

/-! ## The life of a session -/

/-- What can happen to a session. -/
inductive SessionEvent
  | data (now : Nat) (palette : Option TerminalPalette) (rawData : List Char)
  | resize (cols rows : Nat)
  | requestRedraw
  | attach
  | nudgeTimer
  | exit
  | kill
  deriving DecidableEq, Repr

/-- One event; `none` is a timer that is not pending. -/
def Session.next (s : Session) : SessionEvent → Option Session
  | .data now palette rawData => some (s.onData now palette rawData).1
  | .resize cols rows => some (s.resize cols rows)
  | .requestRedraw => some s.requestRedraw
  | .attach => some s.attachClient
  | .nudgeTimer =>
    (s.redrawNudge.fire s.cols s.rows).map fun n => { s with redrawNudge := n.1 }
  | .exit => some s.onExit
  | .kill => some s.kill

end Terminal
end Mullion
