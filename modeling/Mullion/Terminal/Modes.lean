import Mathlib.Data.List.Basic
import Mullion.Text

/-!
# Terminal modes tracked from the output

What `attention-detect.ts` recognises of the mode switches in a chunk of output, and the
tracker of `terminal-mode-tracker.ts` that folds them. A text is the list of its characters.

* `switchPattern` — a regular expression of the form `\x1b\[\?(?:…)([hl])`;
* `detectAltScreenSwitch`, `applyMouseModeChanges`, `detectBracketedPaste` — the three
  detectors;
* `carryPartialEscape`, `carryPartialOsc` — what a chunk leaves for the next one;
* `TerminalModeTracker` — the tracked modes, the two carries, and the preamble.
-/

namespace Mullion
namespace Terminal

/-! ## Switches -/

/-- A sequence `ESC [ ? code h` (set) or `ESC [ ? code l` (reset). -/
structure Switch where
  code : String
  set : Bool
  deriving DecidableEq, Repr

/-- `([hl])` after a code. -/
def switchEnd (code : String) : List Char → Option (Switch × Nat)
  | 'h' :: _ => some (⟨code, true⟩, 4 + code.toList.length)
  | 'l' :: _ => some (⟨code, false⟩, 4 + code.toList.length)
  | _ => none

/-- `/\x1b\[\?(?:code|…)([hl])/` at the front of a text. -/
def switchPattern (codes : List String) : List Char → Option (Switch × Nat)
  | '\x1b' :: '[' :: '?' :: rest =>
    codes.findSome? fun code => (rest.dropPrefix? code.toList).bind (switchEnd code)
  | _ => none

/-- The codes of `ALT_SCREEN_SWITCH`. -/
def altScreenCodes : List String := ["1049", "1047", "47"]

/-- The codes of `MOUSE_MODE_SWITCH`. -/
def mouseModeCodes : List String := ["9", "1000", "1002", "1003", "1005", "1006", "1015", "1016"]

/-- The code of `BRACKETED_PASTE_SWITCH`. -/
def bracketedPasteCodes : List String := ["2004"]

/-! ## The detectors -/

inductive ScreenMode
  | alt
  | primary
  deriving DecidableEq, Repr

structure AltScreenSwitch where
  mode : ScreenMode
  endIndex : Nat
  deriving DecidableEq, Repr

/-- Which side of the switch the last one of a chunk lands on, and where it ends. -/
def detectAltScreenSwitch (chunk : List Char) : Option AltScreenSwitch :=
  (Text.matchAll (switchPattern altScreenCodes) chunk).foldl
    (fun _ m => some ⟨if m.1.set then .alt else .primary, m.2⟩) none

inductive MouseProtocol
  | none
  | x10
  | vt200
  | drag
  | any
  deriving DecidableEq, Repr

inductive MouseEncoding
  | default
  | sgr
  | sgrPixels
  deriving DecidableEq, Repr

structure MouseTrackingState where
  protocol : MouseProtocol
  encoding : MouseEncoding
  deriving DecidableEq, Repr

/-- `INITIAL_MOUSE_TRACKING_STATE`. -/
def initialMouseTrackingState : MouseTrackingState := ⟨.none, .default⟩

/-- `MOUSE_PROTOCOL_BY_CODE`. -/
def mouseProtocolByCode : String → Option MouseProtocol
  | "9" => some .x10
  | "1000" => some .vt200
  | "1002" => some .drag
  | "1003" => some .any
  | _ => none

/-- `MOUSE_ENCODING_BY_CODE`. -/
def mouseEncodingByCode : String → Option MouseEncoding
  | "1006" => some .sgr
  | "1016" => some .sgrPixels
  | _ => none

/-- What one mouse-mode switch does; of the codes 1005 and 1015 only the reset counts. -/
def applyMouseMode (state : MouseTrackingState) (sw : Switch) : MouseTrackingState :=
  match mouseProtocolByCode sw.code, mouseEncodingByCode sw.code with
  | some protocol, _ => { state with protocol := if sw.set then protocol else .none }
  | none, some encoding => { state with encoding := if sw.set then encoding else .default }
  | none, none => if sw.set then state else { state with encoding := .default }

def applyMouseModeChanges (chunk : List Char) (prev : MouseTrackingState) : MouseTrackingState :=
  (Text.matchAll (switchPattern mouseModeCodes) chunk).foldl
    (fun state m => applyMouseMode state m.1) prev

def detectBracketedPaste (chunk : List Char) : Option Bool :=
  (Text.matchAll (switchPattern bracketedPasteCodes) chunk).foldl (fun _ m => some m.1.set) none

/-! ## The carries -/

/-- `/^\x1b(?:\[(?:\?\d{0,4})?)?$/`. -/
def partialEscapeTail : List Char → Bool
  | ['\x1b'] => true
  | ['\x1b', '['] => true
  | '\x1b' :: '[' :: '?' :: digits => digits.all Char.isDigit && digits.length ≤ 4
  | _ => false

/-- `chunk.slice(chunk.lastIndexOf("\x1b"))`, if there is one. -/
def fromLastEscape : List Char → Option (List Char)
  | [] => none
  | c :: rest =>
    match fromLastEscape rest with
    | some tail => some tail
    | none => if c = '\x1b' then some (c :: rest) else none

/-- The unterminated sequence at the end of a chunk. -/
def carryPartialEscape (chunk : List Char) : List Char :=
  match fromLastEscape chunk with
  | none => []
  | some tail => if partialEscapeTail tail then tail else []

/-- `chunk.slice(chunk.lastIndexOf("\x1b]"))`, if there is one. -/
def fromLastOsc : List Char → Option (List Char)
  | [] => none
  | c :: rest =>
    match fromLastOsc rest with
    | some tail => some tail
    | none => if c = '\x1b' ∧ rest.head? = some ']' then some (c :: rest) else none

/-- `/\x07|\x1b\\/.test(text)`. -/
def oscTerminated : List Char → Bool
  | [] => false
  | c :: rest => c = '\x07' || (c = '\x1b' && rest.head? = some '\\') || oscTerminated rest

/-- The unterminated OSC sequence at the end of a chunk. -/
def carryPartialOsc (chunk : List Char) : List Char :=
  match fromLastOsc chunk with
  | none => if chunk.getLast? = some '\x1b' then ['\x1b'] else []
  | some tail => if oscTerminated (tail.drop 2) then [] else tail

/-! ## The tracker -/

/-- `StoredTermModes`: the modes of a terminal. -/
structure TermModes where
  inAltScreen : Bool
  mouseTracking : MouseTrackingState
  bracketedPaste : Bool
  deriving DecidableEq, Repr

/-- The modes of a terminal that was just opened. -/
def TermModes.initial : TermModes := ⟨false, initialMouseTrackingState, false⟩

/-- The stored form of the modes, as it is read back: any strings, any field missing. -/
structure StoredTermModes where
  inAltScreen : Option Bool
  mouseTracking : Option (String × String)
  bracketedPaste : Option Bool
  deriving DecidableEq, Repr

/-- `AltScreenResult`. -/
structure AltScreenResult where
  mode : ScreenMode
  endIndex : Nat
  flipped : Bool
  exited : Bool
  deriving DecidableEq, Repr

/-- `TerminalModeTracker`. -/
structure TerminalModeTracker extends TermModes where
  detectCarry : List Char
  cwdDetectCarry : List Char
  deriving DecidableEq, Repr

namespace TerminalModeTracker

def initial : TerminalModeTracker := ⟨TermModes.initial, [], []⟩

variable (t : TerminalModeTracker)

def carriesEmpty : Bool := t.detectCarry = [] && t.cwdDetectCarry = []

def detectCarryLength : Nat := t.detectCarry.length

def detectChunk (data : List Char) : List Char := t.detectCarry ++ data

def applyAltScreen (detectChunk : List Char) : TerminalModeTracker × Option AltScreenResult :=
  match detectAltScreenSwitch detectChunk with
  | none => (t, none)
  | some sw =>
    let nowInAltScreen := sw.mode == .alt
    let flipped := nowInAltScreen != t.inAltScreen
    let exited := flipped && t.inAltScreen && !nowInAltScreen
    (if flipped then { t with inAltScreen := nowInAltScreen } else t,
      some ⟨sw.mode, sw.endIndex, flipped, exited⟩)

def applyInputModes (detectChunk : List Char) : TerminalModeTracker :=
  { t with
    mouseTracking := applyMouseModeChanges detectChunk t.mouseTracking
    bracketedPaste := (detectBracketedPaste detectChunk).getD t.bracketedPaste
    detectCarry := carryPartialEscape detectChunk }

/-- What `detectCwd` does to the tracker. -/
def detectCwd (data : List Char) : TerminalModeTracker :=
  { t with cwdDetectCarry := carryPartialOsc (t.cwdDetectCarry ++ data) }

def clearDetectCarry : TerminalModeTracker := { t with detectCarry := [] }

def clearCwdDetectCarry : TerminalModeTracker := { t with cwdDetectCarry := [] }

end TerminalModeTracker

/-- The protocols by their names in the store. -/
def mouseProtocolByName : String → Option MouseProtocol
  | "NONE" => some .none
  | "X10" => some .x10
  | "VT200" => some .vt200
  | "DRAG" => some .drag
  | "ANY" => some .any
  | _ => none

/-- The encodings by their names in the store. -/
def mouseEncodingByName : String → Option MouseEncoding
  | "DEFAULT" => some .default
  | "SGR" => some .sgr
  | "SGR_PIXELS" => some .sgrPixels
  | _ => none

namespace TerminalModeTracker

variable (t : TerminalModeTracker)

/-- `restore`: a stored pair of names outside the enumerations leaves the mouse state alone,
and bracketed paste is never switched on. -/
def restore (termModes : Option StoredTermModes) : TerminalModeTracker :=
  match termModes with
  | none => t
  | some stored =>
    let t := match stored.inAltScreen with
      | none => t
      | some inAltScreen =>
        let names := stored.mouseTracking.getD ("NONE", "DEFAULT")
        match mouseProtocolByName names.1, mouseEncodingByName names.2 with
        | some protocol, some encoding =>
          { t with inAltScreen := inAltScreen, mouseTracking := ⟨protocol, encoding⟩ }
        | _, _ => { t with inAltScreen := inAltScreen }
    if stored.bracketedPaste.isSome then { t with bracketedPaste := false } else t

/-- `snapshot`. -/
def snapshot : TermModes := t.toTermModes

end TerminalModeTracker

/-! ## The preamble -/

/-- `MOUSE_PROTOCOL_ENABLE`. -/
def mouseProtocolEnable : MouseProtocol → String
  | .none => ""
  | .x10 => "\x1b[?9h"
  | .vt200 => "\x1b[?1000h"
  | .drag => "\x1b[?1002h"
  | .any => "\x1b[?1003h"

/-- `MOUSE_ENCODING_ENABLE`. -/
def mouseEncodingEnable : MouseEncoding → String
  | .default => ""
  | .sgr => "\x1b[?1006h"
  | .sgrPixels => "\x1b[?1016h"

/-- The text that puts a fresh terminal into the modes. -/
def TermModes.preamble (m : TermModes) : String :=
  (if m.inAltScreen then "\x1b[?1049h" else "\x1b[?1049l") ++
    mouseProtocolEnable m.mouseTracking.protocol ++ mouseEncodingEnable m.mouseTracking.encoding ++
      (if m.bracketedPaste then "\x1b[?2004h" else "")

/-- `buildPreamble`. -/
def TerminalModeTracker.buildPreamble (t : TerminalModeTracker) : List UInt8 :=
  Text.utf8 t.preamble.toList

end Terminal
end Mullion
