import Mullion.Lib.Register
import Mullion.Lib.Run
import Mullion.Terminal.Scan
import Mullion.Terminal.Session

/-!
# What a replay leaves a terminal in

A terminal that attaches is fed `getScrollback()`: the preamble, which states the tracked modes, and
then the buffered bytes, whose own switches replay over it. The purpose of the preamble is that the
terminal ends up in the tracked modes.

Each mode is a register that the switches of a stream write. `replay` is a fresh terminal, as the
fold of the switches it reads, and the tracker is the same fold over the chunks, read with the carry
(`snapshot_observe`). The preamble sets every register to the tracked value, so the replay restores
the modes exactly when the switches in the ring write the tracked value last, or do not write it
(`restores_iff`). The ring loses chunks at its old end, which does no harm, as a later switch is
what counts. But a chunk that stays out of the ring and changes a mode that the ring also writes
does harm, and so does a switch that is torn between what the ring holds and what it does not.
`replay_restores` has the law along every run without these; along a run with a chunk of the first
kind it does not hold (`suppressed_switch_is_lost`).
-/

namespace Mullion
namespace Terminal

open Register

/-! ## A terminal -/

/-- What a switch writes to the screen mode, if anything. -/
def screenWrite (sw : Switch) : Option Bool :=
  if sw.code ∈ altScreenCodes then some sw.set else none

/-- What a switch writes to the mouse protocol. -/
def protocolWrite (sw : Switch) : Option MouseProtocol :=
  (mouseProtocolByCode sw.code).map fun p => if sw.set then p else .none

/-- What a switch writes to the mouse encoding. -/
def encodingWrite (sw : Switch) : Option MouseEncoding :=
  match mouseEncodingByCode sw.code with
  | some e => some (if sw.set then e else .default)
  | none => if sw.code ∈ ["1005", "1015"] ∧ sw.set = false then some .default else none

/-- What a switch writes to the paste mode. -/
def pasteWrite (sw : Switch) : Option Bool :=
  if sw.code ∈ bracketedPasteCodes then some sw.set else none

/-- The modes of a terminal, each a register. -/
inductive Axis
  | screen
  | protocol
  | encoding
  | paste
  deriving DecidableEq, Repr

/-- The values of a mode. -/
abbrev Axis.Value : Axis → Type
  | .screen => Bool
  | .protocol => MouseProtocol
  | .encoding => MouseEncoding
  | .paste => Bool

/-- What a switch writes to a mode, if anything. -/
def Axis.write : (a : Axis) → Switch → Option a.Value
  | .screen => screenWrite
  | .protocol => protocolWrite
  | .encoding => encodingWrite
  | .paste => pasteWrite

def TermModes.get (m : TermModes) : (a : Axis) → a.Value
  | .screen => m.inAltScreen
  | .protocol => m.mouseTracking.protocol
  | .encoding => m.mouseTracking.encoding
  | .paste => m.bracketedPaste

theorem TermModes.ext_get {m m' : TermModes} (h : ∀ a, m.get a = m'.get a) : m = m' := by
  obtain ⟨screen, ⟨protocol, encoding⟩, paste⟩ := m
  obtain ⟨screen', ⟨protocol', encoding'⟩, paste'⟩ := m'
  have hs : screen = screen' := h .screen
  have hp : protocol = protocol' := h .protocol
  have he : encoding = encoding' := h .encoding
  have hb : paste = paste' := h .paste
  rw [hs, hp, he, hb]

/-- A terminal obeys a switch. -/
def TermModes.apply (m : TermModes) (sw : Switch) : TermModes where
  inAltScreen := (screenWrite sw).getD m.inAltScreen
  mouseTracking :=
    { protocol := (protocolWrite sw).getD m.mouseTracking.protocol
      encoding := (encodingWrite sw).getD m.mouseTracking.encoding }
  bracketedPaste := (pasteWrite sw).getD m.bracketedPaste

/-- All the codes that the detectors know. -/
def switchCodes : List String := altScreenCodes ++ mouseModeCodes ++ bracketedPasteCodes

/-- The switches of a text that the detectors recognise. -/
def recognised (text : List Char) : List Switch := Text.found (switchPattern switchCodes) text

/-- A fresh terminal that is fed the bytes. -/
def replay (bytes : List UInt8) : TermModes :=
  (recognised (bytesText bytes)).foldl TermModes.apply TermModes.initial

theorem get_apply (m : TermModes) (sw : Switch) (a : Axis) :
    (m.apply sw).get a = (a.write sw).getD (m.get a) := by
  cases a <;> rfl

/-- Each mode is a register of its own. -/
theorem get_foldl_apply (m : TermModes) (log : List Switch) (a : Axis) :
    (log.foldl TermModes.apply m).get a = (lastWrite a.write log).getD (m.get a) := by
  rw [← foldl_getD]
  induction log generalizing m with
  | nil => rfl
  | cons sw log ih => rw [List.foldl_cons, ih, get_apply, List.foldl_cons]

/-! ## The codes -/

theorem isCode_switchCodes : ∀ code ∈ switchCodes, IsCode code := by decide

theorem recognised_eq (text : List Char) :
    recognised text = (switches text).filter fun sw => sw.code ∈ switchCodes :=
  found_switchPattern isCode_switchCodes text

theorem mem_mouseModeCodes_of_protocol {code : String} {p : MouseProtocol}
    (h : mouseProtocolByCode code = some p) : code ∈ mouseModeCodes := by
  unfold mouseProtocolByCode at h
  split at h <;> cases h <;> decide

theorem mem_mouseModeCodes_of_encoding {code : String} {e : MouseEncoding}
    (h : mouseEncodingByCode code = some e) : code ∈ mouseModeCodes := by
  unfold mouseEncodingByCode at h
  split at h <;> cases h <;> decide

theorem mem_mouseModeCodes_of_protocolWrite {sw : Switch} {p : MouseProtocol}
    (h : protocolWrite sw = some p) : sw.code ∈ mouseModeCodes := by
  obtain ⟨p', hp, -⟩ := Option.map_eq_some_iff.1 h
  exact mem_mouseModeCodes_of_protocol hp

theorem mem_mouseModeCodes_of_encodingWrite {sw : Switch} {e : MouseEncoding}
    (h : encodingWrite sw = some e) : sw.code ∈ mouseModeCodes := by
  rw [encodingWrite] at h
  cases he : mouseEncodingByCode sw.code with
  | some e => exact mem_mouseModeCodes_of_encoding he
  | none =>
    rw [he] at h
    simp only at h
    split_ifs at h with hc
    have hsub : ∀ code ∈ ["1005", "1015"], code ∈ mouseModeCodes := by decide
    exact hsub _ hc.1

/-- A switch that writes a mode has one of the codes. -/
theorem mem_switchCodes_of_write {sw : Switch} {a : Axis} {x : a.Value}
    (h : a.write sw = some x) : sw.code ∈ switchCodes := by
  have hmouse : sw.code ∈ mouseModeCodes → sw.code ∈ switchCodes := fun hm =>
    List.mem_append_left _ (List.mem_append_right _ hm)
  cases a with
  | screen =>
    rw [Axis.write, screenWrite] at h
    split_ifs at h with hc
    exact List.mem_append_left _ (List.mem_append_left _ hc)
  | protocol => exact hmouse (mem_mouseModeCodes_of_protocolWrite h)
  | encoding => exact hmouse (mem_mouseModeCodes_of_encodingWrite h)
  | paste =>
    rw [Axis.write, pasteWrite] at h
    split_ifs at h with hc
    exact List.mem_append_right _ hc

/-- Only the recognised switches write. -/
theorem lastWrite_recognised (text : List Char) (a : Axis) :
    lastWrite a.write (recognised text) = lastWrite a.write (switches text) := by
  rw [lastWrite, lastWrite, recognised_eq, List.filterMap_filter]
  congr 1
  apply List.filterMap_congr
  intro sw _
  split_ifs with hc
  · rfl
  · cases h : a.write sw with
    | none => rfl
    | some x => exact absurd (by simpa using mem_switchCodes_of_write h) hc

/-! ## The detectors -/

/-- The last match of an expression over some codes is the last write of what it reports. -/
theorem getLast_found (codes : List String) (hcodes : ∀ code ∈ codes, IsCode code)
    {V : Type} (f : Switch → V) (chunk : List Char) :
    ((Text.found (switchPattern codes) chunk).map f).getLast? =
      lastWrite (fun sw => if sw.code ∈ codes then some (f sw) else none) (switches chunk) := by
  rw [found_switchPattern hcodes, lastWrite]
  congr 1
  induction switches chunk with
  | nil => rfl
  | cons sw log ih =>
    rw [List.filter_cons, List.filterMap_cons]
    by_cases hc : sw.code ∈ codes
    · simp only [hc, decide_true, if_true, List.map_cons]
      rw [ih]
    · simp only [hc, decide_false, if_false]
      exact ih

/-- A fold that keeps the last match. -/
theorem foldl_keep_last {A V : Type} (f : A → V) (l : List A) (o : Option V) :
    l.foldl (fun _ a => some (f a)) o = (l.map f).getLast?.or o := by
  induction l using List.reverseRecOn with
  | nil => rfl
  | append_singleton l a ih => simp

theorem detectAltScreenSwitch_mode (chunk : List Char) :
    (detectAltScreenSwitch chunk).map (fun sw => sw.mode == .alt) =
      lastWrite screenWrite (switches chunk) := by
  rw [detectAltScreenSwitch, foldl_keep_last, Option.or_none, ← List.getLast?_map, List.map_map]
  have h := getLast_found altScreenCodes (by decide) Switch.set chunk
  rw [Text.found, List.map_map] at h
  refine Eq.trans ?_ h
  congr 1
  apply List.map_congr_left
  rintro ⟨⟨code, set⟩, n⟩ -
  cases set <;> rfl

theorem detectBracketedPaste_eq (chunk : List Char) :
    detectBracketedPaste chunk = lastWrite pasteWrite (switches chunk) := by
  rw [detectBracketedPaste, foldl_keep_last, Option.or_none]
  have h := getLast_found bracketedPasteCodes (by decide) Switch.set chunk
  rw [Text.found, List.map_map] at h
  exact h

/-- A mouse-mode switch writes the two registers of the mouse state. -/
theorem applyMouseMode_eq (state : MouseTrackingState) {sw : Switch}
    (h : sw.code ∈ mouseModeCodes) :
    applyMouseMode state sw =
      ⟨(protocolWrite sw).getD state.protocol,
        (encodingWrite sw).getD state.encoding⟩ := by
  obtain ⟨code, set⟩ := sw
  simp only [mouseModeCodes, List.mem_cons, List.not_mem_nil, or_false] at h
  rcases h with rfl | rfl | rfl | rfl | rfl | rfl | rfl | rfl <;> cases set <;> rfl

theorem applyMouseModeChanges_eq (chunk : List Char) (prev : MouseTrackingState) :
    applyMouseModeChanges chunk prev =
      ⟨(lastWrite protocolWrite (switches chunk)).getD prev.protocol,
        (lastWrite encodingWrite (switches chunk)).getD prev.encoding⟩ := by
  have hfold : applyMouseModeChanges chunk prev =
      (Text.found (switchPattern mouseModeCodes) chunk).foldl applyMouseMode prev := by
    rw [applyMouseModeChanges, Text.found, List.foldl_map]
  rw [hfold, found_switchPattern (by decide), ← foldl_getD, ← foldl_getD]
  clear hfold
  induction switches chunk generalizing prev with
  | nil => rfl
  | cons sw log ih =>
    by_cases hc : sw.code ∈ mouseModeCodes
    · rw [List.filter_cons_of_pos (by simpa using hc), List.foldl_cons, ih,
        applyMouseMode_eq prev hc]
      rfl
    · have hp : protocolWrite sw = none :=
        Option.eq_none_iff_forall_ne_some.2 fun p h => hc (mem_mouseModeCodes_of_protocolWrite h)
      have he : encodingWrite sw = none :=
        Option.eq_none_iff_forall_ne_some.2 fun e h => hc (mem_mouseModeCodes_of_encodingWrite h)
      rw [List.filter_cons_of_neg (by simpa using hc), ih, List.foldl_cons, List.foldl_cons, hp, he]
      rfl

/-- **The tracker.** A chunk of output does to the tracked modes what its switches do to a
terminal. -/
theorem get_observe (t : TerminalModeTracker) (chunk data : List Char) (a : Axis) :
    (((t.applyAltScreen chunk).1.applyInputModes chunk).detectCwd data).snapshot.get a =
      (lastWrite a.write (recognised chunk)).getD (t.snapshot.get a) := by
  have hrest : (t.applyAltScreen chunk).1.mouseTracking = t.mouseTracking ∧
      (t.applyAltScreen chunk).1.bracketedPaste = t.bracketedPaste := by
    rw [TerminalModeTracker.applyAltScreen]
    cases detectAltScreenSwitch chunk with
    | none => exact ⟨rfl, rfl⟩
    | some sw =>
      simp only
      split_ifs <;> exact ⟨rfl, rfl⟩
  rw [lastWrite_recognised]
  cases a with
  | screen =>
    change (t.applyAltScreen chunk).1.inAltScreen =
      (lastWrite screenWrite (switches chunk)).getD t.inAltScreen
    rw [← detectAltScreenSwitch_mode, TerminalModeTracker.applyAltScreen]
    cases detectAltScreenSwitch chunk with
    | none => rfl
    | some sw =>
      simp only [Option.map_some, Option.getD_some]
      split_ifs with hflip
      · rfl
      · have : (sw.mode == .alt) = t.inAltScreen := by simpa using hflip
        exact this.symm
  | protocol =>
    change (applyMouseModeChanges chunk (t.applyAltScreen chunk).1.mouseTracking).protocol =
      (lastWrite protocolWrite (switches chunk)).getD t.mouseTracking.protocol
    rw [applyMouseModeChanges_eq, hrest.1]
  | encoding =>
    change (applyMouseModeChanges chunk (t.applyAltScreen chunk).1.mouseTracking).encoding =
      (lastWrite encodingWrite (switches chunk)).getD t.mouseTracking.encoding
    rw [applyMouseModeChanges_eq, hrest.1]
  | paste =>
    change (detectBracketedPaste chunk).getD (t.applyAltScreen chunk).1.bracketedPaste =
      (lastWrite pasteWrite (switches chunk)).getD t.bracketedPaste
    rw [detectBracketedPaste_eq, hrest.2]

/-- A text without `ESC` has no switches, and leaves nothing open. -/
theorem plain_text {data : List Char} (h : '\x1b' ∉ data) :
    switches data = [] ∧ scan data = .idle := by
  have hinert : scanner.Inert data := fun c hc => by
    rw [scanner_opens, decide_eq_false_iff_not]
    rintro rfl
    exact h hc
  exact ⟨hinert.outputs_start, hinert.final_start⟩

/-- The tracked modes after a chunk, whether or not the detectors looked at it. -/
theorem get_deliver (s : Session) (data : List Char) (a : Axis) :
    (s.deliver data).1.modes.snapshot.get a =
      (lastWrite a.write (recognised (s.modes.detectCarry ++ data))).getD
        (s.modes.snapshot.get a) := by
  rw [Session.deliver_modes]
  split_ifs with hplain
  · simp only [Session.plainChunk, TerminalModeTracker.carriesEmpty, Bool.and_eq_true,
      decide_eq_true_eq] at hplain
    obtain ⟨⟨⟨hcarry, -⟩, hesc⟩, -⟩ := hplain
    rw [hcarry, List.nil_append, lastWrite_recognised, (plain_text hesc).1]
    rfl
  · exact get_observe _ _ _ a

/-! ## The replay -/

/-- Each mode is settled by the switches in the ring. -/
def Settles (s : Session) : Prop :=
  ∀ a : Axis, Settled a.write (s.modes.snapshot.get a)
    (recognised (bytesText s.scrollbackBuffer.contents))

/-- The replay leaves a fresh terminal in the tracked modes. -/
def Restores (s : Session) : Prop := replay s.getScrollback = s.modes.snapshot

instance (s : Session) : Decidable (Restores s) := inferInstanceAs (Decidable (_ = _))

/-- A text that takes a terminal from `m` to `m'` and opens no switch at its end. -/
def Turns (text : String) (m m' : TermModes) : Prop :=
  scan text.toList = .idle ∧ (switches text.toList).foldl TermModes.apply m = m'

theorem Turns.append {text text' : String} {m m' m'' : TermModes} (h : Turns text m m')
    (h' : Turns text' m' m'') : Turns (text ++ text') m m'' := by
  obtain ⟨hscan, hfold⟩ := h
  obtain ⟨hscan', hfold'⟩ := h'
  rw [Turns, String.toList_append, scan_append, switches_append, hscan, List.foldl_append, hfold]
  exact ⟨hscan', hfold'⟩

theorem turns_screen (m : TermModes) (b : Bool) :
    Turns (if b then "\x1b[?1049h" else "\x1b[?1049l") m { m with inAltScreen := b } := by
  cases b <;> exact ⟨by decide, rfl⟩

theorem turns_protocol {m : TermModes} (h : m.mouseTracking.protocol = .none)
    (p : MouseProtocol) :
    Turns (mouseProtocolEnable p) m
      { m with mouseTracking := { m.mouseTracking with protocol := p } } := by
  obtain ⟨screen, ⟨protocol, encoding⟩, paste⟩ := m
  cases h
  cases p with
  | none => exact ⟨rfl, rfl⟩
  | x10 => exact ⟨by decide, rfl⟩
  | vt200 => exact ⟨by decide, rfl⟩
  | drag => exact ⟨by decide, rfl⟩
  | any => exact ⟨by decide, rfl⟩

theorem turns_encoding {m : TermModes} (h : m.mouseTracking.encoding = .default)
    (e : MouseEncoding) :
    Turns (mouseEncodingEnable e) m
      { m with mouseTracking := { m.mouseTracking with encoding := e } } := by
  obtain ⟨screen, ⟨protocol, encoding⟩, paste⟩ := m
  cases h
  cases e with
  | default => exact ⟨rfl, rfl⟩
  | sgr => exact ⟨by decide, rfl⟩
  | sgrPixels => exact ⟨by decide, rfl⟩

theorem turns_paste {m : TermModes} (h : m.bracketedPaste = false) (b : Bool) :
    Turns (if b then "\x1b[?2004h" else "") m { m with bracketedPaste := b } := by
  obtain ⟨screen, mouse, paste⟩ := m
  cases h
  cases b with
  | false => exact ⟨rfl, rfl⟩
  | true => exact ⟨by decide, rfl⟩

/-- The preamble alone puts a fresh terminal into the modes and opens no switch. -/
theorem turns_preamble (m : TermModes) : Turns m.preamble TermModes.initial m :=
  (((turns_screen TermModes.initial m.inAltScreen).append
    (turns_protocol rfl m.mouseTracking.protocol)).append
    (turns_encoding rfl m.mouseTracking.encoding)).append (turns_paste rfl m.bracketedPaste)

/-- A terminal that reads the preamble and then the ring goes from the tracked modes on. -/
theorem replay_getScrollback (s : Session) :
    replay s.getScrollback =
      (recognised (bytesText s.scrollbackBuffer.contents)).foldl TermModes.apply
        s.modes.snapshot := by
  obtain ⟨hscan, hfold⟩ := turns_preamble s.modes.snapshot
  have hpre : switches (bytesText s.getScrollback) =
      switches s.modes.snapshot.preamble.toList ++
        switches (bytesText s.scrollbackBuffer.contents) := by
    have hsplit : s.getScrollback =
        Text.utf8 s.modes.preamble.toList ++ s.scrollbackBuffer.contents := rfl
    rw [hsplit, bytesText_append, switches_append, scan_bytes]
    rw [TerminalModeTracker.snapshot] at hscan ⊢
    rw [hscan, switches, outputs_bytes]
    rfl
  apply TermModes.ext_get
  intro a
  rw [replay, get_foldl_apply, get_foldl_apply, lastWrite_recognised, lastWrite_recognised, hpre,
    lastWrite_append]
  have hget := congrArg (fun m => m.get a) hfold
  simp only [get_foldl_apply] at hget
  rw [← hget]
  cases lastWrite a.write (switches (bytesText s.scrollbackBuffer.contents)) with
  | none => rfl
  | some x => rfl

/-- **The replay.** It restores the modes exactly when the ring settles each of them. -/
theorem restores_iff (s : Session) : Restores s ↔ Settles s := by
  rw [Restores, replay_getScrollback]
  constructor
  · intro h a
    have hget := congrArg (fun m => m.get a) h
    simp only [get_foldl_apply, ← foldl_getD] at hget
    exact settled_iff_foldl.2 hget
  · intro h
    apply TermModes.ext_get
    intro a
    rw [get_foldl_apply, ← foldl_getD]
    exact settled_iff_foldl.1 (h a)

/-! ## Runs -/

/-- A session under observation: `stored` is all the text that its ring was ever given. -/
structure Observed where
  session : Session
  stored : List Char
  deriving DecidableEq, Repr

/-- What an event gives the ring. -/
def Session.stores (s : Session) : SessionEvent → List Char
  | .data now palette rawData =>
    let data := (s.answerQueries now palette rawData).2
    if s.pushesToScrollback data then data else []
  | _ => []

def Observed.next (o : Observed) (e : SessionEvent) : Option Observed :=
  (o.session.next e).map fun s => ⟨s, o.stored ++ o.session.stores e⟩

/-- A session that was just created. -/
def Observed.start (createdAt cols rows : Nat) (stored : Option StoredTermModes) : Observed :=
  ⟨Session.create createdAt cols rows stored, []⟩

/-- A chunk that stays out of the ring leaves each mode at its tracked value, unless the ring
has no switch of that mode. -/
def Quiet (o : Observed) : SessionEvent → Prop
  | .data now palette rawData =>
    let data := (o.session.answerQueries now palette rawData).2
    o.session.pushesToScrollback data = false → ∀ a : Axis,
      Settled a.write (o.session.modes.snapshot.get a)
        (recognised (o.session.modes.detectChunk data)) ∨
      lastWrite a.write (recognised (bytesText o.session.scrollbackBuffer.contents)) = none
  | _ => True

/-- No switch is torn: a chunk that goes into the ring writes the same to each mode after the
end of what the ring was given as after the carry of the tracker. -/
def Whole (o : Observed) : SessionEvent → Prop
  | .data now palette rawData =>
    let data := (o.session.answerQueries now palette rawData).2
    o.session.pushesToScrollback data = true → ∀ a : Axis,
      lastWrite a.write (recognised (carryPartialEscape o.stored ++ data)) =
        lastWrite a.write (recognised (o.session.modes.detectChunk data))
  | _ => True

/-- The ring holds the end of what it was given, and settles the tracked modes. -/
structure Observed.Inv (o : Observed) : Prop where
  settles : Settles o.session
  held : o.session.scrollbackBuffer.contents <:+ Text.utf8 o.stored

theorem inv_start (createdAt cols rows : Nat) (stored : Option StoredTermModes) :
    (Observed.start createdAt cols rows stored).Inv where
  settles := fun a x hx => by cases hx
  held := List.suffix_refl _

/-- Only output touches the modes and the ring. -/
theorem next_frame {s s' : Session} {e : SessionEvent} (h : s.next e = some s')
    (hdata : ∀ now palette rawData, e ≠ .data now palette rawData) :
    s'.modes.snapshot = s.modes.snapshot ∧ s'.scrollbackBuffer = s.scrollbackBuffer ∧
      s.stores e = [] := by
  cases e with
  | data now palette rawData => exact absurd rfl (hdata now palette rawData)
  | nudgeTimer =>
    obtain ⟨n, -, rfl⟩ := Option.map_eq_some_iff.1 h
    exact ⟨rfl, rfl, rfl⟩
  | resize cols rows => cases h; exact ⟨rfl, rfl, rfl⟩
  | requestRedraw => cases h; exact ⟨rfl, rfl, rfl⟩
  | attach => cases h; exact ⟨rfl, rfl, rfl⟩
  | exit => cases h; exact ⟨rfl, rfl, rfl⟩
  | kill => cases h; exact ⟨rfl, rfl, rfl⟩

/-- What the ring holds after a chunk writes what it wrote, then what the chunk writes after
all that the ring was given; eviction takes away from the front. -/
theorem recognised_push {b : ScrollbackBuffer} {stored : List Char}
    (held : b.contents <:+ Text.utf8 stored) (data : List Char) :
    recognised (bytesText (b.push (Text.utf8 data)).contents) <:+
      recognised (bytesText b.contents) ++ recognised (carryPartialEscape stored ++ data) := by
  have hpush : switches (bytesText (b.push (Text.utf8 data)).contents) <:+
      switches (bytesText b.contents ++ bytesText (Text.utf8 data)) := by
    rw [← bytesText_append]
    exact scanner.outputs_suffix ((b.contents_push (Text.utf8 data)).map _)
  have hcut : switches (bytesText b.contents ++ bytesText (Text.utf8 data)) <:+
      switches (bytesText b.contents) ++ switches (carryPartialEscape stored ++ data) := by
    have h := scanner.outputs_suffix_append (held.map Char.ofUInt8) (bytesText (Text.utf8 data))
    have hscan : scanner.final scanner.start (bytesText (Text.utf8 stored)) = scan stored :=
      scan_bytes stored
    rw [switches_carry_append, ← outputs_bytes, ← hscan]
    exact h
  rw [recognised_eq, recognised_eq, recognised_eq, ← List.filter_append]
  exact (hpush.trans hcut).filter _

/-- A chunk that goes into the ring whole keeps every mode settled. -/
theorem settles_pushed {o : Observed} (h : o.Inv) {data : List Char}
    (hpush : o.session.pushesToScrollback data = true)
    (hwhole : ∀ a : Axis, lastWrite a.write (recognised (carryPartialEscape o.stored ++ data)) =
      lastWrite a.write (recognised (o.session.modes.detectChunk data))) :
    Settles (o.session.deliver data).1 := by
  intro a
  rw [get_deliver, Session.deliver_scrollbackBuffer, if_pos hpush]
  have hsettled := (h.settles a).append (recognised (carryPartialEscape o.stored ++ data))
  rw [hwhole a] at hsettled
  exact hsettled.suffix (recognised_push h.held data)

/-- A quiet chunk that stays out of the ring keeps every mode settled. -/
theorem settles_suppressed {s : Session} (h : Settles s) {data : List Char}
    (hpush : s.pushesToScrollback data = false)
    (hquiet : ∀ a : Axis,
      Settled a.write (s.modes.snapshot.get a) (recognised (s.modes.detectChunk data)) ∨
      lastWrite a.write (recognised (bytesText s.scrollbackBuffer.contents)) = none) :
    Settles (s.deliver data).1 := by
  intro a
  rw [get_deliver, Session.deliver_scrollbackBuffer, if_neg (by simp [hpush])]
  rcases hquiet a with hsame | hnone
  · rw [Settled, TerminalModeTracker.detectChunk] at hsame
    cases hw : lastWrite a.write (recognised (s.modes.detectCarry ++ data)) with
    | none => exact h a
    | some x =>
      rw [Option.getD_some, hsame x hw]
      exact h a
  · intro x hx
    rw [hnone] at hx
    cases hx

theorem Observed.Inv.next {o o' : Observed} {e : SessionEvent} (h : o.Inv) (hquiet : Quiet o e)
    (hwhole : Whole o e) (hstep : o.next e = some o') : o'.Inv := by
  obtain ⟨s', hs, rfl⟩ := Option.map_eq_some_iff.1 hstep
  by_cases hdata : ∃ now palette rawData, e = .data now palette rawData
  · obtain ⟨now, palette, rawData, rfl⟩ := hdata
    cases hs
    simp only [Session.stores]
    simp only [Quiet, Whole] at hquiet hwhole
    change (⟨(o.session.deliver _).1, _⟩ : Observed).Inv
    generalize (o.session.answerQueries now palette rawData).2 = data at *
    cases hpush : o.session.pushesToScrollback data with
    | true =>
      refine ⟨settles_pushed h hpush (hwhole hpush), ?_⟩
      rw [Session.deliver_scrollbackBuffer, if_pos hpush, if_pos rfl, Text.utf8_append]
      obtain ⟨front, hfront⟩ := h.held
      refine (o.session.scrollbackBuffer.contents_push (Text.utf8 data)).trans ⟨front, ?_⟩
      rw [← List.append_assoc, hfront]
    | false =>
      refine ⟨settles_suppressed h.settles hpush (hquiet hpush), ?_⟩
      rw [Session.deliver_scrollbackBuffer, if_neg (by simp [hpush])]
      simpa using h.held
  · obtain ⟨hmodes, hring, hstores⟩ :=
      next_frame hs fun now palette rawData he => hdata ⟨now, palette, rawData, he⟩
    refine ⟨fun a => ?_, ?_⟩
    · simp only [hmodes, hring]
      exact h.settles a
    · simp only [hring, hstores, List.append_nil]
      exact h.held

/-- A chunk that is not quiet leaves a mode that the replay gets wrong. -/
theorem not_restores_of_not_quiet {o o' : Observed} {e : SessionEvent}
    (h : Restores o.session) (hquiet : ¬ Quiet o e) (hstep : o.next e = some o') :
    ¬ Restores o'.session := by
  obtain ⟨s', hs, rfl⟩ := Option.map_eq_some_iff.1 hstep
  cases e with
  | data now palette rawData =>
    cases hs
    simp only [Quiet, not_forall, not_or] at hquiet
    obtain ⟨hpush, a, hswitch, hheld⟩ := hquiet
    change ¬ Restores (o.session.deliver _).1
    generalize (o.session.answerQueries now palette rawData).2 = data at *
    rw [restores_iff] at h ⊢
    intro h'
    have hnew := h' a
    rw [get_deliver, Session.deliver_scrollbackBuffer, if_neg (by simp [hpush])] at hnew
    simp only [Settled, not_forall] at hswitch
    obtain ⟨x, hx, hne⟩ := hswitch
    obtain ⟨y, hy⟩ := Option.ne_none_iff_exists'.1 hheld
    rw [TerminalModeTracker.detectChunk] at hx
    rw [hx, Option.getD_some] at hnew
    exact hne ((hnew y hy).symm.trans (h a y hy))
  | _ => exact absurd trivial hquiet

/-- **Replay.** Along a run in which no chunk that stays out of the ring changes a mode that
the ring writes, and no switch is torn, the replay restores the tracked modes in every state.
Along a run with a chunk of the first kind it does not. -/
theorem replay_restores (createdAt cols rows : Nat) (stored : Option StoredTermModes)
    (events : List SessionEvent) :
    (Run.Meets Observed.next (fun o e => Quiet o e ∧ Whole o e)
        (Observed.start createdAt cols rows stored) events →
      Run.Along Observed.next (fun o => Restores o.session)
        (Observed.start createdAt cols rows stored) events) ∧
    (Run.Along Observed.next (fun o => Restores o.session)
        (Observed.start createdAt cols rows stored) events →
      Run.Meets Observed.next Quiet (Observed.start createdAt cols rows stored) events) := by
  constructor
  · exact Run.along_of_invariant (I := Observed.Inv)
      (fun o e o' h hC hstep => h.next hC.1 hC.2 hstep)
      (fun o h => (restores_iff o.session).2 h.settles) (inv_start createdAt cols rows stored)
  · exact Run.meets_of_along fun o e o' h hC hstep => not_restores_of_not_quiet h hC hstep

/-- A program enters the alternate screen, a browser reattaches, and the program leaves the
screen while the repaint is kept out of the ring. -/
def leftDuringRepaint : List SessionEvent :=
  [.data 0 none "\x1b[?1049h".toList, .requestRedraw, .data 1 none "\x1b[?1049l".toList]

/-- **A switch in the window of a repaint is lost.** The preamble states the primary screen, and
the entry that is still in the ring takes the terminal back to the alternate one. -/
theorem suppressed_switch_is_lost :
    ¬ ∀ (createdAt cols rows : Nat) (stored : Option StoredTermModes)
        (events : List SessionEvent),
      Run.Along Observed.next (fun o => Restores o.session)
        (Observed.start createdAt cols rows stored) events := by
  intro h
  obtain ⟨o, ho⟩ : ∃ o, Run.play Observed.next (Observed.start 0 80 24 none) leftDuringRepaint =
      some o := ⟨_, rfl⟩
  have hlast := (h 0 80 24 none leftDuringRepaint).last ho
  have hlost : (Run.play Observed.next (Observed.start 0 80 24 none) leftDuringRepaint).all
      (fun o => decide (Restores o.session)) = false := by decide +kernel
  rw [ho] at hlost
  simp [hlast] at hlost

end Terminal
end Mullion
