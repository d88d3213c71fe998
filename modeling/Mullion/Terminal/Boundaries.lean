import Mullion.Terminal.Replay

/-!
# The tracked modes and the boundaries of reads

A `TerminalModeTracker` is fed the output in the pieces it was read in, and looks for mode changes
in each piece with what it carries over from the one before. Where the output is cut should make no
difference.

`modeChanges` are the sequences `ESC [ ? numbers h` and `… l` of a text, with any numbers between
`;`, and the switches they ask a terminal for. The detectors look for fixed texts, and the switches
they find in a text are the mode changes of one number (`switches_eq`). A change of several numbers
is not looked for (`combined_is_not_tracked`). What the carry holds is the beginning of a sequence
and nothing that would be found, so a piece with its carry has the switches that end in the piece.
Each mode is a register which the last of its switches sets, and so the tracked modes are the fold
of the switches of the whole output, wherever it is cut (`tracked_exact`).
-/

namespace Mullion
namespace Terminal

open Register

/-! ## Feeding a tracker -/

namespace TerminalModeTracker

/-- One piece: `detectChunk`, `applyAltScreen`, `applyInputModes`. -/
def feed (t : TerminalModeTracker) (data : List Char) : TerminalModeTracker :=
  (t.applyAltScreen (t.detectChunk data)).1.applyInputModes (t.detectChunk data)

/-- All pieces. -/
def feedAll (t : TerminalModeTracker) (pieces : List (List Char)) : TerminalModeTracker :=
  pieces.foldl feed t

variable (t : TerminalModeTracker)

theorem detectCarry_feed (data : List Char) :
    (t.feed data).detectCarry = carryPartialEscape (t.detectCarry ++ data) := rfl

theorem get_feed (data : List Char) (a : Axis) :
    (t.feed data).snapshot.get a =
      (lastWrite a.write (switches (t.detectCarry ++ data))).getD (t.snapshot.get a) := by
  rw [← lastWrite_recognised]
  exact get_observe t (t.detectCarry ++ data) data a

variable {t}

/-- The tracked modes are those of a reader of all that was fed. -/
theorem get_feedAll {before : List Char} (ht : t.detectCarry = carryPartialEscape before)
    (pieces : List (List Char)) (a : Axis) :
    (t.feedAll pieces).snapshot.get a =
      (lastWrite a.write (scanner.outputs (scan before) pieces.flatten)).getD
        (t.snapshot.get a) := by
  induction pieces generalizing t before with
  | nil => rfl
  | cons data pieces ih =>
    have hcarry : (t.feed data).detectCarry = carryPartialEscape (before ++ data) := by
      rw [detectCarry_feed, ht, carryPartialEscape_eq, scan_carry_append, ← carryPartialEscape_eq]
    rw [feedAll, List.foldl_cons, ← feedAll, ih hcarry, get_feed, ht, switches_carry_append,
      List.flatten_cons, Recognizer.outputs_append, scan_append, lastWrite_append]
    cases lastWrite a.write (scanner.outputs (scanner.final (scan before) data) pieces.flatten) with
    | none => rfl
    | some x => rfl

end TerminalModeTracker

/-! ## Mode changes -/

/-- A sequence `ESC [ ? numbers h` (DECSET) or `ESC [ ? numbers l` (DECRST). -/
structure ModeChange where
  numbers : List (List Char)
  set : Bool
  deriving DecidableEq, Repr

/-- The switches that a terminal makes, one for each number. -/
def ModeChange.switches (d : ModeChange) : List Switch :=
  d.numbers.map fun digits => ⟨String.ofList (digits.dropWhile (· = '0')), d.set⟩

/-- One number, without a leading zero. -/
def ModeChange.single (d : ModeChange) : Bool :=
  match d.numbers with
  | [digits] => digits.head? ≠ some '0'
  | _ => false

/-- How far into a mode change the text is. -/
inductive Progress
  | idle
  | escape
  | bracket
  | numbers (front : List (List Char)) (last : List Char)
  deriving DecidableEq, Repr

namespace Progress

/-- One character that is not `ESC`. -/
def next : Progress → Char → Progress × Option ModeChange
  | .idle, _ => (.idle, none)
  | .escape, c => (if c = '[' then .bracket else .idle, none)
  | .bracket, c => (if c = '?' then .numbers [] [] else .idle, none)
  | .numbers front last, c =>
    if c.isDigit then (.numbers front (last ++ [c]), none)
    else if c = ';' then (.numbers (front ++ [last]) [], none)
    else if c = 'h' then (.idle, some ⟨front ++ [last], true⟩)
    else if c = 'l' then (.idle, some ⟨front ++ [last], false⟩)
    else (.idle, none)

/-- One character. -/
def step (q : Progress) (c : Char) : Progress × Option ModeChange :=
  if c = '\x1b' then (.escape, none) else q.next c

end Progress

/-- The recogniser of mode changes. -/
def changeScanner : Recognizer Char ModeChange Progress where
  start := .idle
  step := Progress.step
  opens c := c = '\x1b'
  step_opens q c h := by simp_all [Progress.step]
  step_start c h := by simp_all [Progress.step, Progress.next]

/-- The mode changes of a text. -/
def modeChanges (text : List Char) : List ModeChange := changeScanner.outputs .idle text

/-! ## What the detectors look for -/

/-- The switch that the detectors look for. -/
def ModeChange.sought (d : ModeChange) : Option Switch :=
  match d.numbers with
  | [digits] => if digits.length ≤ 4 then some ⟨String.ofList digits, d.set⟩ else none
  | _ => none

/-- The state of the detectors' recogniser. -/
def Progress.scan : Progress → Scan
  | .idle => .idle
  | .escape => .escape
  | .bracket => .bracket
  | .numbers [] last => if last.length ≤ 4 then .param last else .idle
  | .numbers _ _ => .idle

theorem scan_next (q : Progress) (c : Char) :
    q.scan.next c = ((q.next c).1.scan, (q.next c).2.bind ModeChange.sought) := by
  cases q with
  | idle => rfl
  | escape =>
    rw [Progress.next, Progress.scan, Scan.next]
    split_ifs <;> rfl
  | bracket =>
    rw [Progress.next, Progress.scan, Scan.next]
    split_ifs <;> rfl
  | numbers front last =>
    cases front with
    | cons first front =>
      rw [Progress.next, Progress.scan, Scan.next]
      · split_ifs
        · rfl
        · rfl
        · cases front <;> rfl
        · cases front <;> rfl
        · rfl
      · exact fun h => absurd h (List.cons_ne_nil _ _)
    | nil =>
      have hsought (set : Bool) : ModeChange.sought ⟨[] ++ [last], set⟩ =
          if last.length ≤ 4 then some ⟨String.ofList last, set⟩ else none := rfl
      rw [Progress.next, Progress.scan]
      by_cases hlen : last.length ≤ 4
      · rw [if_pos hlen, Scan.next]
        by_cases hdigit : c.isDigit = true
        · rw [if_pos hdigit]
          by_cases hroom : last.length < 4
          · rw [if_pos ⟨hdigit, hroom⟩, Progress.scan, List.length_append, List.length_singleton,
              if_pos (by omega)]
            rfl
          · have hne (d : Char) (hd : d.isDigit = false) : c ≠ d := by
              rintro rfl
              rw [hd] at hdigit
              cases hdigit
            rw [if_neg fun h => hroom h.2, if_neg (hne 'h' rfl), if_neg (hne 'l' rfl),
              Progress.scan, List.length_append, List.length_singleton, if_neg (by omega)]
            rfl
        · rw [if_neg fun h => hdigit h.1, if_neg hdigit]
          by_cases hsemi : c = ';'
          · subst hsemi
            rfl
          rw [if_neg hsemi]
          split_ifs
          · rw [Option.bind_some, hsought, if_pos hlen]
            rfl
          · rw [Option.bind_some, hsought, if_pos hlen]
            rfl
          · rfl
      · rw [if_neg hlen, Scan.next]
        split_ifs
        · rw [Progress.scan, List.length_append, List.length_singleton, if_neg (by omega)]
          rfl
        · rfl
        · rw [Option.bind_some, hsought, if_neg hlen]
          rfl
        · rw [Option.bind_some, hsought, if_neg hlen]
          rfl
        · rfl

theorem outputs_scan (q : Progress) (text : List Char) :
    scanner.outputs q.scan text = (changeScanner.outputs q text).filterMap ModeChange.sought := by
  induction text generalizing q with
  | nil => rfl
  | cons c text ih =>
    rw [Recognizer.outputs_cons, Recognizer.outputs_cons, List.filterMap_append, ← ih]
    have hstep : scanner.step q.scan c =
        ((changeScanner.step q c).1.scan, (changeScanner.step q c).2.bind ModeChange.sought) := by
      change q.scan.step c = ((q.step c).1.scan, (q.step c).2.bind ModeChange.sought)
      rw [Scan.step, Progress.step]
      split_ifs
      · rfl
      · exact scan_next q c
    rw [hstep]
    cases (changeScanner.step q c).2 with
    | none => rfl
    | some d => cases hd : d.sought <;> simp [hd]

/-- The switches of a text are its mode changes of one number of at most four digits. -/
theorem switches_eq (text : List Char) :
    switches text = (modeChanges text).filterMap ModeChange.sought := outputs_scan .idle text

/-- A switch whose code is not one of the known ones writes nothing. -/
theorem write_eq_none {sw : Switch} (h : sw.code ∉ switchCodes) (a : Axis) : a.write sw = none :=
  Option.eq_none_iff_forall_ne_some.2 fun _ hx => h (mem_switchCodes_of_write hx)

/-- What is looked for is what a terminal does with the changes of one number. -/
theorem write_sought (d : ModeChange) (a : Axis) :
    (d.sought.bind a.write).toList =
      if d.single then d.switches.filterMap a.write else [] := by
  obtain ⟨numbers, set⟩ := d
  rcases numbers with - | ⟨digits, - | ⟨more, numbers⟩⟩
  · rfl
  · have hlong : ∀ code ∈ switchCodes, code.toList.length ≤ 4 := fun code h =>
      (isCode_switchCodes code h).2
    have hzero : ∀ code ∈ switchCodes, code.toList.head? ≠ some '0' := by decide
    have hsought : ModeChange.sought ⟨[digits], set⟩ =
        if digits.length ≤ 4 then some ⟨String.ofList digits, set⟩ else none := rfl
    rw [hsought]
    by_cases hsingle : digits.head? = some '0'
    · -- with a leading zero it is none of the codes
      have hnone : a.write ⟨String.ofList digits, set⟩ = none := by
        refine write_eq_none (fun hmem => hzero _ hmem ?_) a
        rwa [String.toList_ofList]
      rw [if_neg (c := ModeChange.single _ = true) (by simp [ModeChange.single, hsingle])]
      split_ifs
      · rw [Option.bind_some, hnone]
        rfl
      · rfl
    · have hstrip : digits.dropWhile (· = '0') = digits := by
        cases digits with
        | nil => rfl
        | cons c digits => exact List.dropWhile_cons_of_neg (by simpa using hsingle)
      rw [if_pos (c := ModeChange.single _ = true) (by simp [ModeChange.single, hsingle]),
        ModeChange.switches, List.map_singleton, hstrip]
      split_ifs with hlen
      · rw [Option.bind_some]
        cases hw : a.write ⟨String.ofList digits, set⟩ <;> simp [hw]
      · have hnone : a.write ⟨String.ofList digits, set⟩ = none := by
          refine write_eq_none (fun hmem => hlen ?_) a
          simpa using hlong _ hmem
        rw [Option.bind_none, List.filterMap_cons_none hnone]
        rfl
  · rfl

theorem lastWrite_switches (text : List Char) (a : Axis) :
    lastWrite a.write (switches text) =
      lastWrite a.write (((modeChanges text).filter ModeChange.single).flatMap
        ModeChange.switches) := by
  rw [lastWrite, lastWrite, switches_eq, List.filterMap_filterMap]
  congr 1
  induction modeChanges text with
  | nil => rfl
  | cons d changes ih =>
    have hd := write_sought d a
    have hcons : (d :: changes).filterMap (fun d => d.sought.bind a.write) =
        (d.sought.bind a.write).toList ++ changes.filterMap fun d => d.sought.bind a.write := by
      cases h : d.sought.bind a.write <;> simp [h]
    rw [hcons, ih, hd]
    cases hsingle : d.single with
    | true =>
      rw [List.filter_cons_of_pos hsingle, List.flatMap_cons, List.filterMap_append, if_pos rfl]
    | false =>
      rw [List.filter_cons_of_neg (by simp [hsingle]), if_neg (by simp), List.nil_append]

/-! ## What is tracked -/

/-- A terminal in the modes `m` that is fed the output. -/
def TermModes.read (m : TermModes) (changes : List ModeChange) : TermModes :=
  (changes.flatMap ModeChange.switches).foldl TermModes.apply m

/-- **Reads have no say in the modes.** Wherever the output is cut, what a tracker without a carry
ends up with is what it gets from the whole output at once, and the fold of the mode changes of one
number. -/
theorem tracked_exact (t : TerminalModeTracker) (ht : t.detectCarry = [])
    (pieces : List (List Char)) :
    (t.feedAll pieces).snapshot = (t.feed pieces.flatten).snapshot ∧
      (t.feedAll pieces).snapshot =
        t.snapshot.read ((modeChanges pieces.flatten).filter ModeChange.single) := by
  have hall (pieces : List (List Char)) : (t.feedAll pieces).snapshot =
      t.snapshot.read ((modeChanges pieces.flatten).filter ModeChange.single) := by
    refine TermModes.ext_get fun a => ?_
    have hcarry : t.detectCarry = carryPartialEscape [] := ht
    rw [TerminalModeTracker.get_feedAll hcarry, TermModes.read, get_foldl_apply,
      ← lastWrite_switches]
    rfl
  refine ⟨?_, hall pieces⟩
  have hone := hall [pieces.flatten]
  rw [List.flatten_singleton] at hone
  rw [hall, ← hone]
  rfl

/-- A switch that is cut twice. -/
theorem tracked_exact_at_cut :
    (TerminalModeTracker.initial.feedAll
        ["ls\x1b".toList, "[?10".toList, "49h".toList]).snapshot =
      (TerminalModeTracker.initial.feed
        ["ls\x1b".toList, "[?10".toList, "49h".toList].flatten).snapshot ∧
      (TerminalModeTracker.initial.feedAll
          ["ls\x1b".toList, "[?10".toList, "49h".toList]).snapshot =
        TerminalModeTracker.initial.snapshot.read
          ((modeChanges ["ls\x1b".toList, "[?10".toList, "49h".toList].flatten).filter
            ModeChange.single) :=
  tracked_exact .initial rfl ["ls\x1b".toList, "[?10".toList, "49h".toList]

/-- A change of two numbers is not looked for. -/
theorem combined_is_not_tracked : ¬ ∀ pieces : List (List Char),
    (TerminalModeTracker.initial.feedAll pieces).snapshot =
      TerminalModeTracker.initial.snapshot.read (modeChanges pieces.flatten) := by
  intro h
  exact absurd (h ["\x1b[?1049;2004h".toList]) (by decide)

end Terminal
end Mullion
