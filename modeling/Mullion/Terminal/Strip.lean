import Mathlib.Data.List.Basic
import Mullion.Text

/-!
# The visible text of an output

How `terminal-text.ts` takes the escape sequences out of a text, one kind after the other, and finds
the last line with something on it. An output is a list of visible characters and complete terminal
sequences (`Item`), and its visible characters should be what is left.

The replacements for other sequences take out whole items and nothing else, whatever stands around
them (`removeAll_csi`, `removeAll_stray`). The first replacement does not: behind the `ESC ]` of an
OSC sequence it goes on to the next `BEL` or, if there is none, to the last `ESC \`, and takes with
it all that stands between. `reach` has how far that is in items (`belReach_spec`, `stReach_spec`),
and `survivors` what is left. Visible characters are lost exactly if one stands within the reach of
a sequence that ended before, and `Separate` says that none does. By induction over the items the
visible text of the survivors is that of all items exactly then (`plain_survivors_iff`), and
`strip_exact_iff` has the same of the source. In `text_is_swallowed` a text between two announced
directories is lost.
-/

namespace Mullion
namespace Terminal
namespace Strip

/-! ## Stripping -/

/-- The index of the last `ESC \`. -/
def lastSt : List Char → Option Nat
  | [] => none
  | c :: rest =>
    match lastSt rest with
    | some k => some (k + 1)
    | none => if c = '\x1b' ∧ rest.head? = some '\\' then some 0 else none

/-- `[^\x07]*(?:\x07|\x1b\\)` at the front of a text: up to the first `BEL`, or else the last
`ESC \`. -/
def oscRest (text : List Char) : Option Nat :=
  match text.idxOf? '\x07' with
  | some k => some (k + 1)
  | none => (lastSt text).map (· + 2)

/-- `OSC_SEQUENCE`. -/
def oscSequence : List Char → Option (Unit × Nat)
  | '\x1b' :: ']' :: rest => (oscRest rest).map fun n => ((), n + 2)
  | _ => none

/-- `[0-9;?]`. -/
def isParam (c : Char) : Bool := c.isDigit || c = ';' || c = '?'

/-- `ANSI_ESCAPE_SEQUENCE`. -/
def ansiEscapeSequence : List Char → Option (Unit × Nat)
  | '\x1b' :: '[' :: rest =>
    match rest.dropWhile isParam with
    | [] => none
    | letter :: _ =>
      if letter.isAlpha then some ((), 2 + (rest.takeWhile isParam).length + 1) else none
  | _ => none

/-- `text.replace(LONE_ESC_SEQUENCE, "")`. The pattern has no `u` flag: of a character outside the
BMP it takes the first half, and the other half shows as `\uFFFD`. -/
def removeLoneEsc : List Char → List Char
  | '\x1b' :: c :: rest =>
    if c = '[' ∨ c = ']' then '\x1b' :: removeLoneEsc (c :: rest)
    else if c.val < 0x10000 then removeLoneEsc rest
    else '\uFFFD' :: removeLoneEsc rest
  | c :: rest => c :: removeLoneEsc rest
  | [] => []

/-- `[\x00-\x08\x0b\x0c\x0e-\x1f]`. -/
def isStray (c : Char) : Bool := c.val < 0x20 && c ≠ '\t' && c ≠ '\n' && c ≠ '\r'

/-- `STRAY_CONTROL_BYTES`. -/
def strayControlBytes : List Char → Option (Unit × Nat)
  | c :: _ => if isStray c then some ((), 1) else none
  | [] => none

def stripTerminalEscapes (text : List Char) : List Char :=
  Text.removeAll strayControlBytes
    (removeLoneEsc (Text.removeAll ansiEscapeSequence (Text.removeAll oscSequence text)))

/-! ## The last line -/

/-- What is to be seen of a line: the part behind its last `\r`, one at its end left out. -/
def visibleLine (line : List Char) : String :=
  let line := if line.getLast? = some '\r' then line.dropLast else line
  Text.trim (String.ofList ((line.splitOn '\r').getLastD []))

def lastMeaningfulLine (text : List Char) (truncated : Bool) : Option String :=
  let lines := (stripTerminalEscapes text).splitOn '\n'
  let lines := if truncated then lines.drop 1 else lines
  lines.reverse.findSome? fun line => Text.truthy (visibleLine line)

/-- The last of the lines of a text of which something is to be seen. -/
def lastVisibleLine (plain : List Char) : Option String :=
  (((plain.splitOn '\n').map visibleLine).filter (· ≠ "")).getLast?

/-! ## Outputs -/

/-- A character of visible text, `\t`, `\n` or `\r`; a CSI sequence; an OSC sequence, ended by
`ESC \` or by `BEL`; an escape sequence of two characters. -/
inductive Item
  | plain (c : Char) (visible : isStray c = false)
  | csi (params : List Char) (letter : Char) (isParams : ∀ c ∈ params, isParam c)
      (isLetter : letter.isAlpha)
  | osc (payload : List Char) (st : Bool) (clean : ∀ c ∈ payload, c ≠ '\x07' ∧ c ≠ '\x1b')
  | esc (c : Char) (printable : ' ' ≤ c ∧ c ≤ '~') (other : c ≠ '[' ∧ c ≠ ']')

namespace Item

def text : Item → List Char
  | .plain c _ => [c]
  | .csi params letter _ _ => '\x1b' :: '[' :: (params ++ [letter])
  | .osc payload true _ => '\x1b' :: ']' :: (payload ++ ['\x1b', '\\'])
  | .osc payload false _ => '\x1b' :: ']' :: (payload ++ ['\x07'])
  | .esc c _ _ => ['\x1b', c]

def visible : Item → Option Char
  | .plain c _ => some c
  | _ => none

/-- It holds a `BEL`. -/
def bel : Item → Bool
  | .osc _ false _ => true
  | _ => false

/-- It ends with `ESC \`. -/
def st : Item → Bool
  | .osc _ true _ => true
  | .esc c _ _ => c = '\\'
  | _ => false

def isOsc : Item → Bool
  | .osc _ _ _ => true
  | _ => false

def isCsi : Item → Bool
  | .csi _ _ _ _ => true
  | _ => false

def isEsc : Item → Bool
  | .esc _ _ _ => true
  | _ => false

end Item

/-- The text of an output. -/
def text (items : List Item) : List Char := items.flatMap Item.text

/-- Its visible text. -/
def plain (items : List Item) : List Char := items.filterMap Item.visible

/-- How many items there are up to the first `BEL`. -/
def belReach : List Item → Option Nat
  | [] => none
  | item :: rest => if item.bel then some 1 else (belReach rest).map (· + 1)

/-- How many items there are up to the last `ESC \`. -/
def stReach : List Item → Nat
  | [] => 0
  | item :: rest =>
    if 0 < stReach rest then stReach rest + 1 else if item.st then 1 else 0

/-- How many items an OSC sequence ended by `ESC \` has behind it up to the next `BEL` or, if there
is none, up to the last `ESC \`. -/
def reach (items : List Item) : Nat := (belReach items).getD (stReach items)

/-- What the replacement of OSC sequences leaves of the items behind the first `skip` ones. -/
def survivors : Nat → List Item → List Item
  | _, [] => []
  | skip + 1, _ :: rest => survivors skip rest
  | 0, .osc _ st _ :: rest => survivors (if st then reach rest else 0) rest
  | 0, item :: rest => item :: survivors 0 rest

/-- No visible text stands behind an OSC sequence ended by `ESC \` and before the next `BEL` or, if
there is none, before the last `ESC \`. -/
def Separate (items : List Item) : Prop :=
  ∀ before payload clean rest, items = before ++ .osc payload true clean :: rest →
    ∀ item ∈ rest.take (reach rest), item.visible = none

/-! ## Replacements that take out whole items -/

theorem text_cons (item : Item) (items : List Item) :
    text (item :: items) = item.text ++ text items := rfl

theorem text_append (items more : List Item) : text (items ++ more) = text items ++ text more :=
  List.flatMap_append

/-- A pattern that matches whole items and nothing else. -/
theorem removeAll_items {pattern : List Char → Option (Unit × Nat)} {q : Item → Bool}
    {items : List Item}
    (hmatch : ∀ item ∈ items, q item = true → ∀ rest,
      pattern (item.text ++ rest) = some ((), item.text.length))
    (hother : ∀ item ∈ items, q item = false → ∀ rest,
      Text.removeAll pattern (item.text ++ rest) = item.text ++ Text.removeAll pattern rest) :
    Text.removeAll pattern (text items) = text (items.filter fun item => !q item) := by
  induction items with
  | nil => rfl
  | cons item items ih =>
    rw [List.forall_mem_cons] at hmatch hother
    rw [text_cons, List.filter_cons]
    cases hq : q item with
    | false =>
      rw [hother.1 hq, ih hmatch.2 hother.2]
      rfl
    | true =>
      have hmatched := hmatch.1 hq (text items)
      obtain ⟨c, tail, htext⟩ : ∃ c tail, item.text = c :: tail := by
        cases item with
        | plain c => exact ⟨c, [], rfl⟩
        | csi params letter => exact ⟨_, _, rfl⟩
        | osc payload st => cases st <;> exact ⟨_, _, rfl⟩
        | esc c => exact ⟨_, _, rfl⟩
      rw [htext, List.cons_append] at hmatched
      rw [htext, List.cons_append, Text.removeAll_cons_some pattern hmatched, List.length_cons,
        Nat.add_sub_cancel, List.drop_left, ih hmatch.2 hother.2]
      rfl

theorem ne_escape_of_not_stray {c : Char} (h : isStray c = false) : c ≠ '\x1b' := by
  rintro rfl
  exact absurd h (by decide)

theorem ne_escape_of_printable {c : Char} (h : ' ' ≤ c) : c ≠ '\x1b' := by
  rintro rfl
  exact absurd h (by decide)

theorem isParam_of_isAlpha {c : Char} (h : c.isAlpha) : isParam c = false := by
  have hrange : 65 ≤ c.val.toNat := by
    change (decide (65 ≤ c.val ∧ c.val ≤ 90) ||
      (decide (97 ≤ c.val) && decide (c.val ≤ 122))) = true at h
    simp only [Bool.or_eq_true, Bool.and_eq_true, decide_eq_true_eq,
      UInt32.le_iff_toNat_le] at h
    rcases h with h | h
    · exact h.1
    · exact Nat.le_trans (by decide) h.1
  have hdigit : c.isDigit = false := by
    rw [Char.isDigit, Bool.and_eq_false_imp]
    intro _
    rw [decide_eq_false_iff_not, UInt32.le_iff_toNat_le]
    exact Nat.not_le_of_lt (Nat.lt_of_lt_of_le (by decide) hrange)
  have hne : ∀ d : Char, d.val.toNat < 65 → c ≠ d := by
    rintro d hd rfl
    omega
  simp [isParam, hdigit, hne ';' (by decide), hne '?' (by decide)]

/-- CSI sequences, where no OSC sequence is left. -/
theorem removeAll_csi {items : List Item} (hosc : ∀ item ∈ items, item.isOsc = false) :
    Text.removeAll ansiEscapeSequence (text items) =
      text (items.filter fun item => !item.isCsi) := by
  refine removeAll_items (fun item _ hq rest => ?_) (fun item hitem hq rest => ?_)
  · cases item with
    | csi params letter hp hl =>
      have hletter := isParam_of_isAlpha hl
      have hall : ∀ c ∈ params, isParam c = true := hp
      simp only [Item.text, List.cons_append, List.append_assoc, ansiEscapeSequence]
      rw [List.dropWhile_append_of_pos hall, List.takeWhile_append_of_pos hall,
        List.dropWhile_cons_of_neg (by simp [hletter]),
        List.takeWhile_cons_of_neg (by simp [hletter])]
      simp [hl]
      omega
    | plain | osc | esc => simp [Item.isCsi] at hq
  · cases item with
    | csi => simp [Item.isCsi] at hq
    | osc => exact absurd (hosc _ hitem) (by simp [Item.isOsc])
    | plain c hc =>
      refine Text.removeAll_cons_none _ ?_
      have := ne_escape_of_not_stray hc
      simp [ansiEscapeSequence, this]
    | esc c hc hne =>
      have hne' := ne_escape_of_printable hc.1
      simp only [Item.text, List.cons_append, List.nil_append]
      rw [Text.removeAll_cons_none, Text.removeAll_cons_none]
      · simp [ansiEscapeSequence, hne']
      · simp [ansiEscapeSequence, hne.1]

/-- Sequences of two characters, where only they and visible text are left. -/
theorem removeLoneEsc_esc {items : List Item}
    (hrest : ∀ item ∈ items, item.isOsc = false ∧ item.isCsi = false) :
    removeLoneEsc (text items) = text (items.filter fun item => !item.isEsc) := by
  induction items with
  | nil => rfl
  | cons item items ih =>
    rw [List.forall_mem_cons] at hrest
    have ih := ih hrest.2
    rw [text_cons]
    cases item with
    | esc c hc hne =>
      have hascii : c.val ≤ 0x7e := hc.2
      have hbmp : c.val < 0x10000 := UInt32.lt_of_le_of_lt hascii (by decide)
      have hbracket : ¬ (c = '[' ∨ c = ']') := not_or.2 hne
      rw [Item.text, List.cons_append, List.singleton_append, removeLoneEsc, if_neg hbracket,
        if_pos hbmp, ih]
      rfl
    | plain c hc =>
      have hesc := ne_escape_of_not_stray hc
      rw [Item.text, List.singleton_append, removeLoneEsc, ih]
      · rfl
      · exact fun _ _ heq => absurd heq hesc
    | osc => exact absurd hrest.1.1 (by simp [Item.isOsc])
    | csi => exact absurd hrest.1.2 (by simp [Item.isCsi])

/-- Visible text holds no stray control character. -/
theorem removeAll_stray {items : List Item} (hplain : ∀ item ∈ items, item.visible ≠ none) :
    Text.removeAll strayControlBytes (text items) = plain items := by
  induction items with
  | nil => rfl
  | cons item items ih =>
    rw [List.forall_mem_cons] at hplain
    cases item with
    | plain c hc =>
      have hnone : strayControlBytes (c :: text items) = none := by
        simp [strayControlBytes, hc]
      refine (Text.removeAll_cons_none _ hnone).trans ?_
      rw [ih hplain.2]
      rfl
    | csi | osc | esc => exact absurd rfl hplain.1

/-! ## OSC sequences -/

theorem not_mem_bel {item : Item} (h : item.bel = false) : '\x07' ∉ item.text := by
  cases item with
  | plain c hc =>
    have : c ≠ '\x07' := by
      rintro rfl
      exact absurd hc (by decide)
    simpa [Item.text] using this.symm
  | csi params letter hp hl =>
    have hparams : '\x07' ∉ params := fun hmem => absurd (hp _ hmem) (by decide)
    have hletter : letter ≠ '\x07' := by
      rintro rfl
      exact absurd hl (by decide)
    simp [Item.text, hparams, hletter.symm]
  | osc payload st hclean =>
    cases st with
    | true =>
      have : '\x07' ∉ payload := fun hmem => (hclean _ hmem).1 rfl
      simp [Item.text, this]
    | false => simp [Item.bel] at h
  | esc c hc _ =>
    have : c ≠ '\x07' := by
      rintro rfl
      exact absurd hc.1 (by decide)
    simp [Item.text, this.symm]

theorem idxOf_append {u : List Char} (hu : '\x07' ∉ u) (rest : List Char) :
    (u ++ '\x07' :: rest).idxOf? '\x07' = some u.length := by
  induction u with
  | nil => simp [List.idxOf?_cons]
  | cons c u ih =>
    rw [List.mem_cons, not_or] at hu
    rw [List.cons_append, List.idxOf?_cons, ih hu.2]
    simp [Ne.symm hu.1]

/-- Where the first `BEL` of an output stands. -/
theorem belReach_spec (items : List Item) :
    match belReach items with
    | some n => ∃ u rest, text items = u ++ '\x07' :: rest ∧ '\x07' ∉ u ∧
        text (items.take n) = u ++ ['\x07']
    | none => '\x07' ∉ text items := by
  induction items with
  | nil => simp [belReach, text]
  | cons item items ih =>
    rw [belReach]
    cases hbel : item.bel with
    | true =>
      cases item with
      | osc payload st hclean =>
        cases st with
        | true => simp [Item.bel] at hbel
        | false =>
          have hpayload : '\x07' ∉ payload := fun hmem => (hclean _ hmem).1 rfl
          refine ⟨'\x1b' :: ']' :: payload, text items, ?_, by simp [hpayload], ?_⟩
          · simp [text, Item.text]
          · simp [text, Item.text]
      | plain | csi | esc => simp [Item.bel] at hbel
    | false =>
      have hitem := not_mem_bel hbel
      cases hreach : belReach items with
      | none =>
        rw [hreach] at ih
        simp [text_cons, hitem, ih]
      | some n =>
        rw [hreach] at ih
        obtain ⟨u, rest, htext, hu, htake⟩ := ih
        refine ⟨item.text ++ u, rest, ?_, by simp [hitem, hu], ?_⟩
        · rw [text_cons, htext, List.append_assoc]
        · rw [List.take_succ_cons, text_cons, htake, List.append_assoc]

theorem lastSt_cons (c : Char) (rest : List Char) :
    lastSt (c :: rest) = ((lastSt rest).map (· + 1)).or
      (if c = '\x1b' ∧ rest.head? = some '\\' then some 0 else none) := by
  rw [lastSt]
  cases lastSt rest <;> rfl

theorem lastSt_clean {u : List Char} (hu : '\x1b' ∉ u) (rest : List Char) :
    lastSt (u ++ rest) = (lastSt rest).map (· + u.length) := by
  induction u with
  | nil => simp
  | cons c u ih =>
    rw [List.mem_cons, not_or] at hu
    rw [List.cons_append, lastSt_cons, ih hu.2, Option.map_map, if_neg (fun h => hu.1 h.1.symm),
      Option.or_none]
    rfl

/-- An item that holds no other `ESC` than its first character. -/
theorem lastSt_sequence {c : Char} (hc : c ≠ '\x1b' ∧ c ≠ '\\') {u : List Char} (hu : '\x1b' ∉ u)
    (rest : List Char) :
    lastSt ('\x1b' :: c :: (u ++ rest)) = (lastSt rest).map (· + (u.length + 2)) := by
  have hcu : '\x1b' ∉ c :: u := by simp [hc.1.symm, hu]
  have h := lastSt_clean hcu rest
  rw [List.cons_append] at h
  rw [lastSt_cons, h, Option.map_map, if_neg (fun h => hc.2 (by simpa using h.2)), Option.or_none]
  rfl

theorem lastSt_st (rest : List Char) :
    lastSt ('\x1b' :: '\\' :: rest) = ((lastSt rest).map (· + 2)).or (some 0) := by
  have h := lastSt_clean (u := ['\\']) (by decide) rest
  rw [List.singleton_append] at h
  rw [lastSt_cons, h, Option.map_map, if_pos ⟨rfl, rfl⟩]
  rfl

theorem lastSt_item (item : Item) (rest : List Char) :
    lastSt (item.text ++ rest) = ((lastSt rest).map (· + item.text.length)).or
      (if item.st then some (item.text.length - 2) else none) := by
  cases item with
  | plain c hc =>
    have hc := ne_escape_of_not_stray hc
    have : '\x1b' ∉ [c] := by simpa using hc.symm
    simpa [Item.text, Item.st] using lastSt_clean this rest
  | csi params letter hp hl =>
    have hu : '\x1b' ∉ params ++ [letter] := by
      have hparams : '\x1b' ∉ params := fun hmem => absurd (hp _ hmem) (by decide)
      have hletter : letter ≠ '\x1b' := by
        rintro rfl
        exact absurd hl (by decide)
      simp [hparams, hletter.symm]
    simpa [Item.text, Item.st] using lastSt_sequence (c := '[') (by decide) hu rest
  | osc payload st hclean =>
    have hpayload : '\x1b' ∉ payload := fun hmem => (hclean _ hmem).2 rfl
    cases st with
    | true =>
      have h := lastSt_sequence (c := ']') (by decide) hpayload ('\x1b' :: '\\' :: rest)
      simp only [Item.text, Item.st, List.cons_append, List.append_assoc, List.nil_append, if_true,
        List.length_cons, List.length_append, List.length_nil]
      rw [h, lastSt_st]
      cases lastSt rest with
      | none => simp
      | some k =>
        simp only [Option.map_some, Option.some_or, Option.some.injEq]
        omega
    | false =>
      have hu : '\x1b' ∉ payload ++ ['\x07'] := by simp [hpayload]
      simpa [Item.text, Item.st] using lastSt_sequence (c := ']') (by decide) hu rest
  | esc c hc hne =>
    have hne' := ne_escape_of_printable hc.1
    by_cases hst : c = '\\'
    · subst hst
      simpa [Item.text, Item.st] using lastSt_st rest
    · simpa [Item.text, Item.st, hst] using
        lastSt_sequence (c := c) ⟨hne', hst⟩ (u := []) (by simp) rest

/-- Where the last `ESC \` of an output stands. -/
theorem stReach_spec (items : List Item) :
    (lastSt (text items) =
      if stReach items = 0 then none
      else some ((text (items.take (stReach items))).length - 2)) ∧
    (stReach items ≠ 0 → 2 ≤ (text (items.take (stReach items))).length) := by
  induction items with
  | nil => exact ⟨rfl, by simp [stReach]⟩
  | cons item items ih =>
    obtain ⟨hlast, hlen⟩ := ih
    rw [text_cons, lastSt_item, hlast]
    by_cases hreach : stReach items = 0
    · have hcons : stReach (item :: items) = if item.st then 1 else 0 := by
        rw [stReach, if_neg (by omega)]
      rw [if_pos hreach, hcons]
      cases hst : item.st with
      | true =>
        have htwo : 2 ≤ item.text.length := by
          cases item with
          | osc payload st =>
            cases st with
            | true => simp [Item.text]
            | false => simp [Item.st] at hst
          | esc c => simp [Item.text]
          | plain | csi => simp [Item.st] at hst
        simp [text, htwo]
      | false => simp
    · have hcons : stReach (item :: items) = stReach items + 1 := by
        rw [stReach, if_pos (by omega)]
      have := hlen hreach
      rw [if_neg hreach, hcons, if_neg (Nat.succ_ne_zero _), List.take_succ_cons, text_cons,
        List.length_append]
      refine ⟨?_, fun _ => by omega⟩
      rw [Option.map_some, Option.some_or]
      congr 1
      omega

theorem oscRest_bel {payload : List Char} (hclean : ∀ c ∈ payload, c ≠ '\x07' ∧ c ≠ '\x1b')
    (rest : List Char) : oscRest (payload ++ '\x07' :: rest) = some (payload.length + 1) := by
  rw [oscRest, idxOf_append (fun hmem => (hclean _ hmem).1 rfl)]

/-- How far the pattern reaches from an OSC sequence that `ESC \` ends. -/
theorem oscRest_st {payload : List Char} (hclean : ∀ c ∈ payload, c ≠ '\x07' ∧ c ≠ '\x1b')
    (items : List Item) :
    oscRest (payload ++ '\x1b' :: '\\' :: text items) =
      some (payload.length + 2 + (text (items.take (reach items))).length) := by
  have hpayload : '\x07' ∉ payload := fun hmem => (hclean _ hmem).1 rfl
  have hescape : '\x1b' ∉ payload := fun hmem => (hclean _ hmem).2 rfl
  have hbel := belReach_spec items
  rw [oscRest, reach]
  cases hreach : belReach items with
  | some n =>
    rw [hreach] at hbel
    obtain ⟨u, rest, htext, hu, htake⟩ := hbel
    have happend : payload ++ '\x1b' :: '\\' :: text items =
        (payload ++ '\x1b' :: '\\' :: u) ++ '\x07' :: rest := by
      rw [htext]; simp
    rw [happend, idxOf_append (by simp [hpayload, hu]), Option.getD_some, htake]
    simp
    omega
  | none =>
    rw [hreach] at hbel
    have hnone : (payload ++ '\x1b' :: '\\' :: text items).idxOf? '\x07' = none := by
      rw [List.idxOf?_eq_none_iff]
      simpa [hpayload] using hbel
    obtain ⟨hlast, hlen⟩ := stReach_spec items
    rw [hnone, Option.getD_none]
    simp only
    rw [lastSt_clean hescape, lastSt_st, hlast]
    by_cases hzero : stReach items = 0
    · simp [hzero, text]
    · have := hlen hzero
      simp only [hzero, if_false, Option.map_some, Option.some_or, Option.some.injEq]
      omega

theorem text_drop (n : Nat) (items : List Item) :
    (text items).drop (text (items.take n)).length = text (items.drop n) := by
  have h : text items = text (items.take n) ++ text (items.drop n) := by
    rw [← text_append, List.take_append_drop]
  rw [h, List.drop_left]

theorem removeAll_not_osc {item : Item} (h : item.isOsc = false) (rest : List Char) :
    Text.removeAll oscSequence (item.text ++ rest) =
      item.text ++ Text.removeAll oscSequence rest := by
  have hclean : ∀ {u : List Char}, '\x1b' ∉ u → Text.removeAll oscSequence (u ++ rest) =
      u ++ Text.removeAll oscSequence rest := by
    intro u hu
    induction u with
    | nil => rfl
    | cons c u ih =>
      rw [List.mem_cons, not_or] at hu
      have hnone : oscSequence (c :: (u ++ rest)) = none := by
        simp [oscSequence, Ne.symm hu.1]
      rw [List.cons_append, Text.removeAll_cons_none _ hnone, ih hu.2, List.cons_append]
  have hsequence : ∀ {c : Char} {u : List Char}, c ≠ ']' → c ≠ '\x1b' → '\x1b' ∉ u →
      Text.removeAll oscSequence ('\x1b' :: c :: (u ++ rest)) =
        '\x1b' :: c :: (u ++ Text.removeAll oscSequence rest) := by
    intro c u hc hne hu
    have hnone : oscSequence ('\x1b' :: c :: (u ++ rest)) = none := by simp [oscSequence, hc]
    have hcu : '\x1b' ∉ c :: u := by simp [hne.symm, hu]
    rw [Text.removeAll_cons_none _ hnone, ← List.cons_append, hclean hcu, List.cons_append]
  cases item with
  | plain c hc =>
    have hc := ne_escape_of_not_stray hc
    exact hclean (u := [c]) (by simpa using hc.symm)
  | csi params letter hp hl =>
    have hu : '\x1b' ∉ params ++ [letter] := by
      have hparams : '\x1b' ∉ params := fun hmem => absurd (hp _ hmem) (by decide)
      have hletter : letter ≠ '\x1b' := by
        rintro rfl
        exact absurd hl (by decide)
      simp [hparams, hletter.symm]
    exact hsequence (by decide) (by decide) hu
  | osc => simp [Item.isOsc] at h
  | esc c hc hne => exact hsequence (u := []) hne.2 (ne_escape_of_printable hc.1) (by simp)

theorem survivors_isOsc (skip : Nat) (items : List Item) :
    ∀ item ∈ survivors skip items, item.isOsc = false := by
  induction items generalizing skip with
  | nil => simp [survivors]
  | cons first items ih =>
    cases skip with
    | succ skip => exact ih skip
    | zero =>
      cases first with
      | osc payload st => exact ih _
      | plain | csi | esc =>
        rw [survivors, List.forall_mem_cons]
        · exact ⟨rfl, ih 0⟩
        · exact fun _ _ _ h => Item.noConfusion h

/-- What the replacement of OSC sequences does to an output. -/
theorem removeAll_osc (skip : Nat) (items : List Item) :
    Text.removeAll oscSequence (text (items.drop skip)) = text (survivors skip items) := by
  induction items generalizing skip with
  | nil => simp [survivors, text]
  | cons item items ih =>
    cases skip with
    | succ skip => exact ih skip
    | zero =>
      rw [List.drop_zero, text_cons]
      cases item with
      | osc payload st hclean =>
        rw [survivors, ← ih]
        cases st with
        | true =>
          have hmatch : oscSequence ((Item.osc payload true hclean).text ++ text items) =
              some ((), payload.length + 2 + (text (items.take (reach items))).length + 2) := by
            have happend : (Item.osc payload true hclean).text ++ text items =
                '\x1b' :: ']' :: (payload ++ '\x1b' :: '\\' :: text items) := by
              simp [Item.text]
            rw [happend, oscSequence, oscRest_st hclean]
            rfl
          rw [Item.text, List.cons_append] at hmatch ⊢
          rw [Text.removeAll_cons_some _ hmatch, if_pos rfl, ← text_drop]
          congr 1
          have hlen : (']' :: (payload ++ ['\x1b', '\\'])).length = payload.length + 3 := by simp
          have hsum : payload.length + 2 + (text (items.take (reach items))).length + 2 - 1 =
              payload.length + 3 + (text (items.take (reach items))).length := by omega
          rw [hsum, ← hlen, ← List.drop_drop, List.drop_left]
        | false =>
          have hmatch : oscSequence ((Item.osc payload false hclean).text ++ text items) =
              some ((), payload.length + 1 + 2) := by
            have happend : (Item.osc payload false hclean).text ++ text items =
                '\x1b' :: ']' :: (payload ++ '\x07' :: text items) := by
              simp [Item.text]
            rw [happend, oscSequence, oscRest_bel hclean]
            rfl
          rw [Item.text, List.cons_append] at hmatch ⊢
          rw [Text.removeAll_cons_some _ hmatch, if_neg Bool.false_ne_true, List.drop_zero]
          congr 1
          apply List.drop_left'
          simp
      | plain c =>
        rw [removeAll_not_osc rfl]
        exact congrArg _ (ih 0)
      | csi params letter =>
        rw [removeAll_not_osc rfl]
        exact congrArg _ (ih 0)
      | esc c =>
        rw [removeAll_not_osc rfl]
        exact congrArg _ (ih 0)

theorem plain_filter {q : Item → Bool} (hq : ∀ item, q item = false → item.visible = none)
    (items : List Item) : plain (items.filter q) = plain items := by
  induction items with
  | nil => rfl
  | cons item items ih =>
    rw [List.filter_cons]
    cases hitem : q item with
    | true => simp only [plain, if_true, List.filterMap_cons] at ih ⊢; rw [ih]
    | false =>
      rw [if_neg Bool.false_ne_true, ih, plain, plain, List.filterMap_cons, hq item hitem]

/-- What is left of an output. -/
theorem stripTerminalEscapes_eq (items : List Item) :
    stripTerminalEscapes (text items) = plain (survivors 0 items) := by
  have hosc := survivors_isOsc 0 items
  rw [stripTerminalEscapes, ← List.drop_zero (l := items), removeAll_osc, removeAll_csi hosc,
    removeLoneEsc_esc, removeAll_stray]
  · rw [plain_filter, plain_filter]
    · simp
    · intro item h
      cases item with
      | plain => simp [Item.isCsi] at h
      | csi | osc | esc => rfl
    · intro item h
      cases item with
      | plain => simp [Item.isEsc] at h
      | csi | osc | esc => rfl
  · intro item hitem
    rw [List.mem_filter, List.mem_filter] at hitem
    cases item with
    | plain => simp [Item.visible]
    | osc => exact absurd (hosc _ hitem.1.1) (by simp [Item.isOsc])
    | csi => simp [Item.isCsi] at hitem
    | esc => simp [Item.isEsc] at hitem
  · intro item hitem
    rw [List.mem_filter] at hitem
    exact ⟨hosc _ hitem.1, by simpa using hitem.2⟩

/-! ## When nothing is swallowed -/

theorem Separate.tail {item : Item} {items : List Item} (h : Separate (item :: items)) :
    Separate items := by
  intro before payload clean rest hitems
  exact h (item :: before) payload clean rest (by rw [hitems]; rfl)

theorem Separate.cons {item : Item} {items : List Item}
    (hfirst : ∀ payload clean, item = .osc payload true clean →
      ∀ other ∈ items.take (reach items), other.visible = none)
    (h : Separate items) : Separate (item :: items) := by
  intro before payload clean rest hitems
  cases before with
  | nil =>
    rw [List.nil_append, List.cons.injEq] at hitems
    obtain ⟨hitem, rfl⟩ := hitems
    exact hfirst payload clean hitem
  | cons first before =>
    rw [List.cons_append, List.cons.injEq] at hitems
    exact h before payload clean rest hitems.2

theorem plain_cons_visible {item : Item} {c : Char} (h : item.visible = some c)
    (items : List Item) : plain (item :: items) = c :: plain items := by
  rw [plain, List.filterMap_cons, h, plain]

theorem plain_cons_none {item : Item} (h : item.visible = none) (items : List Item) :
    plain (item :: items) = plain items := by
  rw [plain, List.filterMap_cons, h, plain]

theorem length_plain_survivors (skip : Nat) (items : List Item) :
    (plain (survivors skip items)).length ≤ (plain items).length := by
  induction items generalizing skip with
  | nil => simp [survivors]
  | cons item items ih =>
    have hle : (plain items).length ≤ (plain (item :: items)).length := by
      cases h : item.visible with
      | none => simp [plain_cons_none h]
      | some c => simp [plain_cons_visible h]
    cases skip with
    | succ skip => exact Nat.le_trans (ih skip) hle
    | zero =>
      cases item with
      | osc payload st => exact Nat.le_trans (ih _) hle
      | plain c hc =>
        have h : ∀ more, plain (.plain c hc :: more) = c :: plain more := plain_cons_visible rfl
        simpa [survivors, h] using ih 0
      | csi params letter hp hl =>
        have h : ∀ more, plain (.csi params letter hp hl :: more) = plain more :=
          plain_cons_none rfl
        simpa [survivors, h] using ih 0
      | esc c hc hne =>
        have h : ∀ more, plain (.esc c hc hne :: more) = plain more := plain_cons_none rfl
        simpa [survivors, h] using ih 0

theorem belReach_pos {items : List Item} {n : Nat} (h : belReach items = some n) : 0 < n := by
  cases items with
  | nil => simp [belReach] at h
  | cons item items =>
    rw [belReach] at h
    split at h
    · simp only [Option.some.injEq] at h
      omega
    · obtain ⟨m, -, rfl⟩ := Option.map_eq_some_iff.1 h
      omega

theorem reach_cons {item : Item} {items : List Item} (hbel : item.bel = false)
    (hreach : 0 < reach items) : reach (item :: items) = reach items + 1 := by
  rw [reach, belReach, hbel, if_neg Bool.false_ne_true, reach]
  rw [reach] at hreach
  cases h : belReach items with
  | some n => rfl
  | none =>
    rw [h, Option.getD_none] at hreach
    rw [Option.map_none, Option.getD_none, Option.getD_none, stReach, if_pos hreach]

/-- What is separate behind a sequence's reach is separate, if nothing visible is within it: the
reach of a sequence holds the reaches of those in it. -/
theorem separate_of_reach {items : List Item}
    (htake : ∀ item ∈ items.take (reach items), item.visible = none)
    (hdrop : Separate (items.drop (reach items))) : Separate items := by
  induction items with
  | nil => simpa using hdrop
  | cons item items ih =>
    cases hbel : item.bel with
    | true =>
      have hreach : reach (item :: items) = 1 := by rw [reach, belReach, hbel, if_pos rfl]; rfl
      rw [hreach] at hdrop
      refine Separate.cons (fun payload clean h => ?_) hdrop
      rw [h] at hbel
      simp [Item.bel] at hbel
    | false =>
      by_cases hpos : 0 < reach items
      · rw [reach_cons hbel hpos] at htake hdrop
        rw [List.take_succ_cons, List.forall_mem_cons] at htake
        exact .cons (fun _ _ _ => htake.2) (ih htake.2 hdrop)
      · have hzero : reach items = 0 := by omega
        have hnone : belReach items = none := by
          cases h : belReach items with
          | none => rfl
          | some n =>
            have := belReach_pos h
            rw [reach, h, Option.getD_some] at hzero
            omega
        have hst : stReach items = 0 := by rwa [reach, hnone, Option.getD_none] at hzero
        have hreach : reach (item :: items) = if item.st then 1 else 0 := by
          rw [reach, belReach, hbel, hnone, if_neg Bool.false_ne_true, Option.map_none,
            Option.getD_none, stReach, hst, if_neg (by omega)]
        rw [hreach] at hdrop
        cases hitem : item.st with
        | true =>
          rw [hitem] at hdrop
          exact .cons (fun _ _ _ => by simp [hzero]) hdrop
        | false =>
          rw [hitem] at hdrop
          exact hdrop

theorem Separate.drop {items : List Item} (h : Separate items) (n : Nat) :
    Separate (items.drop n) := by
  induction items generalizing n with
  | nil => simpa using h
  | cons item items ih =>
    cases n with
    | zero => exact h
    | succ n => exact ih h.tail n

/-- The visible text survives exactly if none of it is skipped. -/
theorem plain_survivors_iff (skip : Nat) (items : List Item) :
    plain (survivors skip items) = plain items ↔
      (∀ item ∈ items.take skip, item.visible = none) ∧ Separate (items.drop skip) := by
  induction items generalizing skip with
  | nil => simp [survivors, Separate]
  | cons item items ih =>
    cases skip with
    | succ skip =>
      rw [survivors, List.take_succ_cons, List.forall_mem_cons, List.drop_succ_cons]
      cases h : item.visible with
      | none => rw [plain_cons_none h, ih skip]; simp
      | some c =>
        have hlen := length_plain_survivors skip items
        constructor
        · intro heq
          rw [heq, plain_cons_visible h, List.length_cons] at hlen
          omega
        · rintro ⟨⟨hnone, -⟩, -⟩
          simp at hnone
    | zero =>
      have hzero := ih 0
      simp only [List.take_zero, List.not_mem_nil, false_imp_iff, implies_true, true_and,
        List.drop_zero] at hzero ⊢
      have hother : (∀ payload clean, item ≠ .osc payload true clean) →
          (Separate (item :: items) ↔ Separate items) := fun hne =>
        ⟨Separate.tail, Separate.cons fun payload clean h => absurd h (hne payload clean)⟩
      cases item with
      | osc payload st hclean =>
        rw [survivors, plain_cons_none rfl]
        cases st with
        | true =>
          rw [if_pos rfl, ih (reach items)]
          constructor
          · rintro ⟨htake, hdrop⟩
            exact .cons (fun _ _ _ => htake) (separate_of_reach htake hdrop)
          · exact fun h => ⟨h [] payload hclean items rfl, h.tail.drop _⟩
        | false =>
          rw [if_neg Bool.false_ne_true, hzero, hother (by simp)]
      | plain c hc =>
        rw [survivors, plain_cons_visible rfl, plain_cons_visible rfl, List.cons.injEq, hzero,
          hother (by simp)]
        · simp
        · simp
      | csi params letter hp hl =>
        rw [survivors, plain_cons_none rfl, plain_cons_none rfl, hzero, hother (by simp)]
        simp
      | esc c hc hne =>
        rw [survivors, plain_cons_none rfl, plain_cons_none rfl, hzero, hother (by simp)]
        simp

/-! ## The main results -/

/-- The loop from the last line up finds the last line of which something is to be seen. -/
theorem findSome_reverse (lines : List (List Char)) :
    (lines.reverse.findSome? fun line => Text.truthy (visibleLine line)) =
      ((lines.map visibleLine).filter (· ≠ "")).getLast? := by
  induction lines with
  | nil => rfl
  | cons line lines ih =>
    rw [List.reverse_cons, List.findSome?_append, ih, List.map_cons, List.filter_cons]
    by_cases h : visibleLine line = ""
    · simp [h, Text.truthy]
    · rw [if_pos (by simp [h]), List.getLast?_cons]
      cases ((lines.map visibleLine).filter (· ≠ "")).getLast? with
      | none => simp [h, Text.truthy]
      | some last => rfl

theorem lastMeaningfulLine_eq (output : List Char) :
    lastMeaningfulLine output false = lastVisibleLine (stripTerminalEscapes output) :=
  findSome_reverse _

/-- **Visible text.** Stripping an output of visible text and complete sequences leaves its visible
text, and the last line of this is the one that is read, exactly if behind no OSC sequence ended by
`ESC \` a visible character stands before the next `BEL` or, without one, the last `ESC \`. -/
theorem strip_exact_iff (items : List Item) :
    (stripTerminalEscapes (text items) = plain items ∧
      lastMeaningfulLine (text items) false = lastVisibleLine (plain items)) ↔ Separate items := by
  have hiff := plain_survivors_iff 0 items
  simp only [List.take_zero, List.not_mem_nil, false_imp_iff, implies_true, true_and,
    List.drop_zero] at hiff
  rw [lastMeaningfulLine_eq, stripTerminalEscapes_eq, hiff]
  constructor
  · exact fun h => h.1
  · intro h
    exact ⟨h, by rw [hiff.2 h]⟩

theorem clean_announced : ∀ c ∈ "7;file:///a".toList, c ≠ '\x07' ∧ c ≠ '\x1b' := by simp

/-- A directory announced with `ESC \`, a prompt, and a title with `BEL`. -/
def promptBetween : List Item :=
  [.osc "7;file:///a".toList true clean_announced, .plain '$' (by decide), .plain '\n' (by decide),
    .osc "0;a".toList false (by simp)]

theorem text_is_swallowed :
    ¬ ∀ items : List Item, stripTerminalEscapes (text items) = plain items ∧
      lastMeaningfulLine (text items) false = lastVisibleLine (plain items) := by
  intro h
  have := (h promptBetween).1
  revert this
  decide +kernel

end Strip
end Terminal
end Mullion
