import Mathlib.Data.List.TakeWhile
import Mullion.Lib.Utf8
import Mullion.Text

/-!
# The lines of a hook connection

The "data" listener of `handleConnection` (`plugins/hooks.ts`): it decodes each chunk by itself,
appends it to the unfinished line, and handles the lines that are complete. The first line is the
handshake, every other one a message.

Asked is whether the outcome depends on how the bytes of complete lines were cut into chunks. What
a handshake and a message are read as is a parameter, the `Reader`, and the answer has to hold for
every one. Chunks are read as their lines, one by one (`read`), exactly if they are `Good`: none
ends inside a character, where the decoder loses it (`cut_character_is_lost`), and none is too
long together with the line that it continues. One direction is an induction on the chunks. For the
other one the reader that only repeats its lines, `echo`, tells any two readings apart. Every way to
cut the lines is good, or fails alike, exactly if they are `Steady` (`same_reading_iff`).
-/

namespace Mullion
namespace HookInput

/-! ## The listener -/

/-- `MAX_LINE_BYTES`. -/
def maxLineBytes : Nat := 64 * 1024

/-- `text.length`, in UTF-16 code units. -/
def units (text : List Char) : Nat := (text.flatMap Text.codeUnits).length

/-- `line.trim() === ""`. -/
def isBlank (line : List Char) : Bool := Text.trim (String.ofList line) = ""

/-- How the lines are read: the session that the token of a handshake resolves to, if there is one,
and `parseHookMessage`. -/
structure Reader (Message : Type) where
  handshake : List Char → Option String
  parse : List Char → Except String Message

/-- What a line after the handshake leads to. -/
inductive Event (Message : Type)
  | received (sessionId : String) (message : Message)
  | replied (error : String)
  deriving DecidableEq, Repr

/-- What becomes of a connection; `lines` counts those that were taken from the buffer. -/
structure Outcome (Message : Type) where
  sessionId : Option String
  lines : Nat
  events : List (Event Message)
  destroyed : Bool
  deriving DecidableEq, Repr

/-- The variables of `handleConnection`. -/
structure Connection (Message : Type) where
  buffer : List Char
  outcome : Outcome Message
  deriving DecidableEq, Repr

variable {Message : Type} (reader : Reader Message)

namespace Outcome

def initial : Outcome Message := ⟨none, 0, [], false⟩

/-- The body of the loop. -/
def line (o : Outcome Message) (line : List Char) : Outcome Message :=
  let o := { o with lines := o.lines + 1 }
  if isBlank line then o
  else match o.sessionId with
    | none =>
      match reader.handshake line with
      | none => { o with destroyed := true }
      | some sessionId => { o with sessionId := some sessionId }
    | some sessionId =>
      match reader.parse line with
      | .error error => { o with events := o.events ++ [.replied error] }
      | .ok message => { o with events := o.events ++ [.received sessionId message] }

end Outcome

namespace Connection

def initial : Connection Message := ⟨[], .initial⟩

/-- The loop over the buffer, behind the characters `front` that hold no newline. -/
def drain (front : List Char) : List Char → Outcome Message → Connection Message
  | [], o => ⟨front, o⟩
  | c :: rest, o =>
    if c = '\n' then
      if (o.line reader front).destroyed then ⟨rest, o.line reader front⟩
      else drain [] rest (o.line reader front)
    else drain (front ++ [c]) rest o

/-- A chunk that was decoded. -/
def append (s : Connection Message) (text : List Char) : Connection Message :=
  if s.outcome.destroyed then s
  else if maxLineBytes < units (s.buffer ++ text) then
    { buffer := s.buffer ++ text, outcome := { s.outcome with destroyed := true } }
  else drain reader [] (s.buffer ++ text) s.outcome

/-- The "data" listener. -/
def data (s : Connection Message) (chunk : List UInt8) : Connection Message :=
  s.append reader (Utf8.decode chunk)

end Connection

/-- What becomes of a connection with these chunks. -/
def outcome (chunks : List (List UInt8)) : Outcome Message :=
  (chunks.foldl (Connection.data reader) .initial).outcome

/-! ## Lines -/

/-- Complete lines. -/
def textOf (lines : List (List Char)) : List Char := lines.flatMap (· ++ ['\n'])

/-- The bytes are those of the lines, cut into chunks. -/
def Cut (lines : List (List Char)) (chunks : List (List UInt8)) : Prop :=
  chunks.flatten = Utf8.encode (textOf lines)

instance (lines : List (List Char)) (chunks : List (List UInt8)) : Decidable (Cut lines chunks) :=
  inferInstanceAs (Decidable (chunks.flatten = Utf8.encode (textOf lines)))

/-- One line, unless the connection is destroyed. -/
def handle (o : Outcome Message) (line : List Char) : Outcome Message :=
  if o.destroyed then o else o.line reader line

/-- What becomes of a connection that gets the lines one by one. -/
def read (lines : List (List Char)) : Outcome Message := lines.foldl (handle reader) .initial

/-- The lines that are complete in a text, the first of them begun by `front`. -/
def complete (front : List Char) : List Char → List (List Char)
  | [] => []
  | c :: rest => if c = '\n' then front :: complete [] rest else complete (front ++ [c]) rest

/-- The line that a text does not complete. -/
def unfinished (front : List Char) : List Char → List Char
  | [] => front
  | c :: rest => if c = '\n' then unfinished [] rest else unfinished (front ++ [c]) rest

/-- No chunk ends inside a character, and each is short enough together with the line that it
continues. -/
structure Good (lines : List (List Char)) (chunks : List (List UInt8)) : Prop where
  whole : ¬ Utf8.Splits chunks [] (textOf lines)
  fits : ∀ before chunk after, chunks = before ++ chunk :: after →
    units (unfinished [] (Utf8.decodeChunks before) ++ Utf8.decode chunk) ≤ maxLineBytes

/-- The lines are in ASCII and short enough together, or no line can be taken from the buffer,
because the first one has the greatest length and its newline is one too many. -/
def Steady (lines : List (List Char)) : Prop :=
  ((∀ line ∈ lines, ∀ c ∈ line, c.toNat ≤ 0x7f) ∧ units (textOf lines) ≤ maxLineBytes) ∨
    ∃ line rest, lines = line :: rest ∧ units line = maxLineBytes

/-! ## Lines and texts -/

theorem units_append (a b : List Char) : units (a ++ b) = units a + units b := by
  simp [units]

theorem units_newline : units ['\n'] = 1 := rfl

theorem complete_append (front a b : List Char) :
    complete front (a ++ b) = complete front a ++ complete (unfinished front a) b := by
  induction a generalizing front with
  | nil => rfl
  | cons c a ih =>
    rw [List.cons_append, complete, complete, unfinished]
    split
    case isTrue => rw [ih, List.cons_append]
    case isFalse => exact ih _

theorem unfinished_append (front a b : List Char) :
    unfinished front (a ++ b) = unfinished (unfinished front a) b := by
  induction a generalizing front with
  | nil => rfl
  | cons c a ih =>
    rw [List.cons_append, unfinished, unfinished]
    split
    case isTrue => exact ih _
    case isFalse => exact ih _

/-- A text without a newline goes on with the line. -/
theorem complete_part {line : List Char} (h : '\n' ∉ line) (front rest : List Char) :
    complete front (line ++ rest) = complete (front ++ line) rest := by
  induction line generalizing front with
  | nil => rw [List.nil_append, List.append_nil]
  | cons c line ih =>
    rw [List.mem_cons, not_or] at h
    rw [List.cons_append, complete, if_neg (Ne.symm h.1), ih h.2, List.append_assoc,
      List.singleton_append]

theorem unfinished_part {line : List Char} (h : '\n' ∉ line) (front rest : List Char) :
    unfinished front (line ++ rest) = unfinished (front ++ line) rest := by
  induction line generalizing front with
  | nil => rw [List.nil_append, List.append_nil]
  | cons c line ih =>
    rw [List.mem_cons, not_or] at h
    rw [List.cons_append, unfinished, if_neg (Ne.symm h.1), ih h.2, List.append_assoc,
      List.singleton_append]

/-- What a text does not complete is its end. -/
theorem unfinished_suffix (front text : List Char) :
    ∃ before, before ++ unfinished front text = front ++ text := by
  induction text generalizing front with
  | nil => exact ⟨[], by rw [List.append_nil]; rfl⟩
  | cons c text ih =>
    rw [unfinished]
    split
    case isTrue =>
      obtain ⟨before, hbefore⟩ := ih []
      exact ⟨front ++ c :: before, by
        rw [List.append_assoc, List.cons_append, hbefore, List.nil_append]⟩
    case isFalse =>
      obtain ⟨before, hbefore⟩ := ih (front ++ [c])
      exact ⟨before, by rw [hbefore, List.append_assoc, List.singleton_append]⟩

theorem newline_not_mem_unfinished {front : List Char} (h : '\n' ∉ front) (text : List Char) :
    '\n' ∉ unfinished front text := by
  induction text generalizing front with
  | nil => exact h
  | cons c text ih =>
    rw [unfinished]
    split
    case isTrue => exact ih (by simp)
    case isFalse hc =>
      refine ih ?_
      rw [List.mem_append, List.mem_singleton, not_or]
      exact ⟨h, Ne.symm hc⟩

theorem complete_textOf {lines : List (List Char)} (h : ∀ line ∈ lines, '\n' ∉ line) :
    complete [] (textOf lines) = lines := by
  induction lines with
  | nil => rfl
  | cons line lines ih =>
    rw [List.forall_mem_cons] at h
    rw [textOf, List.flatMap_cons, ← textOf, List.append_assoc, complete_part h.1,
      List.nil_append, List.singleton_append, complete, if_pos rfl, ih h.2]

/-! ## Runs -/

theorem handle_of_destroyed {o : Outcome Message} (h : o.destroyed = true) (line : List Char) :
    handle reader o line = o := by
  rw [handle, if_pos h]

theorem handle_of_open {o : Outcome Message} (h : o.destroyed = false) (line : List Char) :
    handle reader o line = o.line reader line := by
  rw [handle, if_neg (by rw [h]; decide)]

theorem foldl_handle_destroyed {o : Outcome Message} (h : o.destroyed = true)
    (lines : List (List Char)) : lines.foldl (handle reader) o = o := by
  induction lines with
  | nil => rfl
  | cons line lines ih => rw [List.foldl_cons, handle_of_destroyed reader h, ih]

theorem foldl_append_destroyed {s : Connection Message} (h : s.outcome.destroyed = true)
    (texts : List (List Char)) : texts.foldl (Connection.append reader) s = s := by
  induction texts with
  | nil => rfl
  | cons text texts ih => rw [List.foldl_cons, Connection.append, if_pos h, ih]

section Append

variable {front text : List Char} {o : Outcome Message}

theorem append_short (ho : o.destroyed = false) (h : units (front ++ text) ≤ maxLineBytes) :
    Connection.append reader ⟨front, o⟩ text = Connection.drain reader [] (front ++ text) o := by
  rw [Connection.append, if_neg (by rw [ho]; decide), if_neg (not_lt.2 h)]

theorem append_long (ho : o.destroyed = false) (h : maxLineBytes < units (front ++ text)) :
    Connection.append reader ⟨front, o⟩ text =
      ⟨front ++ text, { o with destroyed := true }⟩ := by
  rw [Connection.append, if_neg (by rw [ho]; decide), if_pos h]

end Append

theorem outcome_eq (chunks : List (List UInt8)) : outcome reader chunks =
    ((chunks.map Utf8.decode).foldl (Connection.append reader) .initial).outcome := by
  rw [outcome, List.foldl_map]
  rfl

/-- The loop handles the lines that are complete, and leaves the line that is not. -/
theorem drain_spec {o : Outcome Message} (h : o.destroyed = false) (front text : List Char) :
    (Connection.drain reader front text o).outcome =
        (complete front text).foldl (handle reader) o ∧
      ((Connection.drain reader front text o).outcome.destroyed = false →
        (Connection.drain reader front text o).buffer = unfinished front text) := by
  induction text generalizing front o with
  | nil => exact ⟨rfl, fun _ => rfl⟩
  | cons c text ih =>
    rw [Connection.drain, complete, unfinished]
    by_cases hc : c = '\n'
    · rw [if_pos hc, if_pos hc, if_pos hc, List.foldl_cons, handle_of_open reader h]
      generalize o.line reader front = o'
      by_cases hline : o'.destroyed = true
      · rw [if_pos hline, foldl_handle_destroyed reader hline]
        exact ⟨rfl, fun hopen => absurd (hline.symm.trans hopen) (by decide)⟩
      · rw [if_neg hline]
        exact ih (Bool.eq_false_iff.2 hline) []
    · rw [if_neg hc, if_neg hc, if_neg hc]
      exact ih h _

/-- The unfinished lines are short enough together with the texts that continue them. -/
def Fitting (front : List Char) : List (List Char) → Prop
  | [] => True
  | text :: texts => units (front ++ text) ≤ maxLineBytes ∧ Fitting (unfinished front text) texts

theorem fitting_iff (front : List Char) (texts : List (List Char)) :
    Fitting front texts ↔ ∀ before text after, texts = before ++ text :: after →
      units (unfinished front before.flatten ++ text) ≤ maxLineBytes := by
  induction texts generalizing front with
  | nil => exact iff_of_true trivial fun before text after h => absurd h (by simp)
  | cons text texts ih =>
    rw [Fitting, ih]
    constructor
    · rintro ⟨hfirst, hrest⟩ before text' after hsplit
      cases before with
      | nil =>
        obtain ⟨rfl, -⟩ := List.cons.inj hsplit
        exact hfirst
      | cons _ before =>
        obtain ⟨rfl, rfl⟩ := List.cons.inj hsplit
        rw [List.flatten_cons, unfinished_append]
        exact hrest before text' after rfl
    · intro h
      refine ⟨h [] text texts rfl, ?_⟩
      rintro before text' after rfl
      have hlater := h (text :: before) text' after rfl
      rwa [List.flatten_cons, unfinished_append] at hlater

/-- **Texts that fit are read as the lines that they complete.** -/
theorem run_of_fitting {front : List Char} {texts : List (List Char)} (hfit : Fitting front texts)
    (hfront : '\n' ∉ front) {o : Outcome Message} (h : o.destroyed = false) :
    (texts.foldl (Connection.append reader) ⟨front, o⟩).outcome =
      (complete front texts.flatten).foldl (handle reader) o := by
  induction texts generalizing front o with
  | nil => rfl
  | cons text texts ih =>
    obtain ⟨hfirst, hrest⟩ := hfit
    have hspec := drain_spec reader h [] (front ++ text)
    rw [complete_part hfront, unfinished_part hfront, List.nil_append] at hspec
    rw [List.foldl_cons, append_short reader h hfirst, List.flatten_cons, complete_append,
      List.foldl_append, ← hspec.1]
    generalize Connection.drain reader [] (front ++ text) o = s at hspec
    cases hopen : s.outcome.destroyed with
    | true => rw [foldl_append_destroyed reader hopen, foldl_handle_destroyed reader hopen]
    | false =>
      obtain ⟨buffer, o'⟩ := s
      obtain ⟨-, hbuffer⟩ := hspec
      have hbuffer : buffer = unfinished front text := hbuffer hopen
      rw [hbuffer]
      exact ih hrest (newline_not_mem_unfinished hfront text) hopen

/-- Texts that do not fit destroy the connection. -/
theorem fitting_of_open {front : List Char} {texts : List (List Char)} (hfront : '\n' ∉ front)
    {o : Outcome Message}
    (h : (texts.foldl (Connection.append reader) ⟨front, o⟩).outcome.destroyed = false) :
    Fitting front texts := by
  induction texts generalizing front o with
  | nil => trivial
  | cons text texts ih =>
    rw [List.foldl_cons] at h
    have hopen : (Connection.append reader ⟨front, o⟩ text).outcome.destroyed = false := by
      by_contra hgone
      rw [foldl_append_destroyed reader (Bool.eq_true_of_not_eq_false hgone)] at h
      exact hgone h
    have ho : o.destroyed = false := by
      by_contra hgone
      rw [Connection.append, if_pos (Bool.eq_true_of_not_eq_false hgone)] at hopen
      exact hgone hopen
    have hfirst : units (front ++ text) ≤ maxLineBytes := by
      by_contra hlong
      rw [append_long reader ho (not_le.1 hlong)] at hopen
      cases hopen
    have hspec := drain_spec reader ho [] (front ++ text)
    rw [unfinished_part hfront, List.nil_append] at hspec
    rw [append_short reader ho hfirst] at h hopen
    refine ⟨hfirst, ?_⟩
    generalize Connection.drain reader [] (front ++ text) o = s at h hopen hspec
    obtain ⟨buffer, o'⟩ := s
    have hbuffer : buffer = unfinished front text := hspec.2 hopen
    rw [hbuffer] at h
    exact ih (newline_not_mem_unfinished hfront text) h

/-- Chunks that are good are read as their lines. -/
theorem outcome_of_good {lines : List (List Char)} {chunks : List (List UInt8)}
    (hlines : ∀ line ∈ lines, '\n' ∉ line) (hcut : Cut lines chunks) (h : Good lines chunks) :
    outcome reader chunks = read reader lines := by
  have htext : Utf8.decodeChunks chunks = textOf lines :=
    (Utf8.image_decodeChunks hcut).eq_of_not_splits h.whole
  have hfit : Fitting [] (chunks.map Utf8.decode) := by
    rw [fitting_iff]
    intro before text after hsplit
    obtain ⟨before, rest, rfl, rfl, hrest⟩ := List.map_eq_append_iff.1 hsplit
    obtain ⟨chunk, after, rfl, rfl, rfl⟩ := List.map_eq_cons_iff.1 hrest
    exact h.fits before chunk after rfl
  rw [outcome_eq, Connection.initial, run_of_fitting reader hfit (by simp) rfl,
    ← Utf8.decodeChunks, htext, complete_textOf hlines, read]

/-! ## What is read of lines -/

theorem isBlank_iff (line : List Char) : isBlank line = true ↔ ∀ c ∈ line, Text.isWhite c := by
  rw [isBlank, decide_eq_true_iff, Text.trim, String.ofList_eq_empty_iff, List.reverse_eq_nil_iff,
    List.dropWhile_eq_nil_iff, String.toList_ofList]
  constructor
  · intro h c hc
    rw [← List.takeWhile_append_dropWhile (p := Text.isWhite) (l := line), List.mem_append] at hc
    rcases hc with hc | hc
    · exact List.mem_takeWhile_imp hc
    · exact h c (List.mem_reverse.2 hc)
  · intro h c hc
    exact h c ((List.dropWhile_sublist _).mem (List.mem_reverse.1 hc))

/-- How much of a line a reader hears. -/
def weight (line : List Char) : Nat := if isBlank line then 0 else line.length

theorem weight_le_length (line : List Char) : weight line ≤ line.length := by
  rw [weight]
  split <;> omega

section Images

variable {chunks : List (List UInt8)} {front line out : List Char}

/-- A line with a character that is cut is heard, and it got longer. -/
theorem weight_image (h : Utf8.Image chunks front line out) :
    weight line ≤ weight out ∧ (weight line = weight out → out = line) := by
  by_cases hcut : Utf8.Splits chunks front line
  · have hblank : isBlank out ≠ true := by
      rw [ne_eq, isBlank_iff]
      intro hwhite
      exact absurd (hwhite _ (h.replacement_mem hcut)) (by decide)
    have hout : weight out = out.length := if_neg hblank
    have hlt := h.length_lt hcut
    have hle := weight_le_length line
    rw [hout]
    exact ⟨by omega, fun heq => by omega⟩
  · rw [h.eq_of_not_splits hcut]
    exact ⟨le_rfl, fun _ => rfl⟩

theorem units_image (h : Utf8.Image chunks front line out) : units line ≤ units out := by
  induction h with
  | nil => exact le_rfl
  | @kept front line out c _ _ ih =>
    rw [← List.singleton_append, ← List.singleton_append (l := out), units_append, units_append]
    exact Nat.add_le_add_left ih _
  | @lost front line out c n hn _ _ ih =>
    rw [← List.singleton_append, units_append, units_append]
    have hchar : units [c] ≤ 2 := by
      rw [units, List.flatMap_singleton, Text.codeUnits]
      split <;> simp
    have hreplaced : units (List.replicate n Utf8.replacement) = n := by
      rw [units, List.flatMap_replicate]
      simp [Utf8.replacement, Text.codeUnits]
    omega

theorem newline_not_mem_image (h : Utf8.Image chunks front line out) (hline : '\n' ∉ line) :
    '\n' ∉ out := by
  intro hmem
  rcases h.mem hmem with hmem | hmem
  · exact hline hmem
  · exact absurd hmem (by decide)

/-- Lines are read as lines, whatever becomes of their characters. -/
theorem image_textOf {lines : List (List Char)}
    (h : Utf8.Image chunks front (textOf lines) out) :
    ∃ outs, out = textOf outs ∧
      List.Forall₂ (fun line out => ∃ front, Utf8.Image chunks front line out) lines outs := by
  induction lines generalizing front out with
  | nil =>
    cases h
    exact ⟨[], rfl, .nil⟩
  | cons line lines ih =>
    rw [textOf, List.flatMap_cons, ← textOf] at h
    obtain ⟨o₁, rest, rfl, h₁, hrest⟩ := h.append
    obtain ⟨o, newline, rfl, hline, hnewline⟩ := h₁.append
    obtain rfl : newline = ['\n'] := hnewline.eq_of_ascii (by simp)
    obtain ⟨outs, rfl, houts⟩ := ih hrest
    exact ⟨o :: outs, rfl, .cons ⟨_, hline⟩ houts⟩

variable {lines outs : List (List Char)}

theorem newline_not_mem_images
    (h : List.Forall₂ (fun line out => ∃ front, Utf8.Image chunks front line out) lines outs)
    (hlines : ∀ line ∈ lines, '\n' ∉ line) : ∀ out ∈ outs, '\n' ∉ out := by
  induction h with
  | nil => exact hlines
  | cons himage _ ih =>
    rw [List.forall_mem_cons] at hlines ⊢
    exact ⟨newline_not_mem_image himage.choose_spec hlines.1, ih hlines.2⟩

/-- Lines that are heard as they are were read as they are. -/
theorem eq_of_weight
    (h : List.Forall₂ (fun line out => ∃ front, Utf8.Image chunks front line out) lines outs) :
    (lines.map weight).sum ≤ (outs.map weight).sum ∧
      ((lines.map weight).sum = (outs.map weight).sum → outs = lines) := by
  induction h with
  | nil => exact ⟨le_rfl, fun _ => rfl⟩
  | cons himage _ ih =>
    have hweight := weight_image himage.choose_spec
    rw [List.map_cons, List.map_cons, List.sum_cons, List.sum_cons]
    refine ⟨Nat.add_le_add hweight.1 ih.1, fun heq => ?_⟩
    rw [hweight.2 (by omega), ih.2 (by omega)]

end Images

/-! ## A reader that says what it hears -/

/-- A reader that takes every line for what it is. -/
def echo : Reader (List Char) := ⟨fun line => some (String.ofList line), .ok⟩

/-- What the echo heard. -/
def heard (o : Outcome (List Char)) : List (List Char) :=
  o.sessionId.toList.map String.toList ++ o.events.filterMap fun event =>
    match event with
    | .received _ message => some message
    | .replied _ => none

/-- It is open, and it heard nothing before the handshake. -/
def Echoing (o : Outcome (List Char)) : Prop :=
  o.destroyed = false ∧ (o.sessionId = none → o.events = [])

theorem handle_echo {o : Outcome (List Char)} (h : Echoing o) (line : List Char) :
    Echoing (handle echo o line) ∧
      heard (handle echo o line) = heard o ++ if isBlank line then [] else [line] := by
  obtain ⟨sessionId, count, events, destroyed⟩ := o
  obtain ⟨rfl, hevents⟩ := h
  rw [handle, if_neg Bool.false_ne_true, Outcome.line]
  by_cases hblank : isBlank line = true
  · rw [if_pos hblank, if_pos hblank, List.append_nil]
    exact ⟨⟨rfl, hevents⟩, rfl⟩
  · rw [if_neg hblank, if_neg hblank]
    cases sessionId with
    | none =>
      obtain rfl : events = [] := hevents rfl
      exact ⟨⟨rfl, fun h => absurd h (by simp [echo])⟩, by simp [heard, echo]⟩
    | some id =>
      exact ⟨⟨rfl, fun h => absurd h (by simp [echo])⟩, by simp [heard, echo]⟩

/-- The echo hears each line that is not blank. -/
theorem foldl_echo {o : Outcome (List Char)} (h : Echoing o) (lines : List (List Char)) :
    Echoing (lines.foldl (handle echo) o) ∧ ((heard (lines.foldl (handle echo) o)).map
      List.length).sum = ((heard o).map List.length).sum + (lines.map weight).sum := by
  induction lines generalizing o with
  | nil => exact ⟨h, rfl⟩
  | cons line lines ih =>
    obtain ⟨hnext, hheard⟩ := handle_echo h line
    obtain ⟨hopen, hsum⟩ := ih hnext
    have hline : ((if isBlank line then [] else [line]).map List.length).sum = weight line := by
      rw [weight]
      split <;> rfl
    refine ⟨hopen, ?_⟩
    rw [List.foldl_cons, hsum, hheard, List.map_append, List.sum_append, hline, List.map_cons,
      List.sum_cons, Nat.add_assoc]

/-- Chunks that the echo hears as their lines are good. -/
theorem good_of_echo {lines : List (List Char)} {chunks : List (List UInt8)}
    (hlines : ∀ line ∈ lines, '\n' ∉ line) (hcut : Cut lines chunks)
    (h : outcome echo chunks = read echo lines) : Good lines chunks := by
  have himage := Utf8.image_decodeChunks hcut
  have hinitial : Echoing Outcome.initial := ⟨rfl, fun _ => rfl⟩
  obtain ⟨hopen, hsum⟩ := foldl_echo hinitial lines
  rw [← read] at hopen hsum
  have hfit : Fitting [] (chunks.map Utf8.decode) := by
    refine fitting_of_open echo (by simp) (o := Outcome.initial) ?_
    rw [← Connection.initial, ← outcome_eq, h]
    exact hopen.1
  refine ⟨?_, ?_⟩
  · obtain ⟨outs, hout, himages⟩ := image_textOf himage
    have hread : outcome echo chunks = outs.foldl (handle echo) .initial := by
      rw [outcome_eq, Connection.initial, run_of_fitting echo hfit (by simp) rfl,
        ← Utf8.decodeChunks, hout, complete_textOf (newline_not_mem_images himages hlines)]
    have hsum' := (foldl_echo hinitial outs).2
    rw [← hread, h] at hsum'
    have houts : outs = lines := (eq_of_weight himages).2 (by omega)
    rw [← himage.eq_iff, hout, houts]
  · intro before chunk after hsplit
    refine (fitting_iff [] _).1 hfit (before.map Utf8.decode) _ (after.map Utf8.decode) ?_
    rw [hsplit, List.map_append, List.map_cons]

/-! ## Streams -/

theorem lines_line (o : Outcome Message) (line : List Char) :
    (o.line reader line).lines = o.lines + 1 := by
  rw [Outcome.line]
  dsimp only
  split
  case isTrue => rfl
  case isFalse => split <;> split <;> rfl

theorem lines_le_handle (o : Outcome Message) (line : List Char) :
    o.lines ≤ (handle reader o line).lines := by
  rw [handle]
  split
  case isTrue => exact le_rfl
  case isFalse =>
    rw [lines_line]
    exact Nat.le_succ _

theorem lines_le_foldl (o : Outcome Message) (lines : List (List Char)) :
    o.lines ≤ (lines.foldl (handle reader) o).lines := by
  induction lines generalizing o with
  | nil => exact le_rfl
  | cons line lines ih => exact (lines_le_handle reader o line).trans (ih _)

theorem lines_le_append (s : Connection Message) (text : List Char) :
    s.outcome.lines ≤ (s.append reader text).outcome.lines := by
  rw [Connection.append]
  split
  case isTrue => exact le_rfl
  case isFalse hopen =>
    split
    case isTrue => exact le_rfl
    case isFalse =>
      rw [(drain_spec reader (Bool.eq_false_iff.2 hopen) [] _).1]
      exact lines_le_foldl reader _ _

/-- A line of the greatest length is never taken from the buffer, and none behind it. -/
theorem outcome_of_long {line rest : List Char} (hline : '\n' ∉ line)
    (hlong : maxLineBytes ≤ units line) {buffer : List Char} (hbuffer : '\n' ∉ buffer)
    {texts : List (List Char)} (h : buffer ++ texts.flatten = line ++ '\n' :: rest) :
    (texts.foldl (Connection.append reader) ⟨buffer, .initial⟩).outcome =
      { (Outcome.initial : Outcome Message) with destroyed := true } := by
  induction texts generalizing buffer with
  | nil =>
    rw [List.flatten_nil, List.append_nil] at h
    exact absurd (by rw [h]; simp) hbuffer
  | cons text texts ih =>
    rw [List.flatten_cons, ← List.append_assoc] at h
    rw [List.foldl_cons]
    by_cases hunits : maxLineBytes < units (buffer ++ text)
    · rw [append_long reader rfl hunits, foldl_append_destroyed reader rfl]
    · rw [append_short reader rfl (not_lt.1 hunits)]
      have hpart : '\n' ∉ buffer ++ text := by
        rcases List.append_eq_append_iff.1 h with ⟨c, hc, -⟩ | ⟨c, hc, hrest⟩
        · rw [hc, List.mem_append, not_or] at hline
          exact hline.1
        · cases c with
          | nil => rwa [hc, List.append_nil]
          | cons d c =>
            obtain ⟨rfl, -⟩ := List.cons.inj hrest
            rw [hc, ← List.singleton_append, units_append, units_append, units_newline] at hunits
            omega
      have hspec := drain_spec reader (o := Outcome.initial) rfl [] (buffer ++ text)
      rw [← List.append_nil (buffer ++ text), complete_part hpart, unfinished_part hpart,
        List.append_nil, List.nil_append] at hspec
      obtain ⟨houtcome, hrest⟩ := hspec
      have hdrain : Connection.drain reader [] (buffer ++ text) .initial =
          ⟨buffer ++ text, .initial⟩ := by
        generalize Connection.drain reader [] (buffer ++ text) .initial = s at houtcome hrest
        obtain ⟨buffer', o⟩ := s
        have ho : o = Outcome.initial := houtcome
        subst ho
        rw [show buffer' = buffer ++ text from hrest rfl]
      rw [hdrain]
      exact ih hpart h

/-- Nothing becomes of lines the first of which has the greatest length. -/
theorem outcome_of_stuck {line : List Char} {rest : List (List Char)}
    {chunks : List (List UInt8)} (hline : '\n' ∉ line) (hlong : units line = maxLineBytes)
    (hcut : Cut (line :: rest) chunks) :
    outcome reader chunks = { (Outcome.initial : Outcome Message) with destroyed := true } := by
  obtain ⟨outs, hout, himages⟩ := image_textOf (Utf8.image_decodeChunks hcut)
  cases himages with
  | @cons _ out _ outs himage _ =>
    obtain ⟨front, himage⟩ := himage
    rw [outcome_eq]
    have htext : [] ++ (chunks.map Utf8.decode).flatten = out ++ '\n' :: textOf outs := by
      rw [List.nil_append, ← Utf8.decodeChunks, hout, textOf, List.flatMap_cons, ← textOf,
        List.append_assoc, List.singleton_append]
    exact outcome_of_long reader (newline_not_mem_image himage hline)
      (hlong.symm.trans_le (units_image himage)) (by simp) htext

/-- Lines in ASCII that are short enough together are good in all chunks. -/
theorem good_of_ascii {lines : List (List Char)} {chunks : List (List UInt8)}
    (hascii : ∀ line ∈ lines, ∀ c ∈ line, c.toNat ≤ 0x7f)
    (hunits : units (textOf lines) ≤ maxLineBytes) (hcut : Cut lines chunks) :
    Good lines chunks := by
  have hwhole : ¬ Utf8.Splits chunks [] (textOf lines) := by
    refine Utf8.not_splits_of_ascii fun c hc => ?_
    obtain ⟨line, hline, hc⟩ := List.mem_flatMap.1 hc
    rcases List.mem_append.1 hc with hc | hc
    · exact hascii line hline c hc
    · rw [List.mem_singleton.1 hc]
      decide
  refine ⟨hwhole, ?_⟩
  rintro before chunk after rfl
  have htext := (Utf8.image_decodeChunks hcut).eq_of_not_splits hwhole
  obtain ⟨front, hfront⟩ := unfinished_suffix [] (Utf8.decodeChunks before)
  rw [Utf8.decodeChunks, List.map_append, List.map_cons, List.flatten_append, List.flatten_cons,
    ← Utf8.decodeChunks] at htext
  rw [List.nil_append] at hfront
  rw [← htext, ← hfront, units_append, units_append, units_append] at hunits
  rw [units_append]
  omega

theorem cut_whole (lines : List (List Char)) : Cut lines [Utf8.encode (textOf lines)] :=
  List.flatten_singleton

/-- Lines that are too long together are lost if they come in one chunk. -/
theorem outcome_of_one_chunk {lines : List (List Char)}
    (h : maxLineBytes < units (textOf lines)) :
    outcome reader [Utf8.encode (textOf lines)] =
      { (Outcome.initial : Outcome Message) with destroyed := true } := by
  rw [outcome_eq, List.map_singleton, Utf8.decode_encode, Connection.initial, List.foldl_cons,
    append_long reader rfl (by rwa [List.nil_append]), List.foldl_nil]

/-- A first line that is short enough is taken from the buffer if it comes in a chunk of its
own. -/
theorem one_le_lines {line : List Char} {rest : List (List Char)} (hline : '\n' ∉ line)
    (hshort : units line < maxLineBytes) :
    1 ≤ (outcome reader [Utf8.encode (line ++ ['\n']), Utf8.encode (textOf rest)]).lines := by
  have hfirst : units (([] : List Char) ++ (line ++ ['\n'])) ≤ maxLineBytes := by
    rw [List.nil_append, units_append, units_newline]
    exact hshort
  rw [outcome_eq, List.map_cons, List.map_singleton, Utf8.decode_encode, Utf8.decode_encode,
    Connection.initial, List.foldl_cons, append_short reader rfl hfirst, List.nil_append,
    List.foldl_cons, List.foldl_nil]
  refine le_trans ?_ (lines_le_append reader _ _)
  rw [(drain_spec reader rfl [] _).1, complete_part hline, List.nil_append, complete, if_pos rfl,
    complete, List.foldl_cons, List.foldl_nil, handle_of_open reader rfl]
  exact (lines_line reader .initial line).ge

/-- Chunks are read as their lines by every reader exactly if they are good. -/
theorem read_iff {lines : List (List Char)} {chunks : List (List UInt8)}
    (hlines : ∀ line ∈ lines, '\n' ∉ line) (hcut : Cut lines chunks) :
    (∀ (Message : Type) (reader : Reader Message), outcome reader chunks = read reader lines) ↔
      Good lines chunks :=
  ⟨fun h => good_of_echo hlines hcut (h _ echo),
    fun h _ reader => outcome_of_good reader hlines hcut h⟩

/-- The chunks do not matter to any reader exactly if the lines are steady. -/
theorem steady_iff {lines : List (List Char)}
    (hlines : ∀ line ∈ lines, '\n' ∉ line ∧ units line ≤ maxLineBytes) :
    (∀ (Message : Type) (reader : Reader Message) (chunks chunks' : List (List UInt8)),
      Cut lines chunks → Cut lines chunks' → outcome reader chunks = outcome reader chunks') ↔
      Steady lines := by
  have hnewline : ∀ line ∈ lines, '\n' ∉ line := fun line hline => (hlines line hline).1
  constructor
  · intro h
    by_cases hunits : units (textOf lines) ≤ maxLineBytes
    · -- a character that is not in ASCII could be cut
      refine Or.inl ⟨fun line hline c hc => ?_, hunits⟩
      by_contra hlarge
      have hmem : c ∈ textOf lines :=
        List.mem_flatMap.2 ⟨line, hline, List.mem_append_left _ hc⟩
      obtain ⟨a, b, htext⟩ := List.append_of_mem hmem
      obtain ⟨chunks, hflatten, hsplits⟩ := Utf8.exists_splits (a := a) (b := b) (not_le.1 hlarge)
      rw [← htext] at hflatten hsplits
      have hone : Good lines [Utf8.encode (textOf lines)] := by
        refine ⟨Utf8.not_splits_singleton, fun before chunk after hsplit => ?_⟩
        cases before with
        | nil =>
          obtain ⟨rfl, -⟩ := List.cons.inj hsplit
          rw [Utf8.decode_encode]
          exact hunits
        | cons _ before => exact absurd (List.cons.inj hsplit).2 (by simp)
      refine (good_of_echo hnewline hflatten ?_).whole hsplits
      rw [h _ echo _ _ hflatten (cut_whole lines)]
      exact outcome_of_good echo hnewline (cut_whole lines) hone
    · -- in one chunk nothing is read, and a first line alone would be
      rw [not_le] at hunits
      cases lines with
      | nil => exact absurd hunits (Nat.not_lt_zero _)
      | cons line rest =>
        refine Or.inr ⟨line, rest, rfl, ?_⟩
        by_contra hlong
        rw [List.forall_mem_cons] at hlines
        have hsome : 1 ≤ (outcome echo
            [Utf8.encode (line ++ ['\n']), Utf8.encode (textOf rest)]).lines :=
          one_le_lines echo hlines.1.1 (lt_of_le_of_ne hlines.1.2 hlong)
        have hcut : Cut (line :: rest)
            [Utf8.encode (line ++ ['\n']), Utf8.encode (textOf rest)] := by
          rw [Cut, List.flatten_cons, List.flatten_singleton, ← Utf8.encode_append]
          rfl
        rw [h _ echo _ _ hcut (cut_whole _), outcome_of_one_chunk echo hunits] at hsome
        exact absurd hsome (by decide)
  · rintro (⟨hascii, hunits⟩ | ⟨line, rest, rfl, hlong⟩) Message reader chunks chunks' hcut hcut'
    · rw [outcome_of_good reader hnewline hcut (good_of_ascii hascii hunits hcut),
        outcome_of_good reader hnewline hcut' (good_of_ascii hascii hunits hcut')]
    · have hline := hnewline line List.mem_cons_self
      rw [outcome_of_stuck reader hline hlong hcut, outcome_of_stuck reader hline hlong hcut']

/-- **The outcome and the chunks.** It does not matter how complete lines are cut into chunks
exactly if they are steady; and chunks are read as their lines exactly if they are good. -/
theorem same_reading_iff (lines : List (List Char))
    (hlines : ∀ line ∈ lines, '\n' ∉ line ∧ units line ≤ maxLineBytes) :
    ((∀ (Message : Type) (reader : Reader Message) (chunks chunks' : List (List UInt8)),
        Cut lines chunks → Cut lines chunks' →
          outcome reader chunks = outcome reader chunks') ↔ Steady lines) ∧
      ∀ chunks, Cut lines chunks →
        ((∀ (Message : Type) (reader : Reader Message),
          outcome reader chunks = read reader lines) ↔ Good lines chunks) :=
  ⟨steady_iff hlines, fun _ hcut => read_iff (fun line hline => (hlines line hline).1) hcut⟩

theorem ascii_of_all {lines : List (List Char)}
    (h : lines.all (fun line => line.all fun c => c.toNat ≤ 0x7f) = true) :
    ∀ line ∈ lines, ∀ c ∈ line, c.toNat ≤ 0x7f := by
  simpa [List.all_eq_true] using h

/-- `{"token":"t1"}` -/
def tokenLine : List Char := "\x7b\"token\":\"t1\"\x7d".toList

/-- `{"kind":"tool_done","tool":"Bash"}` -/
def toolDoneLine : List Char := "\x7b\"kind\":\"tool_done\",\"tool\":\"Bash\"\x7d".toList

/-- `{"kind":"file_change","path":"é.ts","action":"modify"}` -/
def fileChangeLine : List Char :=
  "\x7b\"kind\":\"file_change\",\"path\":\"é.ts\",\"action\":\"modify\"\x7d".toList

/-- One session with its token; a message is what its line says. -/
def oneSession : Reader (List Char) where
  handshake line := if line = tokenLine then some "s1" else none
  parse := .ok

/-- The lines in two chunks. -/
def inTwo (lines : List (List Char)) (n : Nat) : List (List UInt8) :=
  [(Utf8.encode (textOf lines)).take n, (Utf8.encode (textOf lines)).drop n]

theorem cut_inTwo (lines : List (List Char)) (n : Nat) : Cut lines (inTwo lines n) := by
  rw [Cut, inTwo, List.flatten_cons, List.flatten_singleton, List.take_append_drop]

/-- In the handshake, and in the message. -/
theorem same_reading_of_two_chunks :
    outcome oneSession (inTwo [tokenLine, toolDoneLine] 7) =
      outcome oneSession (inTwo [tokenLine, toolDoneLine] 30) := by
  refine (same_reading_iff [tokenLine, toolDoneLine] (by decide +kernel)).1.2 (.inl ⟨?_, ?_⟩) _
    oneSession _ _ (cut_inTwo _ 7) (cut_inTwo _ 30)
  · exact ascii_of_all (by decide +kernel)
  · decide +kernel

/-- The 46th byte is the first of the two of `é`. -/
theorem cut_character_is_lost :
    ¬ ∀ (Message : Type) (reader : Reader Message) (lines : List (List Char))
      (chunks chunks' : List (List UInt8)),
      (∀ line ∈ lines, '\n' ∉ line ∧ units line ≤ maxLineBytes) →
        Cut lines chunks → Cut lines chunks' →
          outcome reader chunks = outcome reader chunks' := by
  intro h
  have hsame := h _ oneSession [tokenLine, fileChangeLine] _ _ (by decide +kernel)
    (cut_inTwo _ 46) (cut_inTwo _ 15)
  exact absurd hsame (by decide +kernel)

end HookInput
end Mullion
