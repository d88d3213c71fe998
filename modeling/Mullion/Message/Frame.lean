import Mathlib.Data.List.Basic
import Mathlib.Tactic
import Mullion.Text

/-!
# What a relayed message looks like

`frameMessage` and `provenanceLabel` (`session-message-queue.ts`), `sanitizePromptText` and
`standardPromptFraming` (`hook-adapters/shared.ts`): a message that one session sends to another is
put between a header and an end line, each of its lines behind `> `, and typed into a terminal. It
must not be able to end its own frame, or to end the paste and go on as keys. A text is a list of
UTF-16 code units, so that lone surrogates are texts too.

Both are questions about which characters survive. A pass that drops, replaces or cuts can only let
through what it was given, and each has its lemma for that (`mem_sanitize`, `mem_collapseWhite`,
`mem_cut` and so on). So no line end is left in the header or in a line of the body, and splitting
the framed text at line ends gives back exactly the lines it was built from (`frame_lines`); in a
prompt no control is left but a tab or a line feed, and none of these where it is typed
(`paste_inert`, `typed_inert`). `frame_contains_message` is all of it.
-/

namespace Mullion
namespace MessageFrame

/-- A UTF-16 code unit. -/
abbrev CodeUnit := UInt16

/-- A string of the language. -/
abbrev Utf16 := List CodeUnit

/-- The code units of a literal. -/
def units (s : String) : Utf16 := (s.toList.flatMap Text.codeUnits).map UInt16.ofNat

/-- A number in a template. -/
def decimal (n : ℕ) : Utf16 := units (toString n)

def tab : CodeUnit := 0x09
def lf : CodeUnit := 0x0a
def cr : CodeUnit := 0x0d
def esc : CodeUnit := 0x1b
def space : CodeUnit := 0x20

/-- `\s`. -/
def isWhite (u : CodeUnit) : Bool :=
  u ∈ [0x09, 0x0a, 0x0b, 0x0c, 0x0d, 0x20, 0xa0, 0x1680, 0x2028, 0x2029, 0x202f, 0x205f, 0x3000,
    0xfeff] || (0x2000 ≤ u && u ≤ 0x200a)

/-- Every character that some reader takes for the end of a line. -/
def isLineBreak (u : CodeUnit) : Bool :=
  u ∈ [0x0a, 0x0b, 0x0c, 0x0d, 0x1c, 0x1d, 0x1e, 0x85, 0x2028, 0x2029]

/-- C0, DEL and C1. -/
def isControl (u : CodeUnit) : Bool := u ≤ 0x1f || (0x7f ≤ u && u ≤ 0x9f)

/-! ## `sanitizePromptText` -/

/-- `[\u0085\u2028\u2029]`. -/
def isSeparator (u : CodeUnit) : Bool := u ∈ [0x85, 0x2028, 0x2029]

/-- `replace(/\r\n?|[\u0085\u2028\u2029]/g, "\n")`; the flag says that a carriage return was
just read. -/
def normalizeBreaks : Bool → Utf16 → Utf16
  | _, [] => []
  | afterCr, u :: rest =>
    if u = cr then lf :: normalizeBreaks true rest
    else if afterCr && u = lf then normalizeBreaks false rest
    else if isSeparator u then lf :: normalizeBreaks false rest
    else u :: normalizeBreaks false rest

/-- The class of characters that `sanitizePromptText` drops. -/
def isDropped (u : CodeUnit) : Bool :=
  u ≤ 0x08 || (0x0b ≤ u && u ≤ 0x1f) || (0x7f ≤ u && u ≤ 0x9f) || u = 0x200e || u = 0x200f ||
    (0x202a ≤ u && u ≤ 0x202e) || (0x2066 ≤ u && u ≤ 0x2069)

/-- Dropping them. -/
def dropControls (text : Utf16) : Utf16 := text.filter (fun u => !isDropped u)

/-- `sanitizePromptText`. -/
def sanitizePromptText (text : Utf16) : Utf16 := dropControls (normalizeBreaks false text)

/-! ## `provenanceLabel` -/

/-- `replace(/\s+/g, " ")`; the flag says that white space was just read. -/
def collapseWhite : Bool → Utf16 → Utf16
  | _, [] => []
  | inWhite, u :: rest =>
    if isWhite u then
      if inWhite then collapseWhite true rest else space :: collapseWhite true rest
    else u :: collapseWhite false rest

/-- `trim`. -/
def trim (text : Utf16) : Utf16 :=
  ((text.dropWhile isWhite).reverse.dropWhile isWhite).reverse

def isHighSurrogate (u : CodeUnit) : Bool := 0xd800 ≤ u && u ≤ 0xdbff

def isLowSurrogate (u : CodeUnit) : Bool := 0xdc00 ≤ u && u ≤ 0xdfff

/-- `[...text]`. -/
def codePoints : Utf16 → List Utf16
  | [] => []
  | [u] => [[u]]
  | u :: v :: rest =>
    if isHighSurrogate u && isLowSurrogate v then [u, v] :: codePoints rest
    else [u] :: codePoints (v :: rest)

/-- A hexadecimal digit, in lower case. -/
def hexDigit (n : ℕ) : CodeUnit :=
  if n % 16 < 10 then UInt16.ofNat (0x30 + n % 16) else UInt16.ofNat (0x57 + n % 16)

/-- `\uXXXX`. -/
def unicodeEscape (u : CodeUnit) : Utf16 :=
  units "\\u" ++ [hexDigit (u.toNat / 4096), hexDigit (u.toNat / 256), hexDigit (u.toNat / 16),
    hexDigit u.toNat]

/-- A code unit that is not part of a pair, in a JSON string. -/
def quoteUnit (u : CodeUnit) : Utf16 :=
  if u = 0x22 then units "\\\""
  else if u = 0x5c then units "\\\\"
  else if u = 0x08 then units "\\b"
  else if u = 0x0c then units "\\f"
  else if u = 0x0a then units "\\n"
  else if u = 0x0d then units "\\r"
  else if u = 0x09 then units "\\t"
  else if u < 0x20 || isHighSurrogate u || isLowSurrogate u then unicodeEscape u
  else [u]

/-- The inside of a JSON string. -/
def quoteUnits : Utf16 → Utf16
  | [] => []
  | [u] => quoteUnit u
  | u :: v :: rest =>
    if isHighSurrogate u && isLowSurrogate v then u :: v :: quoteUnits rest
    else quoteUnit u ++ quoteUnits (v :: rest)

/-- `JSON.stringify` of a string. -/
def stringify (text : Utf16) : Utf16 := units "\"" ++ quoteUnits text ++ units "\""

/-- `provenanceLabel`. -/
def provenanceLabel (projectName : Utf16) : Utf16 :=
  let clean := trim (collapseWhite false (sanitizePromptText projectName))
  let cut := ((codePoints clean).take 80).flatten
  units "project " ++ stringify (if cut = [] then units "?" else cut)

/-! ## `frameMessage` and `standardPromptFraming` -/

/-- The fields of a `QueuedMessage` that are framed. -/
structure Message where
  fromSessionId : ℕ
  fromLabel : Utf16
  text : Utf16

/-- `frameMessage`. -/
def frameMessage (message : Message) : Utf16 :=
  let body := [lf].intercalate
    (((sanitizePromptText message.text).splitOn lf).map (units "> " ++ ·))
  let sender := units "session " ++ decimal message.fromSessionId ++
    (if message.fromLabel = [] then [] else units " (" ++ message.fromLabel ++ units ")")
  units "Message from " ++ sender ++ units ":" ++ lf :: body ++ lf ::
    (units "(end of message from session " ++ decimal message.fromSessionId ++ units ")")

/-- A run of white space: one space where it has a line feed, unchanged elsewhere. -/
def flushWhite (run : Utf16) : Utf16 := if lf ∈ run then [space] else run

/-- `replace(/\s*\n\s*/g, " ")`; `run` is the white space read last. -/
def joinLines : Utf16 → Utf16 → Utf16
  | run, [] => flushWhite run
  | run, u :: rest =>
    if isWhite u then joinLines (run ++ [u]) rest
    else flushWhite run ++ u :: joinLines [] rest

/-- `PromptFraming`. -/
structure PromptFraming where
  body : Utf16
  submit : Utf16
  submitDelayMs : ℕ

def pasteStart : Utf16 := esc :: units "[200~"
def pasteEnd : Utf16 := esc :: units "[201~"

/-- `standardPromptFraming`. -/
def standardPromptFraming (text : Utf16) (bracketedPaste : Bool) : PromptFraming where
  body :=
    let clean := sanitizePromptText text
    if bracketedPaste then pasteStart ++ clean ++ pasteEnd
    else trim (joinLines [] (clean.map fun u => if u = tab then space else u))
  submit := [cr]
  submitDelayMs := 150

/-! ## The lines of a body -/

/-- The lines of a text as it was sent; a carriage return and a line feed are one break. -/
def rawLines : Bool → Utf16 → List Utf16
  | _, [] => [[]]
  | afterCr, u :: rest =>
    if u = cr then [] :: rawLines true rest
    else if afterCr && u = lf then rawLines false rest
    else if u = lf || isSeparator u then [] :: rawLines false rest
    else (rawLines false rest).modifyHead (u :: ·)

/-- The lines of a body, each without what is dropped. -/
def bodyLines (text : Utf16) : List Utf16 := (rawLines false text).map dropControls

/-! ## What survives the passes -/

theorem mem_normalizeBreaks {afterCr : Bool} {text : Utf16} {u : CodeUnit}
    (h : u ∈ normalizeBreaks afterCr text) : isSeparator u = false := by
  induction text generalizing afterCr with
  | nil => cases h
  | cons v rest ih =>
    rw [normalizeBreaks] at h
    split at h
    · rcases List.mem_cons.1 h with rfl | h
      · decide
      · exact ih h
    · split at h
      · exact ih h
      · split at h
        · rcases List.mem_cons.1 h with rfl | h
          · decide
          · exact ih h
        next hsep =>
          rcases List.mem_cons.1 h with rfl | h
          · simpa using hsep
          · exact ih h

theorem mem_sanitize {text : Utf16} {u : CodeUnit} (h : u ∈ sanitizePromptText text) :
    isDropped u = false ∧ isSeparator u = false := by
  obtain ⟨hmem, hkept⟩ := List.mem_filter.1 h
  exact ⟨by simpa using hkept, mem_normalizeBreaks hmem⟩

/-- The only line break that survives is the line feed. -/
theorem isLineBreak_eq_false {u : CodeUnit} (hkept : isDropped u = false)
    (hsep : isSeparator u = false) (hlf : u ≠ lf) : isLineBreak u = false := by
  by_contra h
  simp only [Bool.not_eq_false, isLineBreak, List.mem_cons, decide_eq_true_eq] at h
  rcases h with rfl | rfl | rfl | rfl | rfl | rfl | rfl | rfl | rfl | rfl | h
  · exact hlf rfl
  all_goals first | exact absurd hkept (by decide) | exact absurd hsep (by decide) | cases h

/-- The only controls that survive are the tab and the line feed. -/
theorem isControl_eq_false {u : CodeUnit} (hkept : isDropped u = false) (htab : u ≠ tab)
    (hlf : u ≠ lf) : isControl u = false := by
  have htab' : u.toNat ≠ 9 := fun h => htab (UInt16.toNat_inj.1 h)
  have hlf' : u.toNat ≠ 10 := fun h => hlf (UInt16.toNat_inj.1 h)
  simp only [isDropped, isControl, UInt16.le_iff_toNat_le, Bool.or_eq_false_iff,
    Bool.and_eq_false_iff, decide_eq_false_iff_not, UInt16.reduceToNat] at hkept ⊢
  omega

theorem mem_collapseWhite {inWhite : Bool} {text : Utf16} {u : CodeUnit}
    (h : u ∈ collapseWhite inWhite text) : u = space ∨ (u ∈ text ∧ isWhite u = false) := by
  induction text generalizing inWhite with
  | nil => cases h
  | cons v rest ih =>
    have hrest : ∀ b, u ∈ collapseWhite b rest →
        u = space ∨ (u ∈ v :: rest ∧ isWhite u = false) := by
      intro b hb
      rcases ih hb with hu | ⟨hu, hw⟩
      · exact Or.inl hu
      · exact Or.inr ⟨List.mem_cons_of_mem v hu, hw⟩
    rw [collapseWhite] at h
    split at h
    · split at h
      · exact hrest true h
      · rcases List.mem_cons.1 h with hu | h
        · exact Or.inl hu
        · exact hrest true h
    next hwhite =>
      rcases List.mem_cons.1 h with rfl | h
      · exact Or.inr ⟨List.mem_cons_self, by simpa using hwhite⟩
      · exact hrest false h

theorem mem_trim {text : Utf16} {u : CodeUnit} (h : u ∈ trim text) : u ∈ text := by
  rw [trim, List.mem_reverse] at h
  have h := (List.dropWhile_sublist _).mem h
  rw [List.mem_reverse] at h
  exact (List.dropWhile_sublist _).mem h

theorem flatten_codePoints (text : Utf16) : (codePoints text).flatten = text := by
  fun_induction codePoints text with
  | case1 => rfl
  | case2 u => rfl
  | case3 u v rest hpair ih => simp [ih]
  | case4 u v rest hpair ih => simp [ih]

theorem mem_cut {text : Utf16} {n : ℕ} {u : CodeUnit}
    (h : u ∈ ((codePoints text).take n).flatten) : u ∈ text := by
  rw [← flatten_codePoints text]
  obtain ⟨point, hpoint, hu⟩ := List.mem_flatten.1 h
  exact List.mem_flatten.2 ⟨point, List.mem_of_mem_take hpoint, hu⟩

theorem isLineBreak_hexDigit (n : ℕ) : isLineBreak (hexDigit n) = false := by
  have hall : ∀ m < 16, isLineBreak
      (if m < 10 then UInt16.ofNat (0x30 + m) else UInt16.ofNat (0x57 + m)) = false := by decide
  exact hall (n % 16) (Nat.mod_lt n (by omega))

/-- Literal texts without a line break. -/
theorem isLineBreak_literals {literals : List String}
    (h : (literals.all fun s => (units s).all fun u => !isLineBreak u) = true) :
    ∀ s ∈ literals, ∀ u ∈ units s, isLineBreak u = false := by
  intro s hs u hu
  have hall := List.all_eq_true.1 (List.all_eq_true.1 h s hs) u hu
  simpa using hall

theorem mem_quoteUnit {u v : CodeUnit} (hu : isLineBreak u = false) (h : v ∈ quoteUnit u) :
    isLineBreak v = false := by
  have hescape : ∀ s ∈ ["\\\"", "\\\\", "\\b", "\\f", "\\n", "\\r", "\\t", "\\u"],
      ∀ w ∈ units s, isLineBreak w = false := isLineBreak_literals (by decide)
  have hcases {p : Prop} [Decidable p] {a b : Utf16} (h : v ∈ if p then a else b) :
      v ∈ a ∨ v ∈ b := by
    split at h
    · exact Or.inl h
    · exact Or.inr h
  rw [quoteUnit] at h
  iterate 7
    rcases hcases h with h | h
    · exact hescape _ (by simp) v h
  rcases hcases h with h | h
  · rcases List.mem_append.1 h with h | h
    · exact hescape "\\u" (by simp) v h
    · simp only [List.mem_cons, List.not_mem_nil, or_false] at h
      rcases h with rfl | rfl | rfl | rfl <;> exact isLineBreak_hexDigit _
  · rwa [List.mem_singleton.1 h]

/-- Quoting adds no line break. -/
theorem mem_quoteUnits {text : Utf16} (htext : ∀ u ∈ text, isLineBreak u = false) {v : CodeUnit}
    (h : v ∈ quoteUnits text) : isLineBreak v = false := by
  fun_induction quoteUnits text with
  | case1 => cases h
  | case2 u => exact mem_quoteUnit (htext u (by simp)) h
  | case3 u w rest hpair ih =>
    simp only [List.mem_cons, forall_eq_or_imp] at htext h
    rcases h with rfl | rfl | h
    · exact htext.1
    · exact htext.2.1
    · exact ih htext.2.2 h
  | case4 u w rest hpair ih =>
    simp only [List.mem_cons, forall_eq_or_imp] at htext
    rcases List.mem_append.1 h with h | h
    · exact mem_quoteUnit htext.1 h
    · exact ih (by simpa using htext.2) h

theorem isLineBreak_decimal (n : ℕ) : ∀ u ∈ decimal n, isLineBreak u = false := by
  have hdigit : ∀ m < 10, isLineBreak (UInt16.ofNat (48 + m)) = false := by decide
  intro u hu
  obtain ⟨unit, hunit, rfl⟩ := List.mem_map.1 hu
  obtain ⟨c, hc, hcu⟩ := List.mem_flatMap.1 hunit
  have hd : c.isDigit = true := by
    refine Nat.isDigit_of_mem_toDigits (b := 10) (n := n) (by omega) (by omega) ?_
    simpa [toString, Nat.repr] using hc
  simp only [Char.isDigit, ge_iff_le, Bool.and_eq_true, decide_eq_true_eq, UInt32.le_iff_toNat_le,
    Char.toNat_val] at hd
  have hzero : '0'.toNat = 48 := rfl
  have hnine : '9'.toNat = 57 := rfl
  rw [Text.codeUnits, if_pos (by omega), List.mem_singleton] at hcu
  obtain ⟨m, hm⟩ : ∃ m, unit = 48 + m := ⟨unit - 48, by omega⟩
  rw [hm]
  exact hdigit m (by omega)

/-- Nothing in the name of a project breaks the line. -/
theorem isLineBreak_provenanceLabel (projectName : Utf16) :
    ∀ u ∈ provenanceLabel projectName, isLineBreak u = false := by
  have hliteral : ∀ s ∈ ["project ", "\"", "?"], ∀ w ∈ units s, isLineBreak w = false :=
    isLineBreak_literals (by decide)
  have hcut : ∀ u ∈ ((codePoints (trim (collapseWhite false
      (sanitizePromptText projectName)))).take 80).flatten, isLineBreak u = false := by
    intro u hu
    rcases mem_collapseWhite (mem_trim (mem_cut hu)) with rfl | ⟨hmem, hwhite⟩
    · decide
    · obtain ⟨hkept, hsep⟩ := mem_sanitize hmem
      refine isLineBreak_eq_false hkept hsep ?_
      rintro rfl
      exact absurd hwhite (by decide)
  intro u hu
  simp only [provenanceLabel, stringify, List.mem_append] at hu
  rcases hu with hu | (hu | hu) | hu
  · exact hliteral _ (by simp) u hu
  · exact hliteral _ (by simp) u hu
  · refine mem_quoteUnits ?_ hu
    split
    · exact hliteral _ (by simp)
    · exact hcut
  · exact hliteral _ (by simp) u hu

/-! ## The lines of a framed message -/

theorem rawLines_ne_nil (afterCr : Bool) (text : Utf16) : rawLines afterCr text ≠ [] := by
  induction text generalizing afterCr with
  | nil => simp [rawLines]
  | cons u rest ih =>
    rw [rawLines]
    split_ifs
    · simp
    · exact ih false
    · simp
    · simpa using ih false

theorem map_dropControls_cons (u : CodeUnit) (lines : List Utf16) :
    (lines.modifyHead (u :: ·)).map dropControls =
      if isDropped u then lines.map dropControls
      else (lines.map dropControls).modifyHead (u :: ·) := by
  cases lines with
  | nil => simp
  | cons line rest =>
    by_cases h : isDropped u = true
    · simp [dropControls, h]
    · simp [dropControls, h]

/-- Splitting the sanitised body at the line feeds gives the lines that were sent. -/
theorem splitOn_sanitize (afterCr : Bool) (text : Utf16) :
    (dropControls (normalizeBreaks afterCr text)).splitOn lf =
      (rawLines afterCr text).map dropControls := by
  have hlf : ∀ l, dropControls (lf :: l) = lf :: dropControls l :=
    fun l => List.filter_cons_of_pos (by decide)
  have hsplit : ∀ l : Utf16, (lf :: l).splitOn lf = [] :: l.splitOn lf := by
    intro l
    rw [List.splitOn_cons_eq_if_modifyHead, if_pos (by simp)]
  induction text generalizing afterCr with
  | nil => rfl
  | cons u rest ih =>
    rw [normalizeBreaks, rawLines]
    by_cases hcr : u = cr
    · rw [if_pos hcr, if_pos hcr, hlf, hsplit, ih true]
      rfl
    rw [if_neg hcr, if_neg hcr]
    by_cases hskip : (afterCr && u = lf) = true
    · rw [if_pos hskip, if_pos hskip]
      exact ih false
    rw [if_neg hskip, if_neg hskip]
    by_cases hsep : isSeparator u = true
    · rw [if_pos hsep, if_pos (by simp [hsep]), hlf, hsplit, ih false]
      rfl
    rw [if_neg hsep]
    by_cases hfeed : u = lf
    · rw [if_pos (by simp [hfeed]), hfeed, hlf, hsplit, ih false]
      rfl
    rw [if_neg (by simp [hfeed, hsep]), map_dropControls_cons, ← ih false]
    by_cases hdrop : isDropped u = true
    · rw [if_pos hdrop, dropControls, List.filter_cons_of_neg (by simp [hdrop])]
      rfl
    · rw [if_neg hdrop, dropControls, List.filter_cons_of_pos (by simp [hdrop]),
        List.splitOn_cons_eq_if_modifyHead, if_neg (by simpa using hfeed)]
      rfl

theorem splitOn_sanitizePromptText (text : Utf16) :
    (sanitizePromptText text).splitOn lf = bodyLines text := splitOn_sanitize false text

theorem bodyLines_ne_nil (text : Utf16) : bodyLines text ≠ [] := by
  simpa [bodyLines] using rawLines_ne_nil false text

/-- A piece of a split text holds units of the text that are not the separator. -/
theorem mem_splitOn {text piece : Utf16} (h : piece ∈ text.splitOn lf) :
    ∀ u ∈ piece, u ∈ text ∧ u ≠ lf := by
  induction text generalizing piece with
  | nil =>
    rw [List.splitOn_nil, List.mem_singleton] at h
    simp [h]
  | cons v rest ih =>
    have hrest : ∀ other ∈ rest.splitOn lf, ∀ u ∈ other, u ∈ v :: rest ∧ u ≠ lf :=
      fun other hother u hu => ⟨List.mem_cons_of_mem v (ih hother u hu).1, (ih hother u hu).2⟩
    rw [List.splitOn_cons_eq_if_modifyHead] at h
    split at h
    · rcases List.mem_cons.1 h with rfl | h
      · simp
      · exact hrest piece h
    next hv =>
      cases hsplit : rest.splitOn lf with
      | nil => simp [hsplit] at h
      | cons first others =>
        rw [hsplit] at hrest h
        rcases List.mem_cons.1 h with rfl | h
        · intro u hu
          rcases List.mem_cons.1 hu with rfl | hu
          · exact ⟨List.mem_cons_self, by simpa using hv⟩
          · exact hrest first List.mem_cons_self u hu
        · exact hrest piece (List.mem_cons_of_mem _ h)

/-- No line of a body has a line break in it. -/
theorem isLineBreak_bodyLines (text : Utf16) :
    ∀ line ∈ bodyLines text, ∀ u ∈ line, isLineBreak u = false := by
  intro line hline u hu
  rw [← splitOn_sanitizePromptText] at hline
  obtain ⟨hmem, hlf⟩ := mem_splitOn hline u hu
  obtain ⟨hkept, hsep⟩ := mem_sanitize hmem
  exact isLineBreak_eq_false hkept hsep hlf

/-- Joining lines that have no break in them and splitting at the breaks gives the lines. -/
theorem splitOnP_join {lines : List Utf16} (hne : lines ≠ [])
    (h : ∀ line ∈ lines, ∀ u ∈ line, isLineBreak u = false) :
    ([lf].intercalate lines).splitOnP isLineBreak = lines := by
  induction lines with
  | nil => exact absurd rfl hne
  | cons line rest ih =>
    have hline := h line List.mem_cons_self
    cases rest with
    | nil =>
      rw [List.intercalate_singleton]
      exact List.splitOnP_eq_singleton hline
    | cons next more =>
      rw [List.intercalate_cons_cons, List.append_assoc, List.singleton_append,
        List.splitOnP_append_cons_of_forall_mem hline lf (by decide), ih (by simp)]
      exact fun other hother => h other (List.mem_cons_of_mem _ hother)

/-- The first line of a framed message. -/
def headerLine (projectName : Utf16) (sessionId : ℕ) : Utf16 :=
  units "Message from session " ++ decimal sessionId ++ units " (" ++
    provenanceLabel projectName ++ units "):"

/-- The last line of a framed message. -/
def endLine (sessionId : ℕ) : Utf16 :=
  units "(end of message from session " ++ decimal sessionId ++ units ")"

/-- **The frame.** Splitting a framed message at the line breaks gives a header line, the
lines of the body with a quote mark each, and an end line. -/
theorem frame_lines (projectName text : Utf16) (sessionId : ℕ) :
    (frameMessage ⟨sessionId, provenanceLabel projectName, text⟩).splitOnP isLineBreak =
      headerLine projectName sessionId :: (bodyLines text).map (units "> " ++ ·) ++
        [endLine sessionId] := by
  have hliteral : ∀ s ∈ ["Message from session ", " (", "):", "> ",
      "(end of message from session ", ")"], ∀ w ∈ units s, isLineBreak w = false :=
    isLineBreak_literals (by decide)
  have hheader : ∀ u ∈ headerLine projectName sessionId, isLineBreak u = false := by
    intro u hu
    simp only [headerLine, List.mem_append] at hu
    rcases hu with (((hu | hu) | hu) | hu) | hu
    · exact hliteral _ (by simp) u hu
    · exact isLineBreak_decimal sessionId u hu
    · exact hliteral _ (by simp) u hu
    · exact isLineBreak_provenanceLabel projectName u hu
    · exact hliteral _ (by simp) u hu
  have hend : ∀ u ∈ endLine sessionId, isLineBreak u = false := by
    intro u hu
    simp only [endLine, List.mem_append] at hu
    rcases hu with (hu | hu) | hu
    · exact hliteral _ (by simp) u hu
    · exact isLineBreak_decimal sessionId u hu
    · exact hliteral _ (by simp) u hu
  have hbody : ∀ line ∈ (bodyLines text).map (units "> " ++ ·), ∀ u ∈ line,
      isLineBreak u = false := by
    intro line hline u hu
    obtain ⟨raw, hraw, rfl⟩ := List.mem_map.1 hline
    rcases List.mem_append.1 hu with hu | hu
    · exact hliteral _ (by simp) u hu
    · exact isLineBreak_bodyLines text raw hraw u hu
  have hlabel : provenanceLabel projectName ≠ [] := by
    intro hnil
    rw [provenanceLabel] at hnil
    exact absurd (List.append_eq_nil_iff.1 hnil).1 (by decide)
  have hframe : frameMessage ⟨sessionId, provenanceLabel projectName, text⟩ =
      headerLine projectName sessionId ++ lf ::
        ([lf].intercalate ((bodyLines text).map (units "> " ++ ·)) ++ lf :: endLine sessionId) := by
    simp only [frameMessage, if_neg hlabel, splitOn_sanitizePromptText, headerLine, endLine]
    simp [units, Text.codeUnits]
  rw [hframe, List.splitOnP_append_cons_of_forall_mem hheader lf (by decide),
    List.splitOnP_append_cons _ _ (by decide), splitOnP_join (by simp [bodyLines_ne_nil]) hbody,
    List.splitOnP_eq_singleton hend]
  rfl

/-! ## What a prompt cannot contain -/

/-- Between the paste markers stands no control but tabs and line feeds. -/
theorem paste_inert (text : Utf16) :
    ∃ inner, (standardPromptFraming text true).body = pasteStart ++ inner ++ pasteEnd ∧
      ∀ u ∈ inner, isControl u = true → u = tab ∨ u = lf := by
  refine ⟨sanitizePromptText text, rfl, ?_⟩
  intro u hu hcontrol
  obtain ⟨hkept, -⟩ := mem_sanitize hu
  by_contra h
  rw [not_or] at h
  rw [isControl_eq_false hkept h.1 h.2] at hcontrol
  cases hcontrol

theorem mem_joinLines {run text : Utf16} {u : CodeUnit} (h : u ∈ joinLines run text) :
    u = space ∨ (u ≠ lf ∧ (u ∈ run ∨ u ∈ text)) := by
  have hflush : ∀ run : Utf16, u ∈ flushWhite run → u = space ∨ (u ≠ lf ∧ u ∈ run) := by
    intro run hu
    rw [flushWhite] at hu
    split at hu
    · exact Or.inl (List.mem_singleton.1 hu)
    next hlf => exact Or.inr ⟨fun he => hlf (he ▸ hu), hu⟩
  induction text generalizing run with
  | nil =>
    rcases hflush run h with hu | ⟨hu, hrun⟩
    · exact Or.inl hu
    · exact Or.inr ⟨hu, Or.inl hrun⟩
  | cons v rest ih =>
    rw [joinLines] at h
    split at h
    · rcases ih h with hu | ⟨hu, hrun | hrest⟩
      · exact Or.inl hu
      · refine Or.inr ⟨hu, ?_⟩
        rcases List.mem_append.1 hrun with hrun | hv
        · exact Or.inl hrun
        · exact Or.inr (by simp [List.mem_singleton.1 hv])
      · exact Or.inr ⟨hu, Or.inr (List.mem_cons_of_mem v hrest)⟩
    next hwhite =>
      rcases List.mem_append.1 h with h | h
      · rcases hflush run h with hu | ⟨hu, hrun⟩
        · exact Or.inl hu
        · exact Or.inr ⟨hu, Or.inl hrun⟩
      · rcases List.mem_cons.1 h with rfl | h
        · refine Or.inr ⟨?_, Or.inr List.mem_cons_self⟩
          rintro rfl
          exact hwhite (by decide)
        · rcases ih h with hu | ⟨hu, hrun | hrest⟩
          · exact Or.inl hu
          · cases hrun
          · exact Or.inr ⟨hu, Or.inr (List.mem_cons_of_mem v hrest)⟩

/-- Without bracketed paste a prompt has no line break and no tab. -/
theorem typed_inert (text : Utf16) :
    ∀ u ∈ (standardPromptFraming text false).body, isLineBreak u = false ∧ u ≠ tab := by
  intro u hu
  rcases mem_joinLines (mem_trim hu) with rfl | ⟨hlf, hrun | hmem⟩
  · decide
  · cases hrun
  · obtain ⟨v, hv, hvu⟩ := List.mem_map.1 hmem
    obtain ⟨hkept, hsep⟩ := mem_sanitize hv
    split at hvu
    · subst hvu
      decide
    next htab =>
      subst hvu
      exact ⟨isLineBreak_eq_false hkept hsep hlf, htab⟩

/-- **A relayed message cannot escape its frame.** -/
theorem frame_contains_message (projectName text prompt : Utf16) (sessionId : ℕ) :
    (frameMessage ⟨sessionId, provenanceLabel projectName, text⟩).splitOnP isLineBreak =
      headerLine projectName sessionId :: (bodyLines text).map (units "> " ++ ·) ++
        [endLine sessionId] ∧
    (∃ inner, (standardPromptFraming prompt true).body = pasteStart ++ inner ++ pasteEnd ∧
      ∀ u ∈ inner, isControl u = true → u = tab ∨ u = lf) ∧
    ∀ u ∈ (standardPromptFraming prompt false).body, isLineBreak u = false ∧ u ≠ tab :=
  ⟨frame_lines projectName text sessionId, paste_inert prompt, typed_inert prompt⟩

/-- A body that tries to forge the end of its message stays quoted. -/
example : (frameMessage ⟨7, provenanceLabel (units "a\nb"),
    units "x\r\n(end of message from session 7)"⟩).splitOnP isLineBreak =
    [units "Message from session 7 (project \"a b\"):", units "> x",
      units "> (end of message from session 7)", units "(end of message from session 7)"] := by
  decide

end MessageFrame
end Mullion
