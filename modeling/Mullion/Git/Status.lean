import Mathlib.Data.List.DropRight
import Mullion.Lib.Utf8
import Mullion.Text

/-!
# Reading `git status`

`git-status.ts` reads the output of `git status --porcelain=v2 --branch` and takes it apart line by
line. A `Status` is what git has to say, and `Status.print` how it prints it: a name with a quote, a
backslash or a control character is printed in quotes (`quotePath`). The parser knows nothing of
quotes, it trims the name of the branch, and it decodes each piece of the output by itself. So the
status is recovered (`Correct`) exactly where it is `Intact`: no name of a file needs quotes, the
branch is one that `trim` keeps and is not named `(detached)`, and no piece ends inside a character
of these names.

Nothing but names can be cut, since all else is ASCII, so what is decoded is the printed text with
other names in it (`ImageLines`). The parser is followed line by line over such a text
(`parseLine_entry` and its cases, then the lines of the header). A name then comes back exactly if
it is the one that was printed: quoting makes a name longer, and a cut puts U+FFFD into it.
`correct_iff` collects the names, and the branch is dealt with in `branch_iff`.
-/

namespace Mullion
namespace Porcelain

open Utf8

/-! ## The parser -/

/-- `GitFileStatus`. -/
structure GitFileStatus where
  path : List Char
  status : Char
  deriving DecidableEq

/-- `GitStatus`. -/
structure GitStatus where
  branch : List Char
  hash : Option (List Char)
  ahead : ℕ
  behind : ℕ
  files : List GitFileStatus
  isClean : Bool
  hasConflicts : Bool
  deriving DecidableEq

/-- `trim`. -/
def trim (text : List Char) : List Char :=
  ((text.dropWhile Text.isWhite).reverse.dropWhile Text.isWhite).reverse

/-- `pieces.join(" ")`. -/
def joinSpaces (pieces : List (List Char)) : List Char := [' '].intercalate pieces

/-- `classifyXY`. -/
def classifyXY (xy : List Char) : Char :=
  let staged := xy[0]?.getD '.'
  let worktree := xy[1]?.getD '.'
  let active := if worktree ≠ '.' then worktree else staged
  match active with
  | 'A' => 'A'
  | 'D' => 'D'
  | _ => 'M'

/-- `/^# branch\.ab \+(\d+) -(\d+)/`, behind its first part; the numbers are small enough to be
exact. -/
def matchAb (text : List Char) : Option (ℕ × ℕ) :=
  match text with
  | '+' :: text =>
    let ahead := text.takeWhile Char.isDigit
    match ahead, text.dropWhile Char.isDigit with
    | _ :: _, ' ' :: '-' :: text =>
      let behind := text.takeWhile Char.isDigit
      if behind = [] then none
      else some (Nat.ofDigitChars 10 ahead 0, Nat.ofDigitChars 10 behind 0)
    | _, _ => none
  | _ => none

/-- The variables of the loop. -/
structure Parsed where
  branch : List Char := "HEAD".toList
  hash : Option (List Char) := none
  ahead : ℕ := 0
  behind : ℕ := 0
  files : List GitFileStatus := []
  hasConflicts : Bool := false

/-- The body of the loop. -/
def parseLine (p : Parsed) (line : List Char) : Parsed :=
  let startsWith := fun tag : List Char => tag.isPrefixOf line
  let after := fun tag : List Char => line.drop tag.length
  if line = [] then p
  else if startsWith "# branch.oid ".toList then
    let oid := trim (after "# branch.oid ".toList)
    { p with hash := if oid = "(initial)".toList then none else some (oid.take 7) }
  else if startsWith "# branch.head ".toList then
    { p with branch := trim (after "# branch.head ".toList) }
  else if startsWith "# branch.ab ".toList then
    match matchAb (after "# branch.ab ".toList) with
    | some (ahead, behind) => { p with ahead, behind }
    | none => p
  else if startsWith "1 ".toList || startsWith "2 ".toList then
    let fields := line.splitOn ' '
    let xy := fields[1]?.getD "..".toList
    let filePath :=
      if startsWith "2 ".toList then
        joinSpaces ((((line.splitOn '\t')[0]?.getD []).splitOn ' ').drop 9)
      else joinSpaces (fields.drop 8)
    { p with files := p.files ++ [⟨filePath, classifyXY xy⟩] }
  else if startsWith "u ".toList then
    let fields := line.splitOn ' '
    { p with hasConflicts := true, files := p.files ++ [⟨joinSpaces (fields.drop 10), 'U'⟩] }
  else if startsWith "? ".toList then
    { p with files := p.files ++ [⟨line.drop 2, '?'⟩] }
  else p

/-- `parsePorcelainV2`. -/
def parsePorcelainV2 (output : List Char) : GitStatus :=
  let p := (output.splitOn '\n').foldl parseLine {}
  let branch :=
    if p.branch = "(detached)".toList then p.hash.getD "HEAD".toList else p.branch
  ⟨branch, p.hash, p.ahead, p.behind, p.files, p.files.isEmpty, p.hasConflicts⟩

/-- `stdout` of `runGitStatus`, from the chunks it arrives in. -/
def runGitStatus (chunks : List (List UInt8)) : List Char := decodeChunks chunks

/-! ## What git prints -/

/-- A text between two spaces: visible, and of one-byte characters. -/
structure Column where
  text : List Char
  visible : ∀ c ∈ text, 0x21 ≤ c.toNat ∧ c.toNat ≤ 0x7e

/-- The id of a commit. -/
structure Oid where
  text : List Char
  hex : ∀ c ∈ text, c.isDigit ∨ 'a' ≤ c ∧ c ≤ 'f'

/-- A changed file. -/
inductive Entry where
  | ordinary (xy sub mH mI mW hH hI : Column) (path : List Char)
  | renamed (xy sub mH mI mW hH hI score : Column) (path origPath : List Char)
  | unmerged (xy sub m1 m2 m3 mW h1 h2 h3 : Column) (path : List Char)
  | untracked (path : List Char)

/-- What `HEAD` is. -/
inductive Head where
  | branch (name : List Char)
  | detached

/-- An upstream branch and, where it is there, how far the two are apart. -/
structure Upstream where
  name : List Char
  oneLine : '\n' ∉ name
  counts : Option (ℕ × ℕ)

/-- What git has to say. -/
structure Status where
  oid : Option Oid
  head : Head
  /-- a branch has no line break in its name -/
  oneLine : ∀ name, head = .branch name → '\n' ∉ name
  upstream : Option Upstream
  entries : List Entry

/-- A character that is not printed as it is. -/
def special (c : Char) : Bool := c = '"' || c = '\\' || c.toNat < 0x20 || c.toNat = 0x7f

/-- The characters with an escape of one letter. -/
def escapes : List (Char × Char) :=
  [('\x07', 'a'), ('\x08', 'b'), ('\t', 't'), ('\n', 'n'), ('\x0b', 'v'), ('\x0c', 'f'),
    ('\r', 'r'), ('"', '"'), ('\\', '\\')]

/-- The escape of a character. -/
def escape (c : Char) : List Char :=
  match escapes.lookup c with
  | some letter => ['\\', letter]
  | none =>
    ['\\', Nat.digitChar (c.toNat / 64 % 8), Nat.digitChar (c.toNat / 8 % 8),
      Nat.digitChar (c.toNat % 8)]

/-- The name of a file, in quotes where it needs them. -/
def quotePath (path : List Char) : List Char :=
  if path.any special then
    '"' :: path.flatMap (fun c => if special c then escape c else [c]) ++ ['"']
  else path

/-- The name of the file of an entry; the new one. -/
def Entry.path : Entry → List Char
  | .ordinary _ _ _ _ _ _ _ path => path
  | .renamed _ _ _ _ _ _ _ _ path _ => path
  | .unmerged _ _ _ _ _ _ _ _ _ path => path
  | .untracked path => path

/-- The columns before the name. -/
def Entry.columns : Entry → List (List Char)
  | .ordinary xy sub mH mI mW hH hI _ => ['1'] :: [xy, sub, mH, mI, mW, hH, hI].map (·.text)
  | .renamed xy sub mH mI mW hH hI score _ _ =>
    ['2'] :: [xy, sub, mH, mI, mW, hH, hI, score].map (·.text)
  | .unmerged xy sub m1 m2 m3 mW h1 h2 h3 _ =>
    ['u'] :: [xy, sub, m1, m2, m3, mW, h1, h2, h3].map (·.text)
  | .untracked _ => [['?']]

/-- What is before the name. -/
def Entry.before (e : Entry) : List Char := e.columns.flatMap (· ++ [' '])

/-- What is behind the name. -/
def Entry.behind : Entry → List Char
  | .renamed _ _ _ _ _ _ _ _ _ origPath => '\t' :: quotePath origPath
  | _ => []

/-- The line of an entry. -/
def Entry.line (e : Entry) : List Char := e.before ++ quotePath e.path ++ e.behind

/-- Lines, each with its end. -/
def printLines (lines : List (List Char)) : List Char := lines.flatMap (· ++ ['\n'])

def Status.oidLine (s : Status) : List Char :=
  "# branch.oid ".toList ++ (s.oid.map (·.text)).getD "(initial)".toList

/-- What is before the name of the branch. -/
def Status.beforeHead (s : Status) : List Char :=
  printLines [s.oidLine] ++ "# branch.head ".toList

def Head.text : Head → List Char
  | .branch name => name
  | .detached => "(detached)".toList

def Upstream.lines (u : Upstream) : List (List Char) :=
  ("# branch.upstream ".toList ++ u.name) ::
    match u.counts with
    | some (ahead, behind) =>
      ["# branch.ab ".toList ++
        ('+' :: Nat.toDigits 10 ahead ++ (' ' :: '-' :: Nat.toDigits 10 behind))]
    | none => []

/-- The lines before the entries. -/
def Status.header (s : Status) : List (List Char) :=
  [s.oidLine, "# branch.head ".toList ++ s.head.text] ++
    match s.upstream with
    | some u => u.lines
    | none => []

/-- `git status --porcelain=v2 --branch`. -/
def Status.print (s : Status) : List Char := printLines (s.header ++ s.entries.map Entry.line)

/-! ## What is promised -/

def Entry.isUnmerged : Entry → Bool
  | .unmerged .. => true
  | _ => false

/-- The branch to be shown; without one, the short id. -/
def Status.branch (s : Status) : List Char :=
  match s.head with
  | .branch name => name
  | .detached => (s.oid.map fun oid => oid.text.take 7).getD "HEAD".toList

def Status.counts (s : Status) : ℕ × ℕ := (s.upstream.bind (·.counts)).getD (0, 0)

/-- The status is recovered. -/
structure Correct (s : Status) (result : GitStatus) : Prop where
  files : result.files.map (·.path) = s.entries.map Entry.path
  conflicts : result.hasConflicts = true ↔ ∃ e ∈ s.entries, e.isUnmerged = true
  clean : result.isClean = true ↔ s.entries = []
  branch : result.branch = s.branch
  counts : (result.ahead, result.behind) = s.counts

/-- No name is changed on the way. -/
structure Intact (s : Status) (chunks : List (List UInt8)) : Prop where
  branch : ∀ name, s.head = .branch name →
    trim name = name ∧ name ≠ "(detached)".toList ∧ ¬ Splits chunks s.beforeHead name
  entries : ∀ first e rest, s.entries = first ++ e :: rest → ¬ e.path.any special ∧
    ¬ Splits chunks (printLines (s.header ++ first.map Entry.line) ++ e.before) e.path

/-! ## Splitting a line -/

/-- Behind some columns the pieces are those of the rest. -/
theorem splitOn_columns {columns : List (List Char)} (h : ∀ column ∈ columns, ' ' ∉ column)
    (text : List Char) :
    (columns.flatMap (· ++ [' ']) ++ text).splitOn ' ' = columns ++ text.splitOn ' ' := by
  induction columns with
  | nil => rfl
  | cons column columns ih =>
    rw [List.flatMap_cons, List.append_assoc, List.append_assoc, List.singleton_append,
      List.splitOn_append_cons_self_of_not_mem (h column List.mem_cons_self),
      ih fun c hc => h c (List.mem_cons_of_mem _ hc), List.cons_append]

/-- The name behind some columns. -/
theorem join_drop_columns {columns : List (List Char)} (h : ∀ column ∈ columns, ' ' ∉ column)
    (text : List Char) {n : ℕ} (hn : columns.length = n) :
    joinSpaces (((columns.flatMap (· ++ [' ']) ++ text).splitOn ' ').drop n) = text := by
  rw [splitOn_columns h, ← hn, List.drop_left, joinSpaces, List.intercalate_splitOn]

theorem printLines_cons (line : List Char) (lines : List (List Char)) :
    printLines (line :: lines) = line ++ ['\n'] ++ printLines lines := rfl

/-- The lines of a text. -/
theorem splitOn_printLines {lines : List (List Char)} (h : ∀ line ∈ lines, '\n' ∉ line) :
    (printLines lines).splitOn '\n' = lines ++ [[]] := by
  induction lines with
  | nil => rfl
  | cons line lines ih =>
    rw [printLines, List.flatMap_cons, List.append_assoc, List.singleton_append,
      List.splitOn_append_cons_self_of_not_mem (h line List.mem_cons_self), ← printLines,
      ih fun l hl => h l (List.mem_cons_of_mem _ hl), List.cons_append]

/-! ## Trimmed names -/

theorem trim_eq_self_iff {text : List Char} : trim text = text ↔
    text.dropWhile Text.isWhite = text ∧ text.reverse.dropWhile Text.isWhite = text.reverse := by
  constructor
  · intro h
    have hback := List.dropWhile_suffix Text.isWhite (l := (text.dropWhile Text.isWhite).reverse)
    have hfront := List.dropWhile_suffix Text.isWhite (l := text)
    have hlength := congrArg List.length h
    rw [trim, List.length_reverse] at hlength
    have hle := hback.length_le
    rw [List.length_reverse] at hle
    have hsame : text.dropWhile Text.isWhite = text :=
      hfront.eq_of_length (le_antisymm hfront.length_le (hlength ▸ hle))
    refine ⟨hsame, ?_⟩
    rw [trim, hsame] at h
    rw [← List.reverse_eq_iff, h]
  · rintro ⟨hfront, hback⟩
    rw [trim, hfront, hback, List.reverse_reverse]

theorem trim_trim (text : List Char) : trim (trim text) = trim text :=
  Text.dropEnds_dropEnds Text.isWhite text

/-- A name whose ends are not white is trimmed. -/
theorem trim_of_ends {text front back : List Char} {c d : Char} (hfront : text = c :: back)
    (hback : text = front ++ [d]) (hc : Text.isWhite c = false) (hd : Text.isWhite d = false) :
    trim text = text := by
  rw [trim_eq_self_iff]
  constructor
  · rw [hfront, List.dropWhile_cons_of_neg (by simp [hc])]
  · rw [hback, List.reverse_append, List.reverse_singleton, List.singleton_append,
      List.dropWhile_cons_of_neg (by simp [hd])]

/-- A text from which nothing is dropped does not begin with white space. -/
theorem not_white_of_dropWhile {c : Char} {rest : List Char}
    (h : (c :: rest).dropWhile Text.isWhite = c :: rest) : Text.isWhite c = false := by
  by_contra hwhite
  have hlength := congrArg List.length h
  rw [List.dropWhile_cons_of_pos (by simpa using hwhite), List.length_cons] at hlength
  have := (List.dropWhile_suffix Text.isWhite (l := rest)).length_le
  omega

/-- A trimmed name stays trimmed in pieces. -/
theorem trim_image {chunks : List (List UInt8)} {front name out : List Char}
    (h : Image chunks front name out) (hname : trim name = name) : trim out = out := by
  obtain ⟨hfront, hback⟩ := trim_eq_self_iff.1 hname
  have hwhite : Text.isWhite replacement = false := by decide
  rcases List.eq_nil_or_concat name with rfl | ⟨init, d, rfl⟩
  · cases h
    rfl
  · rw [List.concat_eq_append] at h hfront hback
    rw [List.reverse_append, List.reverse_singleton, List.singleton_append] at hback
    have hd := not_white_of_dropWhile hback
    cases hcons : init ++ [d] with
    | nil => exact absurd hcons (by simp)
    | cons c rest =>
      rw [hcons] at hfront
      have hc := not_white_of_dropWhile hfront
      obtain ⟨d', back, hback', hd'⟩ := h.concat
      rw [hcons] at h
      obtain ⟨c', rest', hout, hc'⟩ := h.head_cons
      refine trim_of_ends hout hback' ?_ ?_
      · rcases hc' with rfl | rfl
        · exact hc
        · exact hwhite
      · rcases hd' with rfl | rfl
        · exact hd
        · exact hwhite

/-! ## Quoted names -/

theorem le_of_mem_escape {c d : Char} (h : d ∈ escape c) : 0x20 ≤ d.toNat := by
  have hdigit (n : ℕ) : 0x20 ≤ (Nat.digitChar (n % 8)).toNat := by
    have hall : ∀ d : Fin 8, 0x20 ≤ (Nat.digitChar d).toNat := by decide
    exact hall ⟨n % 8, Nat.mod_lt n (by decide)⟩
  have hletter : ∀ e ∈ escapes, 0x20 ≤ e.2.toNat := by decide
  rw [escape] at h
  cases hlookup : escapes.lookup c with
  | some letter =>
    rw [hlookup] at h
    simp only [List.mem_cons, List.not_mem_nil, or_false] at h
    rcases h with rfl | rfl
    · decide
    · obtain ⟨front, back, hescapes, -⟩ := List.lookup_eq_some_iff.1 hlookup
      exact hletter (c, d) (hescapes ▸ List.mem_append_right _ List.mem_cons_self)
  | none =>
    rw [hlookup] at h
    simp only [List.mem_cons, List.not_mem_nil, or_false] at h
    rcases h with rfl | rfl | rfl | rfl
    · decide
    · exact hdigit _
    · exact hdigit _
    · exact hdigit _

theorem escape_ne_nil (c : Char) : escape c ≠ [] := by
  rw [escape]
  split <;> exact List.cons_ne_nil _ _

/-- No printed name holds a control character. -/
theorem le_of_mem_quotePath {path : List Char} {d : Char} (h : d ∈ quotePath path) :
    0x20 ≤ d.toNat := by
  have hplain {c : Char} (hc : ¬ special c = true) : 0x20 ≤ c.toNat := by
    simp only [special, Bool.or_eq_true, decide_eq_true_eq, not_or] at hc
    omega
  rw [quotePath] at h
  split_ifs at h with hspecial
  · rcases List.mem_append.1 h with h | h
    · rcases List.mem_cons.1 h with rfl | h
      · decide
      · obtain ⟨c, -, hd⟩ := List.mem_flatMap.1 h
        split_ifs at hd with hc
        · exact le_of_mem_escape hd
        · rw [List.mem_singleton.1 hd]
          exact hplain hc
    · rw [List.mem_singleton.1 h]
      decide
  · rw [Bool.not_eq_true, List.any_eq_false] at hspecial
    exact hplain (hspecial d h)

/-- A name in quotes is longer. -/
theorem length_quotePath {path : List Char} (h : path.any special = true) :
    path.length < (quotePath path).length := by
  have hle : path.length ≤
      (path.flatMap fun c => if special c then escape c else [c]).length := by
    clear h
    induction path with
    | nil => exact le_rfl
    | cons c path ih =>
      have hone : 1 ≤ (if special c then escape c else [c]).length := by
        split_ifs
        · exact List.length_pos_iff.2 (escape_ne_nil c)
        · exact le_rfl
      rw [List.flatMap_cons, List.length_append, List.length_cons]
      omega
  rw [quotePath, if_pos h, List.length_append, List.length_cons]
  omega

/-- What is read of a name is the name where it needs no quotes and is whole. -/
theorem image_quotePath {chunks : List (List UInt8)} {front path out : List Char}
    (h : Image chunks front (quotePath path) out) :
    out = path ↔ ¬ path.any special ∧ ¬ Splits chunks front path := by
  by_cases hspecial : path.any special = true
  · refine iff_of_false (fun heq => ?_) fun hplain => hplain.1 hspecial
    have hlt := length_quotePath hspecial
    have hle := h.length_le
    rw [heq] at hle
    omega
  · rw [quotePath, if_neg hspecial] at h
    rw [h.eq_iff, and_iff_right hspecial]

/-! ## The line of an entry -/

/-- The code of an entry. -/
def Entry.code : Entry → Char
  | .ordinary xy _ _ _ _ _ _ _ => classifyXY xy.text
  | .renamed xy _ _ _ _ _ _ _ _ _ => classifyXY xy.text
  | .unmerged .. => 'U'
  | .untracked _ => '?'

/-- The columns are visible. -/
theorem Entry.visible (e : Entry) :
    ∀ column ∈ e.columns, ∀ c ∈ column, 0x21 ≤ c.toNat ∧ c.toNat ≤ 0x7e := by
  have hall {tag : Char} (htag : 0x21 ≤ tag.toNat ∧ tag.toNat ≤ 0x7e) (columns : List Column) :
      ∀ column ∈ [tag] :: columns.map (·.text), ∀ c ∈ column,
        0x21 ≤ c.toNat ∧ c.toNat ≤ 0x7e := by
    intro column hcolumn c hc
    rcases List.mem_cons.1 hcolumn with rfl | hcolumn
    · rw [List.mem_singleton.1 hc]
      exact htag
    · obtain ⟨column, -, rfl⟩ := List.mem_map.1 hcolumn
      exact column.visible c hc
  cases e with
  | ordinary => exact hall (by decide) _
  | renamed => exact hall (by decide) _
  | unmerged => exact hall (by decide) _
  | untracked => exact hall (by decide) []

theorem Entry.space_not_mem (e : Entry) : ∀ column ∈ e.columns, ' ' ∉ column :=
  fun column hcolumn h => absurd (e.visible column hcolumn _ h).1 (by decide)

theorem Entry.tab_not_mem_before (e : Entry) : '\t' ∉ e.before := by
  intro h
  obtain ⟨column, hcolumn, h⟩ := List.mem_flatMap.1 h
  rcases List.mem_append.1 h with h | h
  · exact absurd (e.visible column hcolumn _ h).1 (by decide)
  · exact absurd (List.mem_singleton.1 h) (by decide)

theorem parseLine_ordinary (p : Parsed) (line : List Char) {rest : List Char}
    (h : line = '1' :: ' ' :: rest) :
    parseLine p line =
      { p with files := p.files ++
        [⟨joinSpaces ((line.splitOn ' ').drop 8),
          classifyXY ((line.splitOn ' ')[1]?.getD "..".toList)⟩] } := by
  subst h
  rfl

theorem parseLine_renamed (p : Parsed) (line : List Char) {rest : List Char}
    (h : line = '2' :: ' ' :: rest) :
    parseLine p line =
      { p with files := p.files ++
        [⟨joinSpaces ((((line.splitOn '\t')[0]?.getD []).splitOn ' ').drop 9),
          classifyXY ((line.splitOn ' ')[1]?.getD "..".toList)⟩] } := by
  subst h
  rfl

theorem parseLine_unmerged (p : Parsed) (line : List Char) {rest : List Char}
    (h : line = 'u' :: ' ' :: rest) :
    parseLine p line =
      { p with
        hasConflicts := true
        files := p.files ++ [⟨joinSpaces ((line.splitOn ' ').drop 10), 'U'⟩] } := by
  subst h
  rfl

theorem parseLine_untracked (p : Parsed) (line : List Char) {rest : List Char}
    (h : line = '?' :: ' ' :: rest) :
    parseLine p line = { p with files := p.files ++ [⟨rest, '?'⟩] } := by
  subst h
  rfl

/-- The line of an entry is taken apart. -/
theorem parseLine_entry (p : Parsed) (e : Entry) {name behind : List Char} (hname : '\t' ∉ name)
    (hbehind : e.behind = [] → behind = [])
    (htab : e.behind ≠ [] → ∃ rest, behind = '\t' :: rest) :
    parseLine p (e.before ++ name ++ behind) =
      { p with
        files := p.files ++ [⟨name, e.code⟩]
        hasConflicts := p.hasConflicts || e.isUnmerged } := by
  have hspace := e.space_not_mem
  have htabs := e.tab_not_mem_before
  have hcode (text : List Char) : ((e.before ++ text).splitOn ' ')[1]? =
      (e.columns ++ text.splitOn ' ')[1]? := by
    rw [Entry.before, splitOn_columns hspace]
  have hjoin (n : ℕ) (hn : e.columns.length = n) :
      joinSpaces (((e.before ++ name).splitOn ' ').drop n) = name :=
    join_drop_columns hspace name hn
  cases e with
  | ordinary xy sub mH mI mW hH hI path =>
    obtain rfl := hbehind rfl
    rw [List.append_nil]
    rw [parseLine_ordinary p (Entry.before _ ++ name) rfl]
    rw [hcode, hjoin 8 rfl]
    simp only [Entry.isUnmerged, Bool.or_false]
    rfl
  | renamed xy sub mH mI mW hH hI score path origPath =>
    obtain ⟨rest, rfl⟩ := htab (List.cons_ne_nil _ _)
    have hfront := List.splitOn_append_cons_self_of_not_mem
      (fun h => (List.mem_append.1 h).elim htabs hname) rest
    rw [parseLine_renamed p (Entry.before _ ++ name ++ '\t' :: rest) rfl]
    rw [hfront, List.append_assoc, hcode]
    simp only [Entry.isUnmerged, Bool.or_false, List.getElem?_cons_zero, Option.getD_some]
    rw [hjoin 9 rfl]
    rfl
  | unmerged xy sub m1 m2 m3 mW h1 h2 h3 path =>
    obtain rfl := hbehind rfl
    rw [List.append_nil]
    rw [parseLine_unmerged p (Entry.before _ ++ name) rfl]
    rw [hjoin 10 rfl]
    simp only [Entry.isUnmerged, Bool.or_true]
    rfl
  | untracked path =>
    obtain rfl := hbehind rfl
    rw [List.append_nil]
    rw [parseLine_untracked p (Entry.before _ ++ name) rfl]
    simp only [Entry.isUnmerged, Bool.or_false]
    rfl

/-! ## The lines in pieces -/

section Pieces

variable {chunks : List (List UInt8)} {front : List Char} {lines outs : List (List Char)}
  {out : List Char}

/-- What is read of some lines that follow `front`. -/
inductive ImageLines (chunks : List (List UInt8)) :
    List Char → List (List Char) → List (List Char) → Prop
  | nil (front : List Char) : ImageLines chunks front [] []
  | cons {front line out : List Char} {lines outs : List (List Char)} :
      Image chunks front line out → ImageLines chunks (front ++ (line ++ ['\n'])) lines outs →
        ImageLines chunks front (line :: lines) (out :: outs)

theorem image_printLines (h : Image chunks front (printLines lines) out) :
    ∃ outs, out = printLines outs ∧ ImageLines chunks front lines outs := by
  induction lines generalizing front out with
  | nil =>
    cases h
    exact ⟨[], rfl, .nil front⟩
  | cons line lines ih =>
    rw [printLines, List.flatMap_cons, ← printLines] at h
    obtain ⟨o₁, o₂, rfl, h₁, h₂⟩ := h.append
    obtain ⟨outs, rfl, houts⟩ := ih h₂
    obtain ⟨o, e, rfl, hline, hend⟩ := h₁.append
    obtain rfl := hend.eq_of_ascii (forall_ascii (by decide))
    exact ⟨o :: outs, rfl, .cons hline houts⟩

theorem ImageLines.append {lines' : List (List Char)}
    (h : ImageLines chunks front (lines ++ lines') outs) :
    ∃ o₁ o₂, outs = o₁ ++ o₂ ∧ ImageLines chunks front lines o₁ ∧
      ImageLines chunks (front ++ printLines lines) lines' o₂ := by
  induction lines generalizing front outs with
  | nil => exact ⟨[], outs, rfl, .nil front, by rwa [printLines, List.flatMap_nil, List.append_nil]⟩
  | cons line lines ih =>
    rw [List.cons_append] at h
    cases h with
    | cons hline h =>
      obtain ⟨o₁, o₂, rfl, h₁, h₂⟩ := ih h
      refine ⟨_ :: o₁, o₂, rfl, .cons hline h₁, ?_⟩
      rwa [List.append_assoc, ← printLines_cons] at h₂

/-- A line stays a line. -/
theorem Image.newline_not_mem {line : List Char} (h : Image chunks front line out)
    (hline : '\n' ∉ line) : '\n' ∉ out := by
  intro hmem
  rcases h.mem hmem with hmem | hmem
  · exact hline hmem
  · exact absurd hmem (by decide)

theorem ImageLines.newline_not_mem (h : ImageLines chunks front lines outs)
    (hlines : ∀ line ∈ lines, '\n' ∉ line) : ∀ out ∈ outs, '\n' ∉ out := by
  induction h with
  | nil => exact nofun
  | cons hline _ ih =>
    intro out hout
    rcases List.mem_cons.1 hout with rfl | hout
    · exact Image.newline_not_mem hline (hlines _ List.mem_cons_self)
    · exact ih (fun line hl => hlines line (List.mem_cons_of_mem _ hl)) out hout

theorem Entry.before_ascii (e : Entry) : ∀ c ∈ e.before, c.toNat ≤ 0x7f := by
  intro c hc
  obtain ⟨column, hcolumn, hc⟩ := List.mem_flatMap.1 hc
  rcases List.mem_append.1 hc with hc | hc
  · have := (e.visible column hcolumn c hc).2
    omega
  · rw [List.mem_singleton.1 hc]
    decide

/-- The line of an entry, in pieces. -/
theorem parseLine_image (p : Parsed) (e : Entry) (h : Image chunks front e.line out) :
    ∃ name, parseLine p out =
        { p with
          files := p.files ++ [⟨name, e.code⟩]
          hasConflicts := p.hasConflicts || e.isUnmerged } ∧
      (name = e.path ↔ ¬ e.path.any special ∧ ¬ Splits chunks (front ++ e.before) e.path) := by
  rw [Entry.line] at h
  obtain ⟨o, behind, rfl, h, hbehind⟩ := h.append
  obtain ⟨before, name, rfl, hbefore, hname⟩ := h.append
  obtain rfl := hbefore.eq_of_ascii e.before_ascii
  refine ⟨name, ?_, image_quotePath hname⟩
  refine parseLine_entry p e (fun htab => ?_) (fun hnil => ?_) fun hne => ?_
  · rcases hname.mem htab with hmem | hmem
    · exact absurd (le_of_mem_quotePath hmem) (by decide)
    · exact absurd hmem (by decide)
  · rw [hnil] at hbehind
    cases hbehind
    rfl
  · cases e with
    | renamed =>
      rw [Entry.behind, ← List.singleton_append] at hbehind
      obtain ⟨tab, rest, rfl, htab, -⟩ := hbehind.append
      rw [htab.eq_of_ascii (forall_ascii (by decide))]
      exact ⟨rest, rfl⟩
    | ordinary => exact absurd rfl hne
    | unmerged => exact absurd rfl hne
    | untracked => exact absurd rfl hne

/-- The lines of the entries, in pieces. -/
theorem foldl_entries (p : Parsed) {entries : List Entry}
    (h : ImageLines chunks front (entries.map Entry.line) outs) :
    ∃ files, outs.foldl parseLine p =
        { p with
          files := p.files ++ files
          hasConflicts := p.hasConflicts || entries.any Entry.isUnmerged } ∧
      files.length = entries.length ∧
      (files.map (·.path) = entries.map Entry.path ↔
        ∀ first e rest, entries = first ++ e :: rest → ¬ e.path.any special ∧
          ¬ Splits chunks (front ++ printLines (first.map Entry.line) ++ e.before) e.path) := by
  induction entries generalizing front outs p with
  | nil =>
    cases h
    refine ⟨[], ?_, rfl, iff_of_true rfl fun first e rest hnil => ?_⟩
    · rw [List.append_nil, List.any_nil, Bool.or_false]
      rfl
    · exact absurd hnil (by simp)
  | cons e entries ih =>
    rw [List.map_cons] at h
    cases h with
    | cons hline h =>
      obtain ⟨name, hparse, hname⟩ := parseLine_image p e hline
      obtain ⟨files, hfold, hlength, hfiles⟩ := ih (parseLine p _) h
      refine ⟨⟨name, e.code⟩ :: files, ?_, congrArg (· + 1) hlength, ?_⟩
      · rw [List.foldl_cons, hfold, hparse]
        simp only [List.append_assoc, List.singleton_append, List.any_cons, Bool.or_assoc]
      · rw [List.map_cons, List.map_cons, List.cons.injEq, hname, hfiles]
        constructor
        · rintro ⟨hfirst, hrest⟩ first e' rest hsplit
          cases first with
          | nil =>
            obtain ⟨rfl, -⟩ := List.cons.inj hsplit
            rwa [List.map_nil, printLines, List.flatMap_nil, List.append_nil]
          | cons d first =>
            obtain ⟨rfl, rfl⟩ := List.cons.inj hsplit
            rw [List.map_cons, printLines_cons, ← List.append_assoc front]
            exact hrest first e' rest rfl
        · intro hall
          refine ⟨?_, fun first e' rest hsplit => ?_⟩
          · have hhead := hall [] e entries rfl
            rwa [List.map_nil, printLines, List.flatMap_nil, List.append_nil] at hhead
          · have htail := hall (e :: first) e' rest (by rw [hsplit]; rfl)
            rwa [List.map_cons, printLines_cons, ← List.append_assoc front] at htail

end Pieces

/-! ## The lines before the entries -/

theorem Oid.ascii (oid : Oid) : ∀ c ∈ oid.text, c.toNat ≤ 0x7f ∧ 0x30 ≤ c.toNat := by
  intro c hc
  have hchar (a b : Char) (h : a ≤ b) : a.toNat ≤ b.toNat := h
  rcases oid.hex c hc with h | ⟨hlow, hhigh⟩
  · rw [Char.isDigit, Bool.and_eq_true, decide_eq_true_eq, decide_eq_true_eq] at h
    have hlow := hchar '0' c h.1
    have hhigh := hchar c '9' h.2
    have : ('0').toNat = 0x30 := rfl
    have : ('9').toNat = 0x39 := rfl
    omega
  · have hlow := hchar 'a' c hlow
    have hhigh := hchar c 'f' hhigh
    have : ('a').toNat = 0x61 := rfl
    have : ('f').toNat = 0x66 := rfl
    omega

theorem not_white_of_le {c : Char} (h : c.toNat ≤ 0x7f ∧ 0x30 ≤ c.toNat) :
    Text.isWhite c = false := by
  obtain ⟨hhigh, hlow⟩ := h
  rw [Text.isWhite, Bool.or_eq_false_iff, decide_eq_false_iff_not, Bool.and_eq_false_iff,
    decide_eq_false_iff_not]
  constructor
  · intro hmem
    have hval : c.toNat ∈ [0x9, 0xa, 0xb, 0xc, 0xd, 0x20, 0xa0, 0x1680, 0x2028, 0x2029, 0x202f,
        0x205f, 0x3000, 0xfeff] := List.mem_map_of_mem (f := UInt32.toNat) hmem
    simp only [List.mem_cons, List.not_mem_nil, or_false] at hval
    omega
  · left
    intro hle
    have : (0x2000 : UInt32).toNat ≤ c.toNat := hle
    have : (0x2000 : UInt32).toNat = 0x2000 := rfl
    omega

/-- No text of digits has white space to trim. -/
theorem trim_of_le {text : List Char} (h : ∀ c ∈ text, c.toNat ≤ 0x7f ∧ 0x30 ≤ c.toNat) :
    trim text = text := by
  have hkeep (text : List Char) (h : ∀ c ∈ text, c.toNat ≤ 0x7f ∧ 0x30 ≤ c.toNat) :
      text.dropWhile Text.isWhite = text := by
    cases text with
    | nil => rfl
    | cons c rest =>
      rw [List.dropWhile_cons_of_neg (by simp [not_white_of_le (h c List.mem_cons_self)])]
  rw [trim_eq_self_iff]
  exact ⟨hkeep text h, hkeep text.reverse fun c hc => h c (List.mem_reverse.1 hc)⟩

theorem Oid.ne_initial (oid : Oid) : oid.text ≠ "(initial)".toList := by
  intro h
  have := (oid.ascii '(' (h ▸ by decide)).2
  exact absurd this (by decide)

theorem parseLine_hash (p : Parsed) {line text : List Char}
    (h : line = "# branch.oid ".toList ++ text) :
    parseLine p line =
      { p with
        hash := if trim text = "(initial)".toList then none else some ((trim text).take 7) } := by
  subst h
  rfl

theorem parseLine_oid (p : Parsed) (s : Status) :
    parseLine p s.oidLine = { p with hash := s.oid.map fun oid => oid.text.take 7 } := by
  have hinitial : trim "(initial)".toList = "(initial)".toList := by decide
  have hline : s.oidLine =
      "# branch.oid ".toList ++ (s.oid.map (·.text)).getD "(initial)".toList := rfl
  rw [parseLine_hash p hline]
  cases s.oid with
  | none => simp only [Option.map_none, Option.getD_none, hinitial, if_true]
  | some oid =>
    simp only [Option.map_some, Option.getD_some, trim_of_le oid.ascii, if_neg oid.ne_initial]

theorem parseLine_head (p : Parsed) (name : List Char) :
    parseLine p ("# branch.head ".toList ++ name) = { p with branch := trim name } := rfl

theorem parseLine_upstream (p : Parsed) (name : List Char) :
    parseLine p ("# branch.upstream ".toList ++ name) = p := rfl

theorem isDigit_toDigits (n : ℕ) : ∀ c ∈ Nat.toDigits 10 n, c.isDigit = true :=
  fun _ => Nat.isDigit_of_mem_toDigits (by decide) (by decide)

theorem matchAb_print (ahead behind : ℕ) :
    matchAb ('+' :: Nat.toDigits 10 ahead ++ (' ' :: '-' :: Nat.toDigits 10 behind)) =
      some (ahead, behind) := by
  have htake : (Nat.toDigits 10 ahead ++ (' ' :: '-' :: Nat.toDigits 10 behind)).takeWhile
      Char.isDigit = Nat.toDigits 10 ahead := by
    rw [List.takeWhile_append_of_pos (isDigit_toDigits ahead),
      List.takeWhile_cons_of_neg (by decide), List.append_nil]
  have hdrop : (Nat.toDigits 10 ahead ++ (' ' :: '-' :: Nat.toDigits 10 behind)).dropWhile
      Char.isDigit = ' ' :: '-' :: Nat.toDigits 10 behind := by
    rw [List.dropWhile_append_of_pos (isDigit_toDigits ahead),
      List.dropWhile_cons_of_neg (by decide)]
  have hall : (Nat.toDigits 10 behind).takeWhile Char.isDigit = Nat.toDigits 10 behind :=
    List.takeWhile_eq_self_iff.2 (isDigit_toDigits behind)
  unfold matchAb
  simp only [List.cons_append, htake, hdrop]
  obtain ⟨c, rest, hcons⟩ := List.exists_cons_of_ne_nil (Nat.toDigits_ne_nil (n := ahead) (b := 10))
  rw [hcons]
  simp only [hall, if_neg Nat.toDigits_ne_nil]
  rw [← hcons, Nat.ofDigitChars_ten_toDigits, Nat.ofDigitChars_ten_toDigits]

theorem parseLine_ab (p : Parsed) (ahead behind : ℕ) :
    parseLine p ("# branch.ab ".toList ++
        ('+' :: Nat.toDigits 10 ahead ++ (' ' :: '-' :: Nat.toDigits 10 behind))) =
      { p with ahead, behind } := by
  have hline (text : List Char) : parseLine p ("# branch.ab ".toList ++ text) =
      match matchAb text with
      | some (ahead, behind) => { p with ahead, behind }
      | none => p := rfl
  rw [hline, matchAb_print]

/-- The short id, or what stands for it. -/
def Status.short (s : Status) : List Char :=
  (s.oid.map fun oid => oid.text.take 7).getD "HEAD".toList

theorem Status.short_ascii (s : Status) : ∀ c ∈ s.short, c.toNat ≤ 0x7f ∧ 0x30 ≤ c.toNat := by
  rw [Status.short]
  cases s.oid with
  | none => simp
  | some oid => exact fun c hc => oid.ascii c (List.mem_of_mem_take hc)

theorem oidLine_ascii (s : Status) : ∀ c ∈ s.oidLine, c.toNat ≤ 0x7f := by
  have htag : ∀ c ∈ "# branch.oid ".toList, c.toNat ≤ 0x7f := forall_ascii (by decide)
  have hinitial : ∀ c ∈ "(initial)".toList, c.toNat ≤ 0x7f := forall_ascii (by decide)
  intro c hc
  rcases List.mem_append.1 hc with hc | hc
  · exact htag c hc
  · cases hoid : s.oid with
    | none =>
      rw [hoid] at hc
      exact hinitial c hc
    | some oid =>
      rw [hoid] at hc
      exact (oid.ascii c hc).1

theorem toDigits_ascii (n : ℕ) : ∀ c ∈ Nat.toDigits 10 n, c.toNat ≤ 0x7f := by
  intro c hc
  have hdigit := isDigit_toDigits n c hc
  rw [Char.isDigit, Bool.and_eq_true, decide_eq_true_eq, decide_eq_true_eq] at hdigit
  have hle : c.toNat ≤ ('9').toNat := hdigit.2
  have : ('9').toNat = 0x39 := rfl
  omega

theorem countsLine_ascii (ahead behind : ℕ) :
    ∀ c ∈ "# branch.ab ".toList ++
        ('+' :: Nat.toDigits 10 ahead ++ (' ' :: '-' :: Nat.toDigits 10 behind)),
      c.toNat ≤ 0x7f := by
  have htag : ∀ c ∈ "# branch.ab ".toList, c.toNat ≤ 0x7f := forall_ascii (by decide)
  intro c hc
  rcases List.mem_append.1 hc with hc | hc
  · exact htag c hc
  rw [List.cons_append] at hc
  rcases List.mem_cons.1 hc with rfl | hc
  · decide
  rcases List.mem_append.1 hc with hc | hc
  · exact toDigits_ascii ahead c hc
  rcases List.mem_cons.1 hc with rfl | hc
  · decide
  rcases List.mem_cons.1 hc with rfl | hc
  · decide
  · exact toDigits_ascii behind c hc

/-- The lines of the upstream branch, in pieces. -/
theorem foldl_upstream (p : Parsed) (u : Upstream) {chunks : List (List UInt8)}
    {front : List Char} {outs : List (List Char)}
    (hp : (p.ahead, p.behind) = (0, 0)) (h : ImageLines chunks front u.lines outs) :
    outs.foldl parseLine p =
      { p with ahead := (u.counts.getD (0, 0)).1, behind := (u.counts.getD (0, 0)).2 } := by
  obtain ⟨name, hname, counts⟩ := u
  rw [Prod.mk.injEq] at hp
  rw [Upstream.lines] at h
  cases h with
  | cons hline h =>
    obtain ⟨tag, name', rfl, htag, -⟩ := hline.append
    obtain rfl := htag.eq_of_ascii (forall_ascii (by decide))
    rw [List.foldl_cons, parseLine_upstream]
    cases counts with
    | none =>
      cases h
      obtain ⟨branch, hash, ahead, behind, files, hasConflicts⟩ := p
      obtain ⟨rfl, rfl⟩ := hp
      rfl
    | some counts =>
      obtain ⟨ahead, behind⟩ := counts
      cases h with
      | cons hline h =>
        cases h
        obtain rfl := hline.eq_of_ascii (countsLine_ascii ahead behind)
        rw [List.foldl_cons, List.foldl_nil, parseLine_ab, Option.getD_some]

/-- The lines before the entries, in pieces. -/
theorem foldl_header (s : Status) {chunks : List (List UInt8)} {outs : List (List Char)}
    (h : ImageLines chunks [] s.header outs) :
    ∃ name, Image chunks s.beforeHead s.head.text name ∧
      outs.foldl parseLine {} =
        { branch := trim name
          hash := s.oid.map fun oid => oid.text.take 7
          ahead := s.counts.1
          behind := s.counts.2 } := by
  rw [Status.header, List.cons_append, List.singleton_append] at h
  cases h with
  | cons hoid h =>
    obtain rfl := hoid.eq_of_ascii (oidLine_ascii s)
    cases h with
    | cons hhead h =>
      obtain ⟨tag, name, rfl, htag, hname⟩ := hhead.append
      obtain rfl := htag.eq_of_ascii (forall_ascii (by decide))
      have hfront : [] ++ (s.oidLine ++ ['\n']) ++ "# branch.head ".toList = s.beforeHead := by
        rw [Status.beforeHead, printLines, List.flatMap_cons, List.flatMap_nil, List.append_nil,
          List.nil_append]
      refine ⟨name, hfront ▸ hname, ?_⟩
      rw [List.foldl_cons, List.foldl_cons, parseLine_oid, parseLine_head]
      cases hupstream : s.upstream with
      | none =>
        rw [hupstream] at h
        cases h
        rw [List.foldl_nil, Status.counts, hupstream]
        rfl
      | some u =>
        rw [hupstream] at h
        rw [foldl_upstream _ u rfl h, Status.counts, hupstream]
        rfl

/-! ## The branch -/

theorem ne_detached {text : List Char} (h : ∀ c ∈ text, c.toNat ≤ 0x7f ∧ 0x30 ≤ c.toNat) :
    text ≠ "(detached)".toList := by
  intro heq
  have := (h '(' (heq ▸ by decide)).2
  exact absurd this (by decide)

/-- The branch is the right one where its name is trimmed, whole and not `(detached)`. -/
theorem branch_iff (s : Status) {chunks : List (List UInt8)} {name : List Char}
    (h : Image chunks s.beforeHead s.head.text name) :
    (if trim name = "(detached)".toList then s.short else trim name) = s.branch ↔
      ∀ name, s.head = .branch name →
        trim name = name ∧ name ≠ "(detached)".toList ∧ ¬ Splits chunks s.beforeHead name := by
  rw [Status.branch]
  cases hhead : s.head with
  | detached =>
    rw [hhead] at h
    obtain rfl := h.eq_of_ascii (forall_ascii (by decide))
    have htrim : trim Head.detached.text = "(detached)".toList := by decide
    exact iff_of_true (if_pos htrim) nofun
  | branch b =>
    rw [hhead] at h
    simp only [Head.branch.injEq, forall_eq']
    constructor
    · intro heq
      split_ifs at heq with hdetached
      · -- a branch named as the short id is printed as it is
        subst heq
        have hname : name = s.short := h.eq_of_ascii fun c hc => (s.short_ascii c hc).1
        rw [hname, trim_of_le s.short_ascii] at hdetached
        exact absurd hdetached (ne_detached s.short_ascii)
      · have htrim : trim b = b := by rw [← heq, trim_trim]
        have hname : name = b := by rw [← trim_image h htrim, heq]
        refine ⟨htrim, ?_, h.eq_iff.1 hname⟩
        rwa [heq] at hdetached
    · rintro ⟨htrim, hne, hwhole⟩
      obtain rfl := h.eq_of_not_splits hwhole
      change trim name = name at htrim
      rw [htrim, if_neg hne]

/-! ## The whole status -/

theorem Status.header_newline (s : Status) : ∀ line ∈ s.header, '\n' ∉ line := by
  have hdigits (n : ℕ) : '\n' ∉ Nat.toDigits 10 n :=
    fun h => absurd (isDigit_toDigits n _ h) (by decide)
  have happend (tag text : List Char) (htag : '\n' ∉ tag) (htext : '\n' ∉ text) :
      '\n' ∉ tag ++ text := fun h => (List.mem_append.1 h).elim htag htext
  intro line hline
  rcases List.mem_append.1 hline with hline | hline
  · rcases List.mem_cons.1 hline with rfl | hline
    · refine happend _ _ (by decide) ?_
      cases s.oid with
      | none => decide
      | some oid => exact fun h => absurd (oid.ascii _ h).2 (by decide)
    · obtain rfl := List.mem_singleton.1 hline
      refine happend _ _ (by decide) ?_
      cases hhead : s.head with
      | branch name => exact s.oneLine name hhead
      | detached => decide
  · cases hupstream : s.upstream with
    | none =>
      rw [hupstream] at hline
      cases hline
    | some u =>
      rw [hupstream] at hline
      rcases List.mem_cons.1 hline with rfl | hline
      · exact happend _ _ (by decide) u.oneLine
      · cases hcounts : u.counts with
        | none =>
          rw [hcounts] at hline
          cases hline
        | some counts =>
          rw [hcounts] at hline
          obtain rfl := List.mem_singleton.1 hline
          refine happend _ _ (by decide) (happend (_ :: _) _ ?_ ?_)
          · exact List.not_mem_cons_of_ne_of_not_mem (by decide) (hdigits counts.1)
          · exact List.not_mem_cons_of_ne_of_not_mem (by decide)
              (List.not_mem_cons_of_ne_of_not_mem (by decide) (hdigits counts.2))

theorem Entry.newline_not_mem (e : Entry) : '\n' ∉ e.line := by
  have hquoted (path : List Char) : '\n' ∉ quotePath path :=
    fun h => absurd (le_of_mem_quotePath h) (by decide)
  intro h
  rcases List.mem_append.1 h with h | h
  · rcases List.mem_append.1 h with h | h
    · have := e.before_ascii
      obtain ⟨column, hcolumn, h⟩ := List.mem_flatMap.1 h
      rcases List.mem_append.1 h with h | h
      · exact absurd (e.visible column hcolumn _ h).1 (by decide)
      · exact absurd (List.mem_singleton.1 h) (by decide)
    · exact hquoted _ h
  · cases e with
    | renamed =>
      rcases List.mem_cons.1 h with h | h
      · exact absurd h (by decide)
      · exact hquoted _ h
    | ordinary => cases h
    | unmerged => cases h
    | untracked => cases h

/-- The status is recovered exactly where no name is changed on the way. -/
theorem correct_iff (s : Status) {chunks : List (List UInt8)}
    (h : chunks.flatten = encode s.print) :
    Correct s (parsePorcelainV2 (runGitStatus chunks)) ↔ Intact s chunks := by
  obtain ⟨outs, hout, hlines⟩ := image_printLines (image_decodeChunks h)
  have hone : ∀ line ∈ s.header ++ s.entries.map Entry.line, '\n' ∉ line := by
    intro line hline
    rcases List.mem_append.1 hline with hline | hline
    · exact s.header_newline line hline
    · obtain ⟨e, -, rfl⟩ := List.mem_map.1 hline
      exact e.newline_not_mem
  have hsplit := splitOn_printLines (hlines.newline_not_mem hone)
  obtain ⟨header, rest, rfl, hheader, hrest⟩ := hlines.append
  obtain ⟨name, hname, hfirst⟩ := foldl_header s hheader
  obtain ⟨files, hsecond, hlength, hfiles⟩ := foldl_entries (header.foldl parseLine {}) hrest
  have hbranch := branch_iff s hname
  have hresult : parsePorcelainV2 (runGitStatus chunks) =
      ⟨if trim name = "(detached)".toList then s.short else trim name,
        s.oid.map fun oid => oid.text.take 7, s.counts.1, s.counts.2, files, files.isEmpty,
        s.entries.any Entry.isUnmerged⟩ := by
    have hfold : ((runGitStatus chunks).splitOn '\n').foldl parseLine {} =
        rest.foldl parseLine (header.foldl parseLine {}) := by
      rw [runGitStatus, hout, hsplit, List.foldl_append, List.foldl_append]
      rfl
    rw [parsePorcelainV2, hfold, hsecond, hfirst]
    rfl
  have hfront (first : List Entry) :
      [] ++ printLines s.header ++ printLines (first.map Entry.line) =
        printLines (s.header ++ first.map Entry.line) := by
    simp only [printLines, List.flatMap_append, List.nil_append]
  rw [hresult]
  constructor
  · rintro ⟨hpath, -, -, hb, -⟩
    refine ⟨hbranch.1 hb, fun first e rest hsplit => ?_⟩
    rw [← hfront]
    exact hfiles.1 hpath first e rest hsplit
  · rintro ⟨hb, hpath⟩
    refine ⟨hfiles.2 fun first e rest hsplit => ?_, List.any_eq_true, ?_, hbranch.2 hb, rfl⟩
    · rw [hfront]
      exact hpath first e rest hsplit
    · rw [List.isEmpty_iff, ← List.length_eq_zero_iff, hlength, List.length_eq_zero_iff]

/-- A status with one new file. -/
def withUntracked (path : List Char) : Status where
  oid := none
  head := .branch "main".toList
  oneLine _ h := Head.branch.inj h ▸ by decide
  upstream := none
  entries := [.untracked path]

def column (text : String)
    (h : text.toList.all (fun c => 0x21 ≤ c.toNat && c.toNat ≤ 0x7e) = true) : Column :=
  ⟨text.toList, fun c hc => by simpa using List.all_eq_true.1 h c hc⟩

def commitId (text : String)
    (h : text.toList.all (fun c => c.isDigit || 'a' ≤ c && c ≤ 'f') = true) : Oid :=
  ⟨text.toList, fun c hc => by simpa using List.all_eq_true.1 h c hc⟩

/-- A renamed file and one in conflict, on a branch two commits ahead. -/
def merging : Status where
  oid := some (commitId "1a2b3c4d" (by decide))
  head := .branch "main".toList
  oneLine _ h := Head.branch.inj h ▸ by decide
  upstream := some ⟨"origin/main".toList, by decide, some (2, 0)⟩
  entries :=
    let xy := column "R." (by decide)
    let sub := column "N..." (by decide)
    let mode := column "100644" (by decide)
    let hash := column "1a2b3c4d" (by decide)
    [.renamed xy sub mode mode mode hash hash (column "R100" (by decide)) "grün".toList
        "rot".toList,
      .unmerged (column "UU" (by decide)) sub mode mode mode mode hash hash hash "a b".toList]

/-- It is read in two pieces. -/
theorem correct_of_two :
    Correct merging (parsePorcelainV2 (runGitStatus (halves 60 merging.print))) := by
  refine (correct_iff merging (halves_flatten 60 _)).2
    ⟨fun name hname => ?_, fun first e rest hsplit => ?_⟩
  · cases hname
    refine ⟨by decide, by decide, fun hcut => ?_⟩
    have hwhole := hcut.of_part
      ('\n' :: printLines (merging.header.drop 2 ++ merging.entries.map Entry.line))
    exact not_splits_halves 60 hwhole
  · have hplain : ∀ e ∈ merging.entries, ¬ e.path.any special := by
      simp [merging, Entry.path]
      decide
    have he : ¬ e.path.any special := hplain e (hsplit ▸ List.mem_append_right _ List.mem_cons_self)
    refine ⟨he, fun hcut => ?_⟩
    have hprint : merging.print = printLines (merging.header ++ first.map Entry.line) ++ e.before ++
        e.path ++ (e.behind ++ '\n' :: printLines (rest.map Entry.line)) := by
      rw [Status.print, hsplit]
      simp [printLines, Entry.line, quotePath, he]
    have hwhole := hcut.of_part (e.behind ++ '\n' :: printLines (rest.map Entry.line))
    rw [← hprint] at hwhole
    exact not_splits_halves 60 hwhole

/-- A name with a quote is shown in quotes. -/
theorem quoted_name : ¬ ∀ (s : Status) (chunks : List (List UInt8)),
    chunks.flatten = encode s.print → Correct s (parsePorcelainV2 (runGitStatus chunks)) := by
  intro hall
  have hfiles := (hall (withUntracked "a\"b".toList) [encode (withUntracked "a\"b".toList).print]
    List.flatten_singleton).files
  exact absurd hfiles (by decide +kernel)

end Porcelain
end Mullion
