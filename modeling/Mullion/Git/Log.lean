import Mullion.Git.Status

/-!
# Reading the history

`git-log.ts` reads what `git log` and `git show` print: records of fields, messages, and the
changes of `--numstat -z`. It decodes each piece of the output by itself and splits the text at
separators. The question is when the three readers `getCommitLog`, `getCommitMessagesAhead` and
`getCommitDetail` give back what was printed, for any history and however the output is cut.

One direction follows the reader along the printed text. For the other one, what comes out of a
split holds no separator, so a commit that is read back has none in its author, its subject or its
message (`clean_of_readRecord`). And a piece that ends inside a character puts U+FFFD in its place,
more than one for each character, so that a text which comes back was not cut. The log shows that
field by field (`readRecords_iff`), while messages are trimmed and left out when they are blank, and
there such characters are counted (`weight`). `messages_iff`, `log_iff` and `detail_iff` make up
`history_iff`; `separator_in_subject` is a subject that does not come back.

A run of git ends in time and with exit code 0, in a checkout.
-/

namespace Mullion
namespace GitLog

open Utf8
open Porcelain (trim)

/-! ## The code -/

def MAX_BUFFER_BYTES : ℕ := 8 * 1024 * 1024

/-- `FIELD`. -/
def FIELD : Char := '\x1f'

/-- `RECORD`. -/
def RECORD : Char := '\x1e'

/-- The separator of `--numstat -z`. -/
def NUL : Char := '\x00'

/-- `Number(text) || 0`. -/
structure Numbers where
  read : List Char → ℚ
  read_decimal : ∀ n ≤ 2 ^ 53, read (Nat.toDigits 10 n) = n

structure CommitLogEntry where
  sha : List Char
  parents : List (List Char)
  author : List Char
  time : ℚ
  subject : List Char
  refs : List (List Char)
  deriving DecidableEq

structure CommitFileChange where
  path : List Char
  additions : Option ℚ
  deletions : Option ℚ
  deriving DecidableEq

structure CommitDetail where
  sha : List Char
  parents : List (List Char)
  author : List Char
  email : List Char
  time : ℚ
  message : List Char
  files : List CommitFileChange
  deriving DecidableEq

/-- `runGit`, from the chunks of stdout. -/
def runGit (chunks : List (List UInt8)) : Option (List Char) :=
  if MAX_BUFFER_BYTES < chunks.flatten.length then none else some (decodeChunks chunks)

def isHex (c : Char) : Bool := c.isDigit || ('a' ≤ c && c ≤ 'f')

/-- `SHA_RE.test`. -/
def isValidSha (sha : List Char) : Bool := 7 ≤ sha.length && sha.length ≤ 40 && sha.all isHex

/-- `.filter(Boolean)`. -/
def present (pieces : List (List Char)) : List (List Char) := pieces.filter (· ≠ [])

/-- `.map((r) => r.trim()).filter(Boolean)`. -/
def trimmed (pieces : List (List Char)) : List (List Char) := present (pieces.map trim)

/-- `.split(", ")`. -/
def splitRefs : List Char → List (List Char)
  | [] => [[]]
  | ',' :: ' ' :: rest => [] :: splitRefs rest
  | c :: rest => (splitRefs rest).modifyHead (c :: ·)

variable (number : Numbers)

/-- The body of the loop of `getCommitLog`. -/
def readRecord (record : List Char) : Option CommitLogEntry :=
  let fields := (record.dropWhile (· = '\n')).splitOn FIELD
  let field := fun i : ℕ => fields[i]?.getD []
  if isValidSha (field 0) then
    some
      { sha := field 0
        parents := present ((field 1).splitOn ' ')
        author := field 2
        time := (fields[3]?.map number.read).getD 0
        subject := field 4
        refs := trimmed (splitRefs (field 5)) }
  else none

def getCommitLog (chunks : List (List UInt8)) : Option (List CommitLogEntry) :=
  (runGit chunks).map fun out => (out.splitOn RECORD).filterMap (readRecord number)

def getCommitMessagesAhead (chunks : List (List UInt8)) : Option (List (List Char)) :=
  (runGit chunks).map fun out => trimmed (out.splitOn RECORD)

/-- `(\d+|-)\t`. -/
def matchCount : List Char → Option (List Char × List Char)
  | '-' :: '\t' :: rest => some (['-'], rest)
  | text =>
    match text.takeWhile Char.isDigit, text.dropWhile Char.isDigit with
    | d :: digits, '\t' :: rest => some (d :: digits, rest)
    | _, _ => none

/-- `/^(\d+|-)\t(\d+|-)\t(.*)$/s`. -/
def matchNumstat (token : List Char) : Option (List Char × List Char × List Char) :=
  (matchCount token).bind fun (additions, rest) =>
    (matchCount rest).map fun (deletions, path) => (additions, deletions, path)

def readCount (text : List Char) : Option ℚ :=
  if text = ['-'] then none else some (number.read text)

/-- The loop over the tokens. -/
def readChanges : List (List Char) → List CommitFileChange
  | [] => []
  | token :: tokens =>
    match matchNumstat (token.dropWhile (· = '\n')) with
    | none => readChanges tokens
    | some (additions, deletions, []) =>
      match tokens with
      | _ :: path :: tokens =>
        if path = [] then readChanges tokens
        else ⟨path, readCount number additions, readCount number deletions⟩ :: readChanges tokens
      | _ => []
    | some (additions, deletions, path) =>
      ⟨path, readCount number additions, readCount number deletions⟩ :: readChanges tokens

def getCommitDetail (metaChunks statChunks : List (List UInt8)) : Option CommitDetail :=
  (runGit metaChunks).bind fun out =>
    let fields := out.splitOn FIELD
    let field := fun i : ℕ => fields[i]?.getD []
    if isValidSha (field 0) then
      some
        { sha := field 0
          parents := present ((field 1).splitOn ' ')
          author := field 2
          email := field 3
          time := (fields[4]?.map number.read).getD 0
          message := trim ([FIELD].intercalate (fields.drop 5))
          files := readChanges number (((runGit statChunks).getD []).splitOn NUL) }
    else none

/-! ## What git prints -/

/-- The name of a commit. -/
structure ObjectId where
  text : List Char
  not_nil : text ≠ []
  hex : ∀ c ∈ text, isHex c = true

/-- A decoration: it holds no control character, and no comma with a space behind it. -/
structure Decoration where
  text : List Char
  not_nil : text ≠ []
  comma : ¬ [',', ' '] <:+: text
  visible : ∀ c ∈ text, 0x20 ≤ c.toNat

/-- A number that is small enough to be exact. -/
structure Count where
  value : ℕ
  exact : value ≤ 2 ^ 53

def Count.text (n : Count) : List Char := Nat.toDigits 10 n.value

structure Commit where
  sha : ObjectId
  parents : List ObjectId
  author : List Char
  email : List Char
  time : Count
  subject : List Char
  message : List Char
  refs : List Decoration

/-- A change of `--numstat`: without counts the file is binary, with an old path it is a rename. -/
structure FileChange where
  path : List Char
  old : Option (List Char)
  additions : Option Count
  deletions : Option Count
  not_nil : path ≠ []
  no_nul : NUL ∉ path ∧ ∀ name ∈ old, NUL ∉ name

namespace Commit

def parentsText (c : Commit) : List Char := [' '].intercalate (c.parents.map (·.text))

def refsText (c : Commit) : List Char := [',', ' '].intercalate (c.refs.map (·.text))

/-- `%H FIELD %P FIELD %an FIELD %at FIELD %s FIELD %D`. -/
def logRecord (c : Commit) : List Char :=
  c.sha.text ++ FIELD :: (c.parentsText ++ FIELD :: (c.author ++ FIELD :: (c.time.text ++ FIELD ::
    (c.subject ++ FIELD :: c.refsText))))

/-- `git show -s`. -/
def printMeta (c : Commit) : List Char :=
  c.sha.text ++ FIELD :: (c.parentsText ++ FIELD :: (c.author ++ FIELD :: (c.email ++ FIELD ::
    (c.time.text ++ FIELD :: (c.message ++ ['\n'])))))

/-- What the log should show of it. -/
def entry (c : Commit) : CommitLogEntry :=
  ⟨c.sha.text, c.parents.map (·.text), c.author, c.time.value, c.subject, c.refs.map (·.text)⟩

end Commit

/-- Records, each with its separator and a newline. -/
def printRecords (records : List (List Char)) : List Char :=
  records.flatMap (· ++ [RECORD, '\n'])

/-- `git log` with the format of `getCommitLog`. -/
def printLog (commits : List Commit) : List Char := printRecords (commits.map Commit.logRecord)

/-- `git log` with the format of `getCommitMessagesAhead`. -/
def printMessages (commits : List Commit) : List Char := printRecords (commits.map (·.message))

namespace FileChange

def countText : Option Count → List Char
  | none => ['-']
  | some n => n.text

/-- What is before the new path. -/
def before (f : FileChange) : List Char :=
  countText f.additions ++ '\t' :: (countText f.deletions ++ '\t' ::
    match f.old with
    | none => []
    | some name => NUL :: (name ++ [NUL]))

def print (f : FileChange) : List Char := f.before ++ (f.path ++ [NUL])

/-- What the detail should show of it. -/
def change (f : FileChange) : CommitFileChange :=
  ⟨f.path, f.additions.map (·.value), f.deletions.map (·.value)⟩

end FileChange

/-- `git show --numstat -z`. -/
def printStat (files : List FileChange) : List Char := files.flatMap FileChange.print

/-! ## What is promised -/

/-- The log is read back: it is not too long, the names are those of `SHA_RE`, no author and no
subject holds a separator, no decoration begins or ends with white space, and no character is
cut. -/
structure LogIntact (commits : List Commit) (chunks : List (List UInt8)) : Prop where
  size : chunks.flatten.length ≤ MAX_BUFFER_BYTES
  sha : ∀ c ∈ commits, isValidSha c.sha.text = true
  author : ∀ c ∈ commits, FIELD ∉ c.author ∧ RECORD ∉ c.author
  subject : ∀ c ∈ commits, FIELD ∉ c.subject ∧ RECORD ∉ c.subject
  refs : ∀ c ∈ commits, ∀ d ∈ c.refs, trim d.text = d.text
  whole : ¬ Splits chunks [] (printLog commits)

/-- The messages are read back: they are not too long, none holds a separator, and no character is
cut. -/
structure MessagesIntact (commits : List Commit) (chunks : List (List UInt8)) : Prop where
  size : chunks.flatten.length ≤ MAX_BUFFER_BYTES
  message : ∀ c ∈ commits, RECORD ∉ c.message
  whole : ¬ Splits chunks [] (printMessages commits)

/-- The changes are read back: neither output is too long, the name is one of `SHA_RE`, and no
character of a new path is cut. -/
structure DetailIntact (c : Commit) (files : List FileChange) (metaChunks statChunks :
    List (List UInt8)) : Prop where
  size : metaChunks.flatten.length ≤ MAX_BUFFER_BYTES ∧ statChunks.flatten.length ≤ MAX_BUFFER_BYTES
  sha : isValidSha c.sha.text = true
  whole : ∀ front f back, files = front ++ f :: back →
    ¬ Splits statChunks (printStat front ++ f.before) f.path

/-! ## Pieces of a text -/

/-- A character that is neither white space nor one of ASCII, as U+FFFD is. -/
def isForeign (c : Char) : Bool := 0x7f < c.toNat && !Text.isWhite c

theorem isForeign_replacement : isForeign replacement = true := by decide

/-- How many foreign characters there are in some pieces. -/
def weight (pieces : List (List Char)) : ℕ := (pieces.map (List.countP isForeign)).sum

theorem weight_cons (piece : List Char) (pieces : List (List Char)) :
    weight (piece :: pieces) = piece.countP isForeign + weight pieces := by
  rw [weight, List.map_cons, List.sum_cons, weight]

/-- Separators weigh nothing. -/
theorem countP_intercalate {sep : List Char} (h : sep.countP isForeign = 0)
    (pieces : List (List Char)) :
    (sep.intercalate pieces).countP isForeign = weight pieces := by
  induction pieces with
  | nil => rfl
  | cons piece pieces ih =>
    cases pieces with
    | nil => rw [List.intercalate_singleton, weight_cons]; rfl
    | cons next pieces =>
      rw [List.intercalate_cons_cons, List.countP_append, List.countP_append, ih, h, Nat.add_zero,
        weight_cons piece]

theorem countP_trim {p : Char → Bool} (hp : ∀ c, Text.isWhite c = true → p c = false)
    (text : List Char) : (trim text).countP p = text.countP p := by
  have hdrop (l : List Char) : (l.dropWhile Text.isWhite).countP p = l.countP p := by
    have hfront : (l.takeWhile Text.isWhite).countP p = 0 :=
      List.countP_eq_zero.2 fun c hc => by simp [hp c (List.mem_takeWhile_imp hc)]
    conv_rhs => rw [← List.takeWhile_append_dropWhile (p := Text.isWhite) (l := l),
      List.countP_append, hfront, Nat.zero_add]
  rw [trim, List.countP_reverse, hdrop, List.countP_reverse, hdrop]

theorem mem_trim_iff {c : Char} (h : Text.isWhite c = false) {text : List Char} :
    c ∈ trim text ↔ c ∈ text := by
  have hcount : (trim text).count c = text.count c :=
    countP_trim (fun d hd => beq_eq_false_iff_ne.2 (by rintro rfl; simp [h] at hd)) text
  rw [← List.count_pos_iff, hcount, List.count_pos_iff]

/-- What is trimmed away weighs nothing. -/
theorem weight_trimmed (pieces : List (List Char)) : weight (trimmed pieces) = weight pieces := by
  induction pieces with
  | nil => rfl
  | cons piece pieces ih =>
    have hpiece : (trim piece).countP isForeign = piece.countP isForeign :=
      countP_trim (fun c hc => by simp [isForeign, hc]) piece
    rw [weight_cons, ← hpiece, ← ih, trimmed, List.map_cons, present, List.filter_cons]
    split
    case isTrue => rw [weight_cons, ← present, ← trimmed]
    case isFalse hnil =>
      have hnil : trim piece = [] := by simpa using hnil
      rw [hnil, ← present, ← trimmed, List.countP_nil, Nat.zero_add]

/-- A name is not white, and not a separator. -/
theorem isHex_bounds {c : Char} (h : isHex c = true) : 0x30 ≤ c.toNat ∧ c.toNat ≤ 0x66 := by
  have hval : c.val.toNat = c.toNat := rfl
  simp only [isHex, Char.isDigit, Bool.or_eq_true, Bool.and_eq_true, decide_eq_true_eq,
    ge_iff_le, UInt32.le_iff_toNat_le, Char.le_def] at h
  rcases h with ⟨hlow, hhigh⟩ | ⟨hlow, hhigh⟩
  · exact ⟨hlow, le_trans hhigh (by decide)⟩
  · exact ⟨le_trans (by decide) hlow, hhigh⟩

theorem splitRefs_ne_nil (text : List Char) : splitRefs text ≠ [] := by
  fun_induction splitRefs text with
  | case1 => exact List.cons_ne_nil _ _
  | case2 rest ih => exact List.cons_ne_nil _ _
  | case3 c rest hcomma ih =>
    obtain ⟨piece, pieces, hcons⟩ := List.exists_cons_of_ne_nil ih
    rw [hcons]
    exact List.cons_ne_nil _ _

/-- `.join(", ")` undoes the splitting. -/
theorem intercalate_splitRefs (text : List Char) :
    [',', ' '].intercalate (splitRefs text) = text := by
  fun_induction splitRefs text with
  | case1 => rfl
  | case2 rest ih =>
    obtain ⟨piece, pieces, hcons⟩ := List.exists_cons_of_ne_nil (splitRefs_ne_nil rest)
    rw [hcons] at ih
    rw [hcons, List.intercalate_cons_cons, ih]
    rfl
  | case3 c rest hcomma ih =>
    obtain ⟨piece, pieces, hcons⟩ := List.exists_cons_of_ne_nil (splitRefs_ne_nil rest)
    rw [hcons] at ih
    rw [hcons, List.modifyHead_cons]
    cases pieces with
    | nil =>
      rw [List.intercalate_singleton] at ih ⊢
      rw [ih]
    | cons next pieces =>
      rw [List.intercalate_cons_cons] at ih ⊢
      rw [List.cons_append, List.cons_append, ih]

theorem weight_splitRefs (text : List Char) : weight (splitRefs text) = text.countP isForeign := by
  conv_rhs => rw [← intercalate_splitRefs text]
  exact (countP_intercalate (by decide) _).symm

theorem weight_splitOn {sep : Char} (h : isForeign sep = false) (text : List Char) :
    weight (text.splitOn sep) = text.countP isForeign := by
  have hjoin : [sep].intercalate (text.splitOn sep) = text := List.intercalate_splitOn sep
  conv_rhs => rw [← hjoin]
  exact (countP_intercalate (by simp [h]) _).symm

/-- A piece holds characters of the text, but not the separator. -/
theorem of_mem_splitOn {sep : Char} {text piece : List Char} (h : piece ∈ text.splitOn sep) :
    sep ∉ piece ∧ piece ⊆ text := by
  induction text generalizing piece with
  | nil =>
    rw [List.splitOn_nil, List.mem_singleton] at h
    rw [h]
    exact ⟨List.not_mem_nil, List.Subset.refl _⟩
  | cons c text ih =>
    rw [List.splitOn_cons_eq_if_modifyHead] at h
    split at h
    case isTrue =>
      rcases List.mem_cons.1 h with rfl | h
      · exact ⟨List.not_mem_nil, List.nil_subset _⟩
      · exact ⟨(ih h).1, List.subset_cons_of_subset _ (ih h).2⟩
    case isFalse hc =>
      obtain ⟨first, pieces, hcons⟩ := List.exists_cons_of_ne_nil (List.splitOn_ne_nil sep text)
      rw [hcons, List.modifyHead_cons] at h
      rw [hcons] at ih
      rcases List.mem_cons.1 h with rfl | h
      · obtain ⟨hsep, hsub⟩ := ih List.mem_cons_self
        refine ⟨?_, List.cons_subset_cons _ hsub⟩
        rw [List.mem_cons, not_or]
        exact ⟨fun heq => hc (by simp [heq]), hsep⟩
      · obtain ⟨hsep, hsub⟩ := ih (List.mem_cons_of_mem _ h)
        exact ⟨hsep, List.subset_cons_of_subset _ hsub⟩

theorem splitRefs_cons {c : Char} {text : List Char}
    (h : c = ',' → ∀ rest, text ≠ ' ' :: rest) :
    splitRefs (c :: text) = (splitRefs text).modifyHead (c :: ·) := by
  rw [splitRefs]
  exact fun rest hc htext => h hc rest htext

/-- A name without a comma that has a space behind it is one piece. -/
theorem splitRefs_append {name : List Char} (h : ¬ [',', ' '] <:+: name) (rest : List Char) :
    splitRefs (name ++ ',' :: ' ' :: rest) = name :: splitRefs rest ∧ splitRefs name = [name] := by
  induction name with
  | nil => exact ⟨rfl, rfl⟩
  | cons c name ih =>
    obtain ⟨hmore, hlast⟩ := ih fun hpart => h (hpart.trans (List.suffix_cons _ _).isInfix)
    have hnext : c = ',' → ∀ tail, name ≠ ' ' :: tail := by
      rintro rfl tail rfl
      exact h ⟨[], tail, rfl⟩
    constructor
    · rw [List.cons_append, splitRefs_cons, hmore, List.modifyHead_cons]
      intro hc tail heq
      cases name with
      | nil => exact absurd (List.cons.inj heq).1 (by decide)
      | cons d name => exact hnext hc name (by rw [(List.cons.inj heq).1])
    · rw [splitRefs_cons hnext, hlast, List.modifyHead_cons]

/-- Decorations are told apart. -/
theorem splitRefs_text {refs : List Decoration} (h : refs ≠ []) :
    splitRefs ([',', ' '].intercalate (refs.map (·.text))) = refs.map (·.text) := by
  induction refs with
  | nil => exact absurd rfl h
  | cons d refs ih =>
    cases refs with
    | nil =>
      rw [List.map_singleton, List.intercalate_singleton]
      exact (splitRefs_append d.comma []).2
    | cons next refs =>
      rw [List.map_cons, List.map_cons, List.intercalate_cons_cons, List.append_assoc]
      refine (splitRefs_append d.comma _).1.trans ?_
      exact congrArg (d.text :: ·) (ih (List.cons_ne_nil _ _))

/-! ## Messages -/

/-- White space in front of a text is trimmed away. -/
theorem trim_append {front : List Char} (h : ∀ c ∈ front, Text.isWhite c = true)
    (text : List Char) : trim (front ++ text) = trim text := by
  rw [trim, trim, List.dropWhile_append_of_pos h]

theorem trimmed_cons (piece : List Char) (pieces : List (List Char)) :
    trimmed (piece :: pieces) = present [trim piece] ++ trimmed pieces := by
  rw [trimmed, List.map_cons, ← List.singleton_append, present, List.filter_append, ← present,
    ← present, ← trimmed]

/-- Records are told apart; what is before the first is the newline of another. -/
theorem splitOn_printRecords {front record : List Char} (hfront : RECORD ∉ front)
    (hrecord : RECORD ∉ record) (records : List (List Char)) :
    (front ++ printRecords (record :: records)).splitOn RECORD =
      (front ++ record) :: ('\n' :: printRecords records).splitOn RECORD := by
  have htext : front ++ printRecords (record :: records) =
      (front ++ record) ++ RECORD :: '\n' :: printRecords records := by
    simp [printRecords]
  rw [htext, List.splitOn_append_cons_self_of_not_mem]
  rw [List.mem_append, not_or]
  exact ⟨hfront, hrecord⟩

/-- Messages without separators are the pieces. -/
theorem trimmed_printRecords {front : List Char} (hfront : ∀ c ∈ front, c = '\n')
    {records : List (List Char)} (h : ∀ record ∈ records, RECORD ∉ record) :
    trimmed ((front ++ printRecords records).splitOn RECORD) = trimmed records := by
  have hseparator : RECORD ∉ front := fun hmem => absurd (hfront _ hmem) (by decide)
  have hwhite : ∀ c ∈ front, Text.isWhite c = true := fun c hc => by
    rw [hfront c hc]
    decide
  induction records generalizing front with
  | nil =>
    rw [printRecords, List.flatMap_nil, List.append_nil, List.splitOn_eq_singleton hseparator,
      trimmed_cons, ← List.append_nil front, trim_append hwhite]
    rfl
  | cons record records ih =>
    rw [List.forall_mem_cons] at h
    have hnext : trimmed ((['\n'] ++ printRecords records).splitOn RECORD) = trimmed records :=
      ih (by simp) h.2 (by decide) fun c hc => by
        rw [List.mem_singleton.1 hc]
        decide
    rw [splitOn_printRecords hseparator h.1, trimmed_cons, trimmed_cons, trim_append hwhite]
    exact congrArg (present [trim record] ++ ·) hnext

theorem weight_printRecords (records : List (List Char)) :
    (printRecords records).countP isForeign = weight records := by
  induction records with
  | nil => rfl
  | cons record records ih =>
    rw [printRecords, List.flatMap_cons, ← printRecords, List.countP_append, List.countP_append, ih,
      weight_cons]
    rfl

/-- **Reading messages.** -/
theorem messages_iff {commits : List Commit} {chunks : List (List UInt8)}
    (hprint : chunks.flatten = encode (printMessages commits)) :
    getCommitMessagesAhead chunks = some (trimmed (commits.map (·.message))) ↔
      MessagesIntact commits chunks := by
  have himage := image_decodeChunks hprint
  rw [getCommitMessagesAhead, runGit]
  constructor
  · intro h
    split at h
    case isTrue => cases h
    case isFalse hsize =>
      have hresult : trimmed ((decodeChunks chunks).splitOn RECORD) =
          trimmed (commits.map (·.message)) := Option.some.inj h
      refine ⟨not_lt.1 hsize, fun c hc hseparator => ?_, ?_⟩
      · -- the message is among those expected, and no piece holds a separator
        have hkept : RECORD ∈ trim c.message := (mem_trim_iff (by decide)).2 hseparator
        have hmem : trim c.message ∈ trimmed (commits.map (·.message)) :=
          List.mem_filter.2 ⟨List.mem_map_of_mem (List.mem_map_of_mem hc),
            decide_eq_true (List.ne_nil_of_mem hkept)⟩
        rw [← hresult] at hmem
        obtain ⟨piece, hpiece, htrim⟩ := List.mem_map.1 (List.mem_filter.1 hmem).1
        rw [← htrim, mem_trim_iff (by decide)] at hkept
        exact (of_mem_splitOn hpiece).1 hkept
      · have hweight := congrArg weight hresult
        rw [weight_trimmed, weight_trimmed, weight_splitOn (by decide), ← weight_printRecords]
          at hweight
        rw [← himage.eq_iff]
        exact himage.eq_of_countP_le isForeign_replacement hweight.le
  · rintro ⟨hsize, hmessage, hwhole⟩
    rw [if_neg (not_lt.2 hsize), Option.map_some, himage.eq_of_not_splits hwhole]
    have hrecords : ∀ record ∈ commits.map (·.message), RECORD ∉ record := by
      simpa using hmessage
    have htext : trimmed (([] ++ printRecords (commits.map Commit.message)).splitOn RECORD) = _ :=
      trimmed_printRecords (by simp) hrecords
    exact congrArg some htext

/-! ## The log -/

theorem mem_intercalate {sep : List Char} {pieces : List (List Char)} {c : Char}
    (h : c ∈ sep.intercalate pieces) : c ∈ sep ∨ ∃ piece ∈ pieces, c ∈ piece := by
  induction pieces with
  | nil => cases h
  | cons piece pieces ih =>
    cases pieces with
    | nil => exact Or.inr ⟨piece, List.mem_cons_self, by rwa [List.intercalate_singleton] at h⟩
    | cons next pieces =>
      rw [List.intercalate_cons_cons, List.append_assoc, List.mem_append, List.mem_append] at h
      rcases h with h | h | h
      · exact Or.inr ⟨piece, List.mem_cons_self, h⟩
      · exact Or.inl h
      · refine (ih h).imp_right ?_
        rintro ⟨piece', hmem, hc⟩
        exact ⟨piece', List.mem_cons_of_mem _ hmem, hc⟩

namespace Commit

theorem sha_bounds (c : Commit) : ∀ d ∈ c.sha.text, 0x30 ≤ d.toNat ∧ d.toNat ≤ 0x66 :=
  fun d hd => isHex_bounds (c.sha.hex d hd)

theorem parentsText_bounds (c : Commit) : ∀ d ∈ c.parentsText, 0x20 ≤ d.toNat ∧ d.toNat ≤ 0x66 := by
  intro d hd
  rcases mem_intercalate hd with hd | ⟨piece, hpiece, hd⟩
  · rw [List.mem_singleton.1 hd]
    decide
  · obtain ⟨id, -, rfl⟩ := List.mem_map.1 hpiece
    have hbounds := isHex_bounds (id.hex d hd)
    omega

theorem refsText_visible (c : Commit) : ∀ d ∈ c.refsText, 0x20 ≤ d.toNat := by
  intro d hd
  rcases mem_intercalate hd with hd | ⟨piece, hpiece, hd⟩
  · rcases List.mem_cons.1 hd with rfl | hd
    · decide
    · rw [List.mem_singleton.1 hd]
      decide
  · obtain ⟨name, -, rfl⟩ := List.mem_map.1 hpiece
    exact name.visible d hd

/-- The names of the parents are told apart. -/
theorem present_parents (c : Commit) :
    present (c.parentsText.splitOn ' ') = c.parents.map (·.text) := by
  cases hparents : c.parents with
  | nil =>
    rw [parentsText, hparents]
    rfl
  | cons id ids =>
    rw [parentsText, List.splitOn_intercalate, hparents, present, List.filter_eq_self]
    · intro piece hpiece
      obtain ⟨id', -, rfl⟩ := List.mem_map.1 hpiece
      exact decide_eq_true id'.not_nil
    · intro piece hpiece hspace
      obtain ⟨id', -, rfl⟩ := List.mem_map.1 hpiece
      exact absurd (isHex_bounds (id'.hex _ hspace)).1 (by decide)
    · simp [hparents]

/-- Decorations that are trimmed are told apart. -/
theorem trimmed_refs (c : Commit) (h : ∀ d ∈ c.refs, trim d.text = d.text) :
    trimmed (splitRefs c.refsText) = c.refs.map (·.text) := by
  cases hrefs : c.refs with
  | nil =>
    rw [refsText, hrefs]
    rfl
  | cons d ds =>
    rw [refsText, hrefs, splitRefs_text (List.cons_ne_nil _ _), ← hrefs, trimmed, List.map_map]
    have htrim : c.refs.map (trim ∘ Decoration.text) = c.refs.map Decoration.text :=
      List.map_congr_left h
    rw [htrim, present, List.filter_eq_self]
    intro piece hpiece
    obtain ⟨d', -, rfl⟩ := List.mem_map.1 hpiece
    exact decide_eq_true d'.not_nil

end Commit

theorem Count.isDigit_text (n : Count) : ∀ c ∈ n.text, c.isDigit = true :=
  Porcelain.isDigit_toDigits n.value

theorem isDigit_bounds {c : Char} (h : c.isDigit = true) : 0x30 ≤ c.toNat ∧ c.toNat ≤ 0x39 := by
  have hval : c.val.toNat = c.toNat := rfl
  simpa [Char.isDigit, UInt32.le_iff_toNat_le] using h

/-- A record whose fields hold no separator is taken apart. -/
theorem readRecord_fields {front sha parents author time subject refs : List Char}
    (hfront : ∀ c ∈ front, c = '\n') (hsha : isValidSha sha = true) (hparents : FIELD ∉ parents)
    (hauthor : FIELD ∉ author) (htime : FIELD ∉ time) (hsubject : FIELD ∉ subject)
    (hrefs : FIELD ∉ refs) :
    readRecord number (front ++ (sha ++ FIELD :: (parents ++ FIELD :: (author ++ FIELD ::
      (time ++ FIELD :: (subject ++ FIELD :: refs)))))) =
      some ⟨sha, present (parents.splitOn ' '), author, number.read time, subject,
        trimmed (splitRefs refs)⟩ := by
  have hvalid := hsha
  rw [isValidSha, Bool.and_eq_true, Bool.and_eq_true, decide_eq_true_eq, List.all_eq_true]
    at hvalid
  obtain ⟨⟨hlong, -⟩, hhex⟩ := hvalid
  have hfield : FIELD ∉ sha := fun hmem => absurd (isHex_bounds (hhex _ hmem)).1 (by decide)
  have hbegin (rest : List Char) : (front ++ (sha ++ rest)).dropWhile (· = '\n') = sha ++ rest := by
    rw [List.dropWhile_append_of_pos (by simpa using hfront)]
    cases sha with
    | nil => cases hlong
    | cons c sha =>
      have hc := (isHex_bounds (hhex c List.mem_cons_self)).1
      rw [List.cons_append, List.dropWhile_cons_of_neg]
      rw [decide_eq_true_eq]
      rintro rfl
      exact absurd hc (by decide)
  rw [readRecord, hbegin, List.splitOn_append_cons_self_of_not_mem hfield,
    List.splitOn_append_cons_self_of_not_mem hparents,
    List.splitOn_append_cons_self_of_not_mem hauthor,
    List.splitOn_append_cons_self_of_not_mem htime,
    List.splitOn_append_cons_self_of_not_mem hsubject, List.splitOn_eq_singleton hrefs]
  exact if_pos hsha

/-- The fields of a commit hold no separator, and its decorations are trimmed. -/
structure Commit.Clean (c : Commit) : Prop where
  sha : isValidSha c.sha.text = true
  author : FIELD ∉ c.author ∧ RECORD ∉ c.author
  subject : FIELD ∉ c.subject ∧ RECORD ∉ c.subject
  refs : ∀ d ∈ c.refs, trim d.text = d.text

section Images

variable {chunks : List (List UInt8)} {front out : List Char}

/-- A beginning of one-byte characters is read back. -/
theorem image_ascii {a b : List Char} (h : Image chunks front (a ++ b) out)
    (ha : ∀ c ∈ a, c.toNat ≤ 0x7f) : ∃ o, out = a ++ o ∧ Image chunks (front ++ a) b o := by
  obtain ⟨o₁, o₂, rfl, h₁, h₂⟩ := h.append
  rw [h₁.eq_of_ascii ha]
  exact ⟨o₂, rfl, h₂⟩

/-- So is a separator behind a text. -/
theorem image_separator {a b : List Char} {sep : Char} (h : Image chunks front (a ++ sep :: b) out)
    (hsep : sep.toNat ≤ 0x7f) :
    ∃ o₁ o₂, out = o₁ ++ sep :: o₂ ∧ Image chunks front a o₁ ∧
      Image chunks (front ++ a ++ [sep]) b o₂ := by
  obtain ⟨o₁, o, rfl, h₁, h⟩ := h.append
  obtain ⟨o₂, rfl, h₂⟩ := image_ascii (a := [sep]) h (by simpa using hsep)
  exact ⟨o₁, o₂, rfl, h₁, h₂⟩

theorem Count.text_ascii (n : Count) : ∀ c ∈ n.text, c.toNat ≤ 0x7f := fun c hc =>
  (isDigit_bounds (n.isDigit_text c hc)).2.trans (by decide)

theorem Count.not_mem_text (n : Count) {sep : Char} (h : sep.toNat < 0x30) : sep ∉ n.text :=
  fun hmem => absurd (isDigit_bounds (n.isDigit_text _ hmem)).1 (by omega)

/-- Where the fields of a record are in its image. -/
theorem image_logRecord {c : Commit} (h : Image chunks front c.logRecord out) :
    ∃ f₁ f₂ f₃ author subject refs,
      out = c.sha.text ++ FIELD :: (c.parentsText ++ FIELD :: (author ++ FIELD ::
        (c.time.text ++ FIELD :: (subject ++ FIELD :: refs)))) ∧
      Image chunks f₁ c.author author ∧ Image chunks f₂ c.subject subject ∧
      Image chunks f₃ c.refsText refs := by
  have hfield : FIELD.toNat ≤ 0x7f := by decide
  obtain ⟨sha, o, rfl, hsha, h⟩ := image_separator h hfield
  obtain ⟨parents, o, rfl, hparents, h⟩ := image_separator h hfield
  obtain ⟨author, o, rfl, hauthor, h⟩ := image_separator h hfield
  obtain ⟨time, o, rfl, htime, h⟩ := image_separator h hfield
  obtain ⟨subject, refs, rfl, hsubject, hrefs⟩ := image_separator h hfield
  rw [hsha.eq_of_ascii fun d hd => (c.sha_bounds d hd).2.trans (by decide),
    hparents.eq_of_ascii fun d hd => (c.parentsText_bounds d hd).2.trans (by decide),
    htime.eq_of_ascii c.time.text_ascii]
  exact ⟨_, _, _, author, subject, refs, rfl, hauthor, hsubject, hrefs⟩

/-- **Reading a record** gives the entry exactly when no character is cut. -/
theorem readRecord_image {c : Commit} (hc : c.Clean) (h : Image chunks front c.logRecord out)
    {before : List Char} (hbefore : ∀ d ∈ before, d = '\n') :
    RECORD ∉ out ∧ ∃ e, readRecord number (before ++ out) = some e ∧
      (e = c.entry ↔ out = c.logRecord) := by
  obtain ⟨f₁, f₂, f₃, author, subject, refs, rfl, hauthor, hsubject, hrefs⟩ := image_logRecord h
  have hlost {sep : Char} (hsep : sep.toNat < 0x20) : sep ≠ replacement := by
    rintro rfl
    exact absurd hsep (by decide)
  have hfield : FIELD.toNat < 0x20 := by decide
  have hrecord : RECORD.toNat < 0x20 := by decide
  have hsha {sep : Char} (hsep : sep.toNat < 0x20) : sep ∉ c.sha.text := fun hmem => by
    have := c.sha_bounds sep hmem
    omega
  have hparents {sep : Char} (hsep : sep.toNat < 0x20) : sep ∉ c.parentsText := fun hmem => by
    have := c.parentsText_bounds sep hmem
    omega
  have hnames {sep : Char} (hsep : sep.toNat < 0x20) : sep ∉ refs :=
    hrefs.not_mem (fun hmem => absurd (c.refsText_visible sep hmem) (by omega)) (hlost hsep)
  have htime {sep : Char} (hsep : sep.toNat < 0x20) : sep ∉ c.time.text :=
    c.time.not_mem_text (by omega)
  have hread := readRecord_fields number hbefore hc.sha (hparents hfield)
    (hauthor.not_mem hc.author.1 (hlost hfield)) (htime hfield)
    (hsubject.not_mem hc.subject.1 (hlost hfield)) (hnames hfield)
  have hwhole := readRecord_fields number hbefore hc.sha (hparents hfield) hc.author.1
    (htime hfield) hc.subject.1
    (fun hmem => absurd (c.refsText_visible FIELD hmem) (by decide) : FIELD ∉ c.refsText)
  refine ⟨?_, _, hread, ?_⟩
  · simp only [List.mem_append, List.mem_cons, not_or]
    exact ⟨hsha hrecord, by decide, hparents hrecord, by decide,
      hauthor.not_mem hc.author.2 (hlost hrecord), by decide, htime hrecord, by decide,
      hsubject.not_mem hc.subject.2 (hlost hrecord), by decide, hnames hrecord⟩
  · have hentry : c.entry = ⟨c.sha.text, present (c.parentsText.splitOn ' '), c.author,
        number.read c.time.text, c.subject, trimmed (splitRefs c.refsText)⟩ := by
      rw [c.present_parents, c.trimmed_refs hc.refs, Count.text,
        number.read_decimal _ c.time.exact, Commit.entry]
    rw [hentry]
    constructor
    · intro heq
      obtain ⟨-, -, rfl, -, rfl, hpieces⟩ := CommitLogEntry.mk.inj heq
      have hweight := congrArg weight hpieces
      rw [weight_trimmed, weight_trimmed, weight_splitRefs, weight_splitRefs] at hweight
      rw [hrefs.eq_of_countP_le isForeign_replacement hweight.le, Commit.logRecord]
    · intro heq
      rw [heq] at hread
      exact Option.some.inj (hread.symm.trans hwhole)

/-- **Reading records** gives the entries exactly when no character is cut. -/
theorem readRecords_iff {commits : List Commit} (hclean : ∀ c ∈ commits, c.Clean)
    (h : Image chunks front (printLog commits) out) {before : List Char}
    (hbefore : ∀ d ∈ before, d = '\n') :
    ((before ++ out).splitOn RECORD).filterMap (readRecord number) = commits.map Commit.entry ↔
      out = printLog commits := by
  have hseparator : RECORD ∉ before := fun hmem => absurd (hbefore _ hmem) (by decide)
  induction commits generalizing front out before with
  | nil =>
    cases h
    have hnone : readRecord number before = none := by
      have hnil : before.dropWhile (· = '\n') = [] :=
        List.dropWhile_eq_nil_iff.2 (by simpa using hbefore)
      rw [readRecord, hnil]
      rfl
    rw [List.append_nil, List.splitOn_eq_singleton hseparator]
    simp [hnone, printLog, printRecords]
  | cons c commits ih =>
    rw [List.forall_mem_cons] at hclean
    have htext : printLog (c :: commits) =
        c.logRecord ++ RECORD :: (['\n'] ++ printLog commits) := by
      simp [printLog, printRecords]
    rw [htext] at h ⊢
    obtain ⟨record, o, rfl, hrecord, h⟩ := image_separator h (by decide)
    obtain ⟨rest, rfl, hrest⟩ := image_ascii h (forall_ascii (by decide))
    obtain ⟨hpiece, e, hread, he⟩ := readRecord_image number hclean.1 hrecord hbefore
    have hmore : ((['\n'] ++ rest).splitOn RECORD).filterMap (readRecord number) =
        commits.map Commit.entry ↔ rest = printLog commits :=
      ih hclean.2 hrest (by simp) (by decide)
    have hfront : RECORD ∉ before ++ record := by
      rw [List.mem_append, not_or]
      exact ⟨hseparator, hpiece⟩
    rw [← List.append_assoc, List.splitOn_append_cons_self_of_not_mem hfront,
      List.filterMap_cons_some hread, List.map_cons, List.cons_eq_cons, he, hmore]
    constructor
    · rintro ⟨hsame, hlater⟩
      rw [hsame, hlater]
    · -- neither part got shorter
      intro heq
      have hlength := congrArg List.length heq
      have hle := hrecord.length_le
      have hle' := hrest.length_le
      simp only [List.length_append, List.length_cons] at hlength
      obtain ⟨hsame, hlater⟩ := List.append_inj heq (by omega)
      exact ⟨hsame, (List.cons.inj (List.cons.inj hlater).2).2⟩

end Images

/-- The fields that are read hold no separator. -/
theorem clean_of_readRecord {record : List Char} (hrecord : RECORD ∉ record) {e : CommitLogEntry}
    (h : readRecord number record = some e) :
    isValidSha e.sha = true ∧ (FIELD ∉ e.author ∧ RECORD ∉ e.author) ∧
      (FIELD ∉ e.subject ∧ RECORD ∉ e.subject) ∧ ∀ name ∈ e.refs, trim name = name := by
  rw [readRecord] at h
  split at h
  case isFalse => cases h
  case isTrue hsha =>
    obtain rfl := Option.some.inj h
    have hrest : RECORD ∉ record.dropWhile (· = '\n') := fun hmem =>
      hrecord ((List.dropWhile_suffix _).subset hmem)
    have hfield (i : ℕ) :
        FIELD ∉ (((record.dropWhile (· = '\n')).splitOn FIELD)[i]?.getD []) ∧
          RECORD ∉ (((record.dropWhile (· = '\n')).splitOn FIELD)[i]?.getD []) := by
      cases hget : ((record.dropWhile (· = '\n')).splitOn FIELD)[i]? with
      | none => exact ⟨List.not_mem_nil, List.not_mem_nil⟩
      | some piece =>
        obtain ⟨hsep, hsub⟩ := of_mem_splitOn (List.mem_of_getElem? hget)
        exact ⟨hsep, fun hmem => hrest (hsub hmem)⟩
    refine ⟨hsha, hfield 2, hfield 4, fun name hname => ?_⟩
    obtain ⟨piece, -, rfl⟩ := List.mem_map.1 (List.mem_filter.1 hname).1
    exact Porcelain.trim_trim piece

/-- **Reading the log.** -/
theorem log_iff {commits : List Commit} {chunks : List (List UInt8)}
    (hprint : chunks.flatten = encode (printLog commits)) :
    getCommitLog number chunks = some (commits.map Commit.entry) ↔ LogIntact commits chunks := by
  have himage := image_decodeChunks hprint
  rw [getCommitLog, runGit]
  constructor
  · intro h
    split at h
    case isTrue => cases h
    case isFalse hsize =>
      have hresult : ((decodeChunks chunks).splitOn RECORD).filterMap (readRecord number) =
          commits.map Commit.entry := Option.some.inj h
      have hclean : ∀ c ∈ commits, c.Clean := by
        intro c hc
        have hmem : c.entry ∈ commits.map Commit.entry := List.mem_map_of_mem hc
        rw [← hresult] at hmem
        obtain ⟨piece, hpiece, hread⟩ := List.mem_filterMap.1 hmem
        obtain ⟨hsha, hauthor, hsubject, hrefs⟩ :=
          clean_of_readRecord number (of_mem_splitOn hpiece).1 hread
        exact ⟨hsha, hauthor, hsubject, fun d hd => hrefs d.text (List.mem_map_of_mem hd)⟩
      have hout := (readRecords_iff number hclean himage (by simp : ∀ d ∈ [], d = '\n')).1 hresult
      exact ⟨not_lt.1 hsize, fun c hc => (hclean c hc).sha, fun c hc => (hclean c hc).author,
        fun c hc => (hclean c hc).subject, fun c hc => (hclean c hc).refs, himage.eq_iff.1 hout⟩
  · intro h
    have hclean : ∀ c ∈ commits, c.Clean := fun c hc =>
      ⟨h.sha c hc, h.author c hc, h.subject c hc, h.refs c hc⟩
    have hout := himage.eq_iff.2 h.whole
    have hresult := (readRecords_iff number hclean himage (by simp : ∀ d ∈ [], d = '\n')).2 hout
    rw [if_neg (not_lt.2 h.size), Option.map_some]
    exact congrArg some hresult

/-! ## The changes of a commit -/

namespace FileChange

theorem countText_ascii (n : Option Count) : ∀ c ∈ countText n, c.toNat ≤ 0x7f := by
  cases n with
  | none => exact forall_ascii (by decide)
  | some n => exact n.text_ascii

theorem nul_not_mem_countText (n : Option Count) : NUL ∉ countText n := by
  cases n with
  | none => decide
  | some n => exact n.not_mem_text (by decide)

theorem exists_countText (n : Option Count) : ∃ c rest, countText n = c :: rest ∧ c ≠ '\n' := by
  cases n with
  | none => exact ⟨'-', [], rfl, by decide⟩
  | some n =>
    obtain ⟨c, rest, hcons⟩ :=
      List.exists_cons_of_ne_nil (Nat.toDigits_ne_nil (n := n.value) (b := 10))
    refine ⟨c, rest, hcons, ?_⟩
    rintro rfl
    have hmem : '\n' ∈ n.text := by
      rw [Count.text, hcons]
      exact List.mem_cons_self
    exact absurd (n.isDigit_text '\n' hmem) (by decide)

end FileChange

open FileChange (countText countText_ascii nul_not_mem_countText exists_countText)

/-- A count is matched up to its tab. -/
theorem matchCount_text (n : Option Count) (rest : List Char) :
    matchCount (countText n ++ '\t' :: rest) = some (countText n, rest) := by
  cases n with
  | none => rfl
  | some n =>
    obtain ⟨c, digits, hcons⟩ :=
      List.exists_cons_of_ne_nil (Nat.toDigits_ne_nil (n := n.value) (b := 10))
    have hdigits : ∀ d ∈ c :: digits, d.isDigit = true := hcons ▸ n.isDigit_text
    have htake : ((c :: digits) ++ '\t' :: rest).takeWhile Char.isDigit = c :: digits := by
      rw [List.takeWhile_append_of_pos hdigits, List.takeWhile_cons_of_neg (by decide),
        List.append_nil]
    have hdrop : ((c :: digits) ++ '\t' :: rest).dropWhile Char.isDigit = '\t' :: rest := by
      rw [List.dropWhile_append_of_pos hdigits, List.dropWhile_cons_of_neg (by decide)]
    have htext : countText (some n) = c :: digits := hcons
    have hdash : ∀ tail, (c :: digits) ++ '\t' :: rest ≠ '-' :: '\t' :: tail := by
      intro tail heq
      obtain rfl := (List.cons.inj heq).1
      exact absurd (hdigits '-' List.mem_cons_self) (by decide)
    rw [htext, matchCount, htake, hdrop]
    · rfl
    · exact hdash

theorem matchNumstat_text (additions deletions : Option Count) (path : List Char) :
    matchNumstat ((countText additions ++ '\t' :: (countText deletions ++ '\t' :: path)).dropWhile
      (· = '\n')) = some (countText additions, countText deletions, path) := by
  obtain ⟨c, rest, hcons, hc⟩ := exists_countText additions
  have hbegin (tail : List Char) :
      (countText additions ++ tail).dropWhile (· = '\n') = countText additions ++ tail := by
    rw [hcons, List.cons_append, List.dropWhile_cons_of_neg (by simpa using hc)]
  rw [hbegin, matchNumstat, matchCount_text, Option.bind_some]
  dsimp only
  rw [matchCount_text, Option.map_some]

theorem readCount_text (n : Option Count) :
    readCount number (countText n) = n.map fun n => (n.value : ℚ) := by
  cases n with
  | none => rfl
  | some n =>
    have hdash : countText (some n) ≠ ['-'] := by
      intro heq
      have hmem : '-' ∈ n.text := by
        rw [show n.text = ['-'] from heq]
        exact List.mem_singleton_self _
      exact n.not_mem_text (by decide) hmem
    rw [readCount, if_neg hdash]
    exact congrArg some (number.read_decimal _ n.exact)

section Changes

variable {chunks : List (List UInt8)} {front out : List Char}

/-- The tokens of a change, and what they are read as. -/
theorem readChanges_before {f : FileChange} (h : Image chunks front f.before out) {path : List Char}
    (hpath : path ≠ []) (hnul : NUL ∉ path) (rest : List Char) :
    readChanges number ((out ++ (path ++ NUL :: rest)).splitOn NUL) =
      ⟨path, f.additions.map (·.value), f.deletions.map (·.value)⟩ ::
        readChanges number (rest.splitOn NUL) := by
  rw [← readCount_text number, ← readCount_text number]
  have hcounts (tail : List Char) (htail : NUL ∉ tail) :
      NUL ∉ countText f.additions ++ '\t' :: (countText f.deletions ++ '\t' :: tail) := by
    simp only [List.mem_append, List.mem_cons, not_or]
    exact ⟨nul_not_mem_countText _, by decide, nul_not_mem_countText _, by decide, htail⟩
  have hascii : ∀ c ∈ countText f.additions ++ '\t' :: (countText f.deletions ++ ['\t']),
      c.toNat ≤ 0x7f := by
    simp only [List.mem_append, List.mem_cons, List.not_mem_nil, or_false]
    rintro c (hc | rfl | hc | rfl)
    · exact countText_ascii _ c hc
    · decide
    · exact countText_ascii _ c hc
    · decide
  cases hold : f.old with
  | none =>
    have hbefore : f.before =
        countText f.additions ++ '\t' :: (countText f.deletions ++ ['\t']) := by
      rw [FileChange.before, hold]
    rw [hbefore] at h
    have htokens : out ++ (path ++ NUL :: rest) =
        (countText f.additions ++ '\t' :: (countText f.deletions ++ '\t' :: path)) ++
          NUL :: rest := by
      rw [h.eq_of_ascii hascii]
      simp
    rw [htokens, List.splitOn_append_cons_self_of_not_mem (hcounts path hnul), readChanges,
      matchNumstat_text]
    cases path with
    | nil => exact absurd rfl hpath
    | cons c path => rfl
  | some name =>
    have hbefore : f.before =
        (countText f.additions ++ '\t' :: (countText f.deletions ++ ['\t'])) ++
          NUL :: (name ++ NUL :: []) := by
      rw [FileChange.before, hold]
      simp
    rw [hbefore] at h
    obtain ⟨o, rfl, htail⟩ := image_ascii h hascii
    obtain ⟨o', rfl, hrenamed⟩ := image_ascii (a := [NUL]) htail (forall_ascii (by decide))
    obtain ⟨name', o'', rfl, hname, hend⟩ := image_separator hrenamed (by decide)
    cases hend
    have hold' : NUL ∉ name' := hname.not_mem (f.no_nul.2 name hold) (by decide)
    have htokens : (countText f.additions ++ '\t' :: (countText f.deletions ++ ['\t'])) ++
        ([NUL] ++ (name' ++ NUL :: [])) ++ (path ++ NUL :: rest) =
        (countText f.additions ++ '\t' :: (countText f.deletions ++ '\t' :: [])) ++
          NUL :: (name' ++ NUL :: (path ++ NUL :: rest)) := by
      simp
    rw [htokens, List.splitOn_append_cons_self_of_not_mem (hcounts [] List.not_mem_nil),
      List.splitOn_append_cons_self_of_not_mem hold',
      List.splitOn_append_cons_self_of_not_mem hnul, readChanges, matchNumstat_text]
    exact if_neg hpath

/-- **Reading changes** gives each new path that is not cut. -/
theorem readChanges_iff {files : List FileChange} (h : Image chunks front (printStat files) out) :
    readChanges number (out.splitOn NUL) = files.map FileChange.change ↔
      ∀ before f after, files = before ++ f :: after →
        ¬ Splits chunks (front ++ (printStat before ++ f.before)) f.path := by
  induction files generalizing front out with
  | nil =>
    cases h
    exact iff_of_true rfl fun before f after hsplit => absurd hsplit (by simp)
  | cons f files ih =>
    have htext : printStat (f :: files) = f.before ++ (f.path ++ NUL :: printStat files) := by
      simp [printStat, FileChange.print]
    rw [htext] at h
    obtain ⟨b, o, rfl, hb, h⟩ := h.append
    obtain ⟨path, rest, rfl, hpath, hrest⟩ := image_separator h (by decide)
    have hnil : path ≠ [] := by
      have hle := hpath.length_le
      have hpos := List.length_pos_iff.2 f.not_nil
      exact List.length_pos_iff.1 (by omega)
    have hhead : (⟨path, f.additions.map (·.value), f.deletions.map (·.value)⟩ :
        CommitFileChange) = f.change ↔ path = f.path :=
      ⟨congrArg CommitFileChange.path, fun heq => heq ▸ rfl⟩
    rw [readChanges_before number hb hnil (hpath.not_mem f.no_nul.1 (by decide)), List.map_cons,
      List.cons_eq_cons, ih hrest, hhead, hpath.eq_iff]
    constructor
    · rintro ⟨hfirst, hlater⟩ before f' after hsplit
      cases before with
      | nil =>
        obtain ⟨rfl, -⟩ := List.cons.inj hsplit
        exact hfirst
      | cons _ before =>
        obtain ⟨rfl, rfl⟩ := List.cons.inj hsplit
        have hwhole := hlater before f' after rfl
        simpa [printStat, FileChange.print] using hwhole
    · intro hall
      refine ⟨hall [] f files rfl, ?_⟩
      rintro before f' after rfl
      have hwhole := hall (f :: before) f' after rfl
      simpa [printStat, FileChange.print] using hwhole

end Changes

/-- **Reading a commit.** -/
theorem detail_iff {c : Commit} {files : List FileChange}
    {metaChunks statChunks : List (List UInt8)}
    (hmeta : metaChunks.flatten = encode c.printMeta)
    (hstat : statChunks.flatten = encode (printStat files)) :
    (∃ detail, getCommitDetail number metaChunks statChunks = some detail ∧
      detail.files = files.map FileChange.change) ↔ DetailIntact c files metaChunks statChunks := by
  have hsep : FIELD ∉ c.sha.text := fun hmem => absurd (c.sha_bounds _ hmem).1 (by decide)
  have himage := image_decodeChunks hmeta
  obtain ⟨sha, rest, hout, hsha, -⟩ := image_separator himage (by decide)
  rw [hsha.eq_of_ascii fun d hd => (c.sha_bounds d hd).2.trans (by decide)] at hout
  have hfirst : ((decodeChunks metaChunks).splitOn FIELD)[0]?.getD [] = c.sha.text := by
    rw [hout, List.splitOn_append_cons_self_of_not_mem hsep]
    rfl
  have hfiles := readChanges_iff number (image_decodeChunks hstat)
  simp only [List.nil_append] at hfiles
  rw [getCommitDetail]
  constructor
  · rintro ⟨detail, hdetail, hchanges⟩
    obtain ⟨out, hrun, hdetail⟩ := Option.bind_eq_some_iff.1 hdetail
    rw [runGit] at hrun
    split at hrun
    case isTrue => cases hrun
    case isFalse hsize =>
      obtain rfl := Option.some.inj hrun
      rw [Option.ite_none_right_eq_some] at hdetail
      obtain ⟨hvalid, hdetail⟩ := hdetail
      have hvalid : isValidSha c.sha.text = true := hfirst ▸ hvalid
      obtain rfl := Option.some.inj hdetail
      by_cases hlong : MAX_BUFFER_BYTES < statChunks.flatten.length
      · -- nothing was read, so nothing was printed
        rw [runGit, if_pos hlong] at hchanges
        have hnil : files = [] := List.map_eq_nil_iff.1 hchanges.symm
        rw [hstat, hnil] at hlong
        cases hlong
      · rw [runGit, if_neg hlong] at hchanges
        exact ⟨⟨not_lt.1 hsize, not_lt.1 hlong⟩, hvalid, hfiles.1 hchanges⟩
  · rintro ⟨⟨hsize, hlong⟩, hvalid, hwhole⟩
    have hread : runGit statChunks = some (decodeChunks statChunks) := if_neg (not_lt.2 hlong)
    rw [runGit, if_neg (not_lt.2 hsize), Option.bind_some]
    have hfield : isValidSha (((decodeChunks metaChunks).splitOn FIELD)[0]?.getD []) = true := by
      rw [hfirst]
      exact hvalid
    refine ⟨_, if_pos hfield, ?_⟩
    rw [hread]
    exact hfiles.2 hwhole

/-- **What git prints is read back** exactly when it is not too long, names are those of `SHA_RE`,
no free text holds a separator, decorations are trimmed and no character is cut. -/
theorem history_iff (number : Numbers) :
    (∀ (commits : List Commit) (chunks : List (List UInt8)),
      chunks.flatten = encode (printLog commits) →
        (getCommitLog number chunks = some (commits.map Commit.entry) ↔
          LogIntact commits chunks)) ∧
    (∀ (commits : List Commit) (chunks : List (List UInt8)),
      chunks.flatten = encode (printMessages commits) →
        (getCommitMessagesAhead chunks = some (trimmed (commits.map (·.message))) ↔
          MessagesIntact commits chunks)) ∧
    ∀ (c : Commit) (files : List FileChange) (metaChunks statChunks : List (List UInt8)),
      metaChunks.flatten = encode c.printMeta → statChunks.flatten = encode (printStat files) →
        ((∃ detail, getCommitDetail number metaChunks statChunks = some detail ∧
          detail.files = files.map FileChange.change) ↔
            DetailIntact c files metaChunks statChunks) :=
  ⟨fun _ _ => log_iff number, fun _ _ => messages_iff, fun _ _ _ _ => detail_iff number⟩

/-! ### Two commits -/

/-- `Number`, on decimal numbers. -/
def decimal : Numbers where
  read text := Nat.ofDigitChars 10 text 0
  read_decimal n _ := by rw [Nat.ofDigitChars_toDigits (by decide) (by decide)]

def sampleSha : ObjectId where
  text := List.replicate 40 'a'
  not_nil := by decide
  hex c hc := by
    rw [List.eq_of_mem_replicate hc]
    decide

def sampleBranch : Decoration where
  text := "HEAD -> main".toList
  not_nil := by decide
  comma := by decide
  visible := by
    have hall : "HEAD -> main".toList.all (fun c => 0x20 ≤ c.toNat) = true := by decide
    exact fun c hc => of_decide_eq_true (List.all_eq_true.1 hall c hc)

/-- A commit on the branch main, with one parent. -/
def sample (subject : List Char) : Commit where
  sha := sampleSha
  parents := [sampleSha]
  author := "Ada".toList
  email := "ada@example.org".toList
  time := ⟨1700000000, by decide⟩
  subject := subject
  message := subject
  refs := [sampleBranch]

/-- It renames a file. -/
def sampleChange : FileChange where
  path := "new".toList
  old := some "old".toList
  additions := some ⟨2, by decide⟩
  deletions := none
  not_nil := by decide
  no_nul := by decide

/-- And adds one. -/
def secondChange : FileChange where
  path := "größe".toList
  old := none
  additions := some ⟨1, by decide⟩
  deletions := some ⟨0, by decide⟩
  not_nil := by decide
  no_nul := by decide

def twoCommits : List Commit := [sample "one".toList, sample "größer".toList]

/-- Two commits that rename a file and add one, read in two pieces each. -/
theorem history_iff_of_two :
    getCommitLog decimal (halves 100 (printLog twoCommits)) =
        some (twoCommits.map Commit.entry) ∧
      getCommitMessagesAhead (halves 6 (printMessages twoCommits)) =
        some ["one".toList, "größer".toList] ∧
      ∃ detail, getCommitDetail decimal (halves 50 (sample "größer".toList).printMeta)
          (halves 11 (printStat [sampleChange, secondChange])) = some detail ∧
        detail.files = [sampleChange.change, secondChange.change] := by
  obtain ⟨hlog, hmessages, hdetail⟩ := history_iff decimal
  refine ⟨(hlog twoCommits _ (halves_flatten _ _)).2 ?_,
    (hmessages twoCommits _ (halves_flatten _ _)).2 ?_,
    (hdetail _ [sampleChange, secondChange] _ _ (halves_flatten _ _) (halves_flatten _ _)).2 ?_⟩
  · exact ⟨by decide +kernel, by decide +kernel, by decide +kernel, by decide +kernel,
      by decide +kernel, not_splits_halves _⟩
  · exact ⟨by decide +kernel, by decide +kernel, not_splits_halves _⟩
  · refine ⟨by decide +kernel, by decide +kernel, fun front f back hsplit hcut => ?_⟩
    have hprint : printStat [sampleChange, secondChange] =
        printStat front ++ f.before ++ f.path ++ (NUL :: printStat back) := by
      rw [hsplit]
      simp [printStat, FileChange.print]
    have hwhole := hcut.of_part (NUL :: printStat back)
    rw [← hprint] at hwhole
    exact not_splits_halves 11 hwhole

/-- A subject is cut at a separator. -/
theorem separator_in_subject : ¬ ∀ (commits : List Commit) (chunks : List (List UInt8)),
    chunks.flatten = encode (printLog commits) →
      getCommitLog decimal chunks = some (commits.map Commit.entry) := by
  intro hall
  have hread := hall [sample "a\x1fb".toList] [encode (printLog [sample "a\x1fb".toList])]
    List.flatten_singleton
  have hsubjects := congrArg (Option.map (List.map CommitLogEntry.subject)) hread
  exact absurd hsubjects (by decide +kernel)

end GitLog
end Mullion
