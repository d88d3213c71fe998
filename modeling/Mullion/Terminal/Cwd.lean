import Mullion.Terminal.Modes

/-!
# The working directory announced in the output

A shell announces its directory with `ESC ] 7 ; file://host/path`, ended by `BEL` or `ESC \`. The
output is read in chunks, and `detectCwd` looks for announcements in each chunk with what the one
before left unterminated. Does the tracker find the last announcement, wherever the output is cut?

An output is plain text and complete OSC sequences, and `Reads` is a reader of it, one transition
for each character. The tracker's carry begins at the last `ESC ]` of a chunk that is not
terminated, and a chunk may end between the two characters. If a sequence has ended before in that
chunk, what is carried is taken to be terminated, and the beginning is lost (`Torn`,
`torn_is_lost`). So beside the reader of the output there is one which lost such a beginning, and
`Lost` says where it is: in no sequence, until the other one is out of it too. For either of them a
chunk with its carry holds the announcements that end in it (`found_eq`) and leaves the right carry
(`carryPartialOsc_eq`). `Tracks` carries this over the chunks, and `lastCwd_exact` has it that the
tracker finds the last announcement that is not torn.
-/

namespace Mullion
namespace Terminal

/-! ## Announcements -/

/-- `([\s\S]*?)(?:\x07|\x1b\\)` at the front of a text. -/
def oscBody : List Char → Option (List Char × Nat)
  | [] => none
  | '\x07' :: _ => some ([], 1)
  | '\x1b' :: '\\' :: _ => some ([], 2)
  | c :: rest => (oscBody rest).map fun m => (c :: m.1, m.2 + 1)

/-- `OSC_CWD_SEQUENCE`. -/
def oscCwdPattern : List Char → Option (List Char × Nat)
  | '\x1b' :: ']' :: '7' :: ';' :: rest => (oscBody rest).map fun m => (m.1, m.2 + 4)
  | _ => none

/-- What `process.platform` and `path.win32.normalize` are. -/
structure Platform where
  win32 : Bool
  normalize : List Char → List Char

/-- The characters that `.` does not match. -/
def lineTerminators : List Char := ['\n', '\r', '\u2028', '\u2029']

/-- `/^\/([a-zA-Z]):?(?=\/|$)(.*)$/`. -/
def msysDrive : List Char → Option (Char × List Char)
  | '/' :: letter :: rest =>
    let tail := if rest.head? = some ':' then rest.drop 1 else rest
    if letter.isAlpha ∧ (tail = [] ∨ tail.head? = some '/') ∧
        tail.all (!lineTerminators.contains ·) then
      some (letter, tail)
    else none
  | _ => none

/-- `msysToWindowsPath`. -/
def msysToWindowsPath (platform : Platform) (p : List Char) : List Char :=
  match msysDrive p with
  | none => p
  | some (letter, tail) =>
    platform.normalize (letter.toUpper :: ':' :: (if tail = [] then ['/'] else tail))

/-- `payload.replace(/^file:\/\/[^/]*/, "")`. -/
def withoutScheme (payload : List Char) : List Char :=
  match payload.dropPrefix? "file://".toList with
  | none => payload
  | some rest => rest.dropWhile (· ≠ '/')

/-- The path of a payload; `none` if it is not a `file://` URL. -/
def cwdOf (platform : Platform) (payload : List Char) : Option (List Char) :=
  if (withoutScheme payload).head? = some '/' then
    (Text.decodeURIComponent (String.ofList (withoutScheme payload))).map fun decoded =>
      if platform.win32 then msysToWindowsPath platform decoded.toList else decoded.toList
  else none

/-- `detectCwdChange`. -/
def detectCwdChange (platform : Platform) (chunk : List Char) : Option (List Char) :=
  (Text.matchAll oscCwdPattern chunk).foldl
    (fun result m => (cwdOf platform m.1).or result) none

namespace TerminalModeTracker

variable (platform : Platform)

/-- What `detectCwd` returns. -/
def detectedCwd (t : TerminalModeTracker) (data : List Char) : Option (List Char) :=
  detectCwdChange platform (t.cwdDetectCarry ++ data)

/-- The last value other than `null` that `detectCwd` returns over the chunks. -/
def lastCwd : TerminalModeTracker → List (List Char) → Option (List Char)
  | _, [] => none
  | t, data :: chunks => (lastCwd (t.detectCwd data) chunks).or (t.detectedCwd platform data)

end TerminalModeTracker

/-! ## Outputs of plain text and OSC sequences -/

/-- A character of plain text, or a complete OSC sequence, ended by `ESC \` or by `BEL`. -/
inductive Piece
  | plain (c : Char) (plain : c ≠ '\x1b')
  | osc (payload : List Char) (st : Bool) (clean : ∀ c ∈ payload, c ≠ '\x07' ∧ c ≠ '\x1b')

/-- The end of an OSC sequence. -/
def oscEnd (st : Bool) : List Char := if st then ['\x1b', '\\'] else ['\x07']

def Piece.text : Piece → List Char
  | .plain c _ => [c]
  | .osc payload st _ => '\x1b' :: ']' :: (payload ++ oscEnd st)

/-- An OSC sequence of an output: where its `ESC` stands, and where it has ended. -/
structure Sequence where
  start : Nat
  stop : Nat
  payload : List Char
  deriving DecidableEq, Repr

/-- The OSC sequences of an output that begins at an index. -/
def sequences : Nat → List Piece → List Sequence
  | _, [] => []
  | i, .plain _ _ :: rest => sequences (i + 1) rest
  | i, .osc payload st clean :: rest =>
    let stop := i + (Piece.osc payload st clean).text.length
    ⟨i, stop, payload⟩ :: sequences stop rest

/-- The path that an OSC sequence announces, if it is a well-formed OSC 7. -/
def Sequence.cwd (platform : Platform) (s : Sequence) : Option (List Char) :=
  (s.payload.dropPrefix? "7;".toList).bind (cwdOf platform)

/-- The path of the last well-formed announcement. -/
def lastAnnounced (platform : Platform) (seqs : List Sequence) : Option (List Char) :=
  (seqs.filterMap (Sequence.cwd platform)).getLast?

/-- Where the chunks of an output that begins at an index start and end. -/
def bounds : Nat → List (List Char) → List (Nat × Nat)
  | _, [] => []
  | i, data :: chunks => (i, i + data.length) :: bounds (i + data.length) chunks

/-- A sequence is torn: a chunk ends right behind its `ESC`, and in this chunk one of the sequences
before it has ended. -/
def Torn (chunks : List (Nat × Nat)) (before : List Sequence) (start : Nat) : Prop :=
  ∃ chunk ∈ chunks, chunk.2 = start + 1 ∧ ∃ s ∈ before, chunk.1 < s.stop

instance (chunks : List (Nat × Nat)) (before : List Sequence) (start : Nat) :
    Decidable (Torn chunks before start) :=
  inferInstanceAs
    (Decidable (∃ chunk ∈ chunks, chunk.2 = start + 1 ∧ ∃ s ∈ before, chunk.1 < s.stop))

/-- The sequences that are not torn, behind those `before`: a torn one tears no other. -/
def whole (chunks : List (Nat × Nat)) (before : List Sequence) : List Sequence → List Sequence
  | [] => []
  | s :: rest =>
    if Torn chunks before s.start then whole chunks before rest
    else s :: whole chunks (before ++ [s]) rest

/-! ## Reading -/

/-- How far into an OSC sequence the text is; `start` is the index of its `ESC`. -/
inductive Osc
  | idle
  | escape (start : Nat)
  | body (start : Nat) (payload : List Char)
  | ending (start : Nat) (payload : List Char)
  deriving DecidableEq, Repr

namespace Osc

/-- What was read of the sequence. -/
def text : Osc → List Char
  | .idle => []
  | .escape _ => ['\x1b']
  | .body _ payload => '\x1b' :: ']' :: payload
  | .ending _ payload => '\x1b' :: ']' :: (payload ++ ['\x1b'])

def start? : Osc → Option Nat
  | .idle => none
  | .escape start | .body start _ | .ending start _ => some start

/-- No character of the payload ends it. -/
def Clean : Osc → Prop
  | .idle | .escape _ => True
  | .body _ payload | .ending _ payload => ∀ c ∈ payload, c ≠ '\x07' ∧ c ≠ '\x1b'

/-- What the carry keeps at the end of a chunk that holds the sequences `out`. -/
def carried (q : Osc) (out : List Sequence) : Osc :=
  match q with
  | .escape start => if out = [] then .escape start else .idle
  | q => q

theorem Clean.snoc {s : Nat} {p : List Char} {c : Char} (hp : (body s p).Clean)
    (hc : c ≠ '\x07' ∧ c ≠ '\x1b') : (body s (p ++ [c])).Clean := by
  rw [Clean]
  intro d hd
  rcases List.mem_append.1 hd with hd | hd
  · exact hp d hd
  · rwa [List.mem_singleton.1 hd]

@[simp] theorem carried_nil (q : Osc) : q.carried [] = q := by cases q <;> rfl

end Osc

/-- A text from an index on takes a reader from one place to another, and these sequences end in
it. A lax reader also passes over an `ESC \` that ends nothing. -/
inductive Reads (lax : Prop) : Osc → Nat → List Char → Osc → List Sequence → Prop
  | done (q i) : Reads lax q i [] q []
  | plain {i c rest q out} (hc : c ≠ '\x1b') (h : Reads lax .idle (i + 1) rest q out) :
      Reads lax .idle i (c :: rest) q out
  | escape {i rest q out} (h : Reads lax (.escape i) (i + 1) rest q out) :
      Reads lax .idle i ('\x1b' :: rest) q out
  | opening {s i rest q out} (h : Reads lax (.body s []) (i + 1) rest q out) :
      Reads lax (.escape s) i (']' :: rest) q out
  | stray {s i rest q out} (hlax : lax) (h : Reads lax .idle (i + 1) rest q out) :
      Reads lax (.escape s) i ('\\' :: rest) q out
  | payload {s p i c rest q out} (hc : c ≠ '\x07' ∧ c ≠ '\x1b')
      (h : Reads lax (.body s (p ++ [c])) (i + 1) rest q out) :
      Reads lax (.body s p) i (c :: rest) q out
  | bel {s p i rest q out} (h : Reads lax .idle (i + 1) rest q out) :
      Reads lax (.body s p) i ('\x07' :: rest) q (⟨s, i + 1, p⟩ :: out)
  | closing {s p i rest q out} (h : Reads lax (.ending s p) (i + 1) rest q out) :
      Reads lax (.body s p) i ('\x1b' :: rest) q out
  | st {s p i rest q out} (h : Reads lax .idle (i + 1) rest q out) :
      Reads lax (.ending s p) i ('\\' :: rest) q (⟨s, i + 1, p⟩ :: out)

namespace Reads

variable {lax : Prop}

/-- A text that was read can be read in two parts. -/
theorem split {u v : List Char} {q q' : Osc} {i : Nat} {out : List Sequence}
    (h : Reads lax q i (u ++ v) q' out) :
    ∃ q₁ out₁ out₂, Reads lax q i u q₁ out₁ ∧ Reads lax q₁ (i + u.length) v q' out₂ ∧
      out = out₁ ++ out₂ := by
  induction u generalizing q i out with
  | nil => exact ⟨q, [], out, .done q i, h, rfl⟩
  | cons c u ih =>
    have hlen : i + (c :: u).length = i + 1 + u.length := by
      rw [List.length_cons]; omega
    rw [hlen]
    cases h with
    | plain hc h =>
      obtain ⟨q₁, out₁, out₂, h₁, h₂, rfl⟩ := ih h
      exact ⟨q₁, out₁, out₂, .plain hc h₁, h₂, rfl⟩
    | escape h =>
      obtain ⟨q₁, out₁, out₂, h₁, h₂, rfl⟩ := ih h
      exact ⟨q₁, out₁, out₂, .escape h₁, h₂, rfl⟩
    | opening h =>
      obtain ⟨q₁, out₁, out₂, h₁, h₂, rfl⟩ := ih h
      exact ⟨q₁, out₁, out₂, .opening h₁, h₂, rfl⟩
    | stray hlax h =>
      obtain ⟨q₁, out₁, out₂, h₁, h₂, rfl⟩ := ih h
      exact ⟨q₁, out₁, out₂, .stray hlax h₁, h₂, rfl⟩
    | payload hc h =>
      obtain ⟨q₁, out₁, out₂, h₁, h₂, rfl⟩ := ih h
      exact ⟨q₁, out₁, out₂, .payload hc h₁, h₂, rfl⟩
    | bel h =>
      obtain ⟨q₁, out₁, out₂, h₁, h₂, rfl⟩ := ih h
      exact ⟨q₁, _ :: out₁, out₂, .bel h₁, h₂, rfl⟩
    | closing h =>
      obtain ⟨q₁, out₁, out₂, h₁, h₂, rfl⟩ := ih h
      exact ⟨q₁, out₁, out₂, .closing h₁, h₂, rfl⟩
    | st h =>
      obtain ⟨q₁, out₁, out₂, h₁, h₂, rfl⟩ := ih h
      exact ⟨q₁, _ :: out₁, out₂, .st h₁, h₂, rfl⟩

theorem payload_run {s i : Nat} {p u rest : List Char} {q : Osc} {out : List Sequence}
    (hu : ∀ c ∈ u, c ≠ '\x07' ∧ c ≠ '\x1b')
    (h : Reads lax (.body s (p ++ u)) (i + u.length) rest q out) :
    Reads lax (.body s p) i (u ++ rest) q out := by
  induction u generalizing p i with
  | nil => simpa using h
  | cons c u ih =>
    rw [List.forall_mem_cons] at hu
    have hlen : i + (c :: u).length = i + 1 + u.length := by
      rw [List.length_cons]; omega
    rw [hlen] at h
    exact .payload hu.1 (ih hu.2 (by rwa [List.append_assoc]))

/-- An output of plain text and OSC sequences is read to its end, with its sequences. -/
theorem of_pieces (pieces : List Piece) (i : Nat) :
    Reads lax .idle i (pieces.flatMap Piece.text) .idle (sequences i pieces) := by
  induction pieces generalizing i with
  | nil => exact .done .idle i
  | cons piece pieces ih =>
    rw [List.flatMap_cons]
    cases piece with
    | plain c hc => exact .plain hc (ih (i + 1))
    | osc payload st clean =>
      rw [sequences, Piece.text, List.cons_append, List.cons_append, List.append_assoc]
      have hstop : i + ('\x1b' :: ']' :: (payload ++ oscEnd st)).length =
          i + 1 + 1 + payload.length + (oscEnd st).length := by
        simp only [List.length_cons, List.length_append]
        omega
      rw [hstop]
      refine .escape (.opening (payload_run clean ?_))
      cases st with
      | true => exact .closing (.st (ih _))
      | false => exact .bel (ih _)

variable {q q' : Osc} {i : Nat} {data : List Char} {out : List Sequence}

theorem clean (h : Reads lax q i data q' out) (hq : q.Clean) : q'.Clean := by
  induction h with
  | done => exact hq
  | plain _ _ ih => exact ih trivial
  | escape _ ih => exact ih trivial
  | opening _ ih => exact ih (by simp [Osc.Clean])
  | stray _ _ ih => exact ih trivial
  | payload hc _ ih => exact ih (Osc.Clean.snoc hq hc)
  | bel _ ih => exact ih trivial
  | closing _ ih => exact ih hq
  | st _ ih => exact ih trivial

end Reads

/-! ## The carry -/

theorem fromLastOsc_cons_of_ne {c : Char} (hc : c ≠ '\x1b') (rest : List Char) :
    fromLastOsc (c :: rest) = fromLastOsc rest := by
  rw [fromLastOsc]
  cases fromLastOsc rest with
  | none => simp [hc]
  | some tail => rfl

theorem fromLastOsc_stray (rest : List Char) :
    fromLastOsc ('\x1b' :: '\\' :: rest) = fromLastOsc rest := by
  rw [fromLastOsc, fromLastOsc_cons_of_ne (by decide)]
  cases fromLastOsc rest with
  | none => simp
  | some tail => rfl

theorem fromLastOsc_clean {p : List Char} (hp : ∀ c ∈ p, c ≠ '\x07' ∧ c ≠ '\x1b')
    (rest : List Char) : fromLastOsc (p ++ rest) = fromLastOsc rest := by
  induction p with
  | nil => rfl
  | cons c p ih =>
    rw [List.forall_mem_cons] at hp
    rw [List.cons_append, fromLastOsc_cons_of_ne hp.1.2, ih hp.2]

theorem fromLastOsc_opening (rest : List Char) :
    fromLastOsc ('\x1b' :: ']' :: rest) =
      (fromLastOsc rest).or (some ('\x1b' :: ']' :: rest)) := by
  rw [fromLastOsc, fromLastOsc_cons_of_ne (by decide)]
  cases fromLastOsc rest with
  | none => simp
  | some tail => rfl

theorem oscTerminated_clean {p : List Char} (hp : ∀ c ∈ p, c ≠ '\x07' ∧ c ≠ '\x1b')
    (rest : List Char) : oscTerminated (p ++ rest) = oscTerminated rest := by
  induction p with
  | nil => rfl
  | cons c p ih =>
    rw [List.forall_mem_cons] at hp
    simp [oscTerminated, hp.1.1, hp.1.2, ih hp.2]

theorem fromLastOsc_oscEnd (st : Bool) (rest : List Char) :
    fromLastOsc (oscEnd st ++ rest) = fromLastOsc rest := by
  cases st with
  | true => exact fromLastOsc_stray rest
  | false => exact fromLastOsc_cons_of_ne (by decide) rest

theorem oscTerminated_oscEnd (st : Bool) (rest : List Char) :
    oscTerminated (oscEnd st ++ rest) = true := by
  cases st <;> simp [oscEnd, oscTerminated]

/-- A complete sequence leaves the carry to an OSC sequence behind it. -/
theorem carryPartialOsc_sequence {p : List Char} (hp : ∀ c ∈ p, c ≠ '\x07' ∧ c ≠ '\x1b')
    (st : Bool) (rest : List Char) :
    carryPartialOsc ('\x1b' :: ']' :: (p ++ (oscEnd st ++ rest))) =
      if fromLastOsc rest = none then [] else carryPartialOsc rest := by
  rw [carryPartialOsc, fromLastOsc_opening, fromLastOsc_clean hp, fromLastOsc_oscEnd,
    carryPartialOsc]
  cases fromLastOsc rest with
  | none =>
    simp only [Option.none_or, if_true]
    rw [List.drop_succ_cons, List.drop_succ_cons, List.drop_zero, oscTerminated_clean hp,
      oscTerminated_oscEnd, if_pos rfl]
  | some tail => simp

theorem carryPartialOsc_cons {c : Char} (hc : c ≠ '\x1b') (rest : List Char) :
    carryPartialOsc (c :: rest) = carryPartialOsc rest := by
  rw [carryPartialOsc, fromLastOsc_cons_of_ne hc, carryPartialOsc]
  cases fromLastOsc rest with
  | none =>
    cases rest with
    | nil => simp [hc]
    | cons d rest => rfl
  | some tail => rfl

theorem carryPartialOsc_stray (rest : List Char) :
    carryPartialOsc ('\x1b' :: '\\' :: rest) = carryPartialOsc rest := by
  rw [carryPartialOsc, fromLastOsc_stray, carryPartialOsc]
  cases fromLastOsc rest with
  | none =>
    cases rest with
    | nil => simp
    | cons d rest => rfl
  | some tail => rfl

/-! ## What is found -/

theorem oscBody_clean {p : List Char} (hp : ∀ c ∈ p, c ≠ '\x07' ∧ c ≠ '\x1b') (rest : List Char) :
    oscBody (p ++ rest) = (oscBody rest).map fun m => (p ++ m.1, m.2 + p.length) := by
  induction p with
  | nil => simp
  | cons c p ih =>
    rw [List.forall_mem_cons] at hp
    rw [List.cons_append, oscBody, ih hp.2, Option.map_map]
    · rfl
    · exact fun h => hp.1.1 h
    · exact fun _ h => absurd h hp.1.2

theorem oscBody_oscEnd (st : Bool) (rest : List Char) :
    oscBody (oscEnd st ++ rest) = some ([], (oscEnd st).length) := by
  cases st <;> rfl

theorem oscCwdPattern_of_ne {c : Char} (hc : c ≠ '\x1b') (rest : List Char) :
    oscCwdPattern (c :: rest) = none := by
  rw [oscCwdPattern]
  simp [hc]

theorem oscCwdPattern_osc (rest : List Char) :
    oscCwdPattern ('\x1b' :: ']' :: rest) =
      ((rest.dropPrefix? "7;".toList).bind oscBody).map fun m => (m.1, m.2 + 4) := by
  have hcode : "7;".toList = ['7', ';'] := rfl
  rw [hcode]
  cases rest with
  | nil => rfl
  | cons a rest =>
    by_cases ha : a = '7'
    · cases rest with
      | nil => simp [oscCwdPattern, List.dropPrefix?, ha]
      | cons b rest =>
        by_cases hb : b = ';'
        · simp [oscCwdPattern, List.dropPrefix?, ha, hb]
        · simp [oscCwdPattern, List.dropPrefix?, ha, hb]
    · simp [oscCwdPattern, List.dropPrefix?, ha]

/-- What does not begin with `7` or `;` completes no code. -/
theorem dropPrefix_code {u : List Char} (hu : u.head? ≠ some '7' ∧ u.head? ≠ some ';')
    (p : List Char) :
    (p ++ u).dropPrefix? "7;".toList = (p.dropPrefix? "7;".toList).map (· ++ u) := by
  have hcode : "7;".toList = ['7', ';'] := rfl
  rw [hcode]
  cases p with
  | nil =>
    cases u with
    | nil => rfl
    | cons a u =>
      have : a ≠ '7' := fun h => hu.1 (by rw [h]; rfl)
      simp [List.dropPrefix?, this]
  | cons a p =>
    cases p with
    | nil =>
      cases u with
      | nil => simp [List.dropPrefix?]
      | cons b u =>
        have : b ≠ ';' := fun h => hu.2 (by rw [h]; rfl)
        simp [List.dropPrefix?, this]
    | cons b p =>
      by_cases ha : a = '7' <;> by_cases hb : b = ';' <;> simp [List.dropPrefix?, ha, hb]

theorem dropPrefix_clean {p rest : List Char} (hp : ∀ c ∈ p, c ≠ '\x07' ∧ c ≠ '\x1b')
    (h : p.dropPrefix? "7;".toList = some rest) :
    p = '7' :: ';' :: rest ∧ ∀ c ∈ rest, c ≠ '\x07' ∧ c ≠ '\x1b' := by
  rw [List.dropPrefix?_eq_some_iff] at h
  obtain ⟨code, rfl, hcode⟩ := h
  obtain rfl : code = "7;".toList := by simpa using hcode
  exact ⟨rfl, fun c hc => hp c (List.mem_append_right _ hc)⟩

theorem found_clean {p : List Char} (hp : ∀ c ∈ p, c ≠ '\x07' ∧ c ≠ '\x1b') (rest : List Char) :
    Text.found oscCwdPattern (p ++ rest) = Text.found oscCwdPattern rest := by
  induction p with
  | nil => rfl
  | cons c p ih =>
    rw [List.forall_mem_cons] at hp
    rw [List.cons_append, Text.found_cons_none _ (oscCwdPattern_of_ne hp.1.2 _), ih hp.2]

theorem found_stray (rest : List Char) :
    Text.found oscCwdPattern ('\x1b' :: '\\' :: rest) = Text.found oscCwdPattern rest := by
  rw [Text.found_cons_none _ rfl, Text.found_cons_none _ (oscCwdPattern_of_ne (by decide) _)]

theorem found_oscEnd (st : Bool) (rest : List Char) :
    Text.found oscCwdPattern (oscEnd st ++ rest) = Text.found oscCwdPattern rest := by
  cases st with
  | true => exact found_stray rest
  | false => exact Text.found_cons_none _ (oscCwdPattern_of_ne (by decide) _)

/-- Of a complete sequence, an OSC 7 is found and nothing else. -/
theorem found_sequence {p : List Char} (hp : ∀ c ∈ p, c ≠ '\x07' ∧ c ≠ '\x1b') (st : Bool)
    (rest : List Char) :
    Text.found oscCwdPattern ('\x1b' :: ']' :: (p ++ (oscEnd st ++ rest))) =
      (p.dropPrefix? "7;".toList).toList ++ Text.found oscCwdPattern rest := by
  have hcode := dropPrefix_code (u := oscEnd st ++ rest) (by cases st <;> simp [oscEnd]) p
  cases h : p.dropPrefix? "7;".toList with
  | none =>
    have hnone : oscCwdPattern ('\x1b' :: ']' :: (p ++ (oscEnd st ++ rest))) = none := by
      rw [oscCwdPattern_osc, hcode, h]
      rfl
    rw [Text.found_cons_none _ hnone, Text.found_cons_none _ (oscCwdPattern_of_ne (by decide) _),
      found_clean hp, found_oscEnd]
    rfl
  | some payload =>
    obtain ⟨rfl, hpayload⟩ := dropPrefix_clean hp h
    have hsome : oscCwdPattern ('\x1b' :: ']' :: ('7' :: ';' :: payload ++ (oscEnd st ++ rest))) =
        some (payload, (oscEnd st).length + payload.length + 4) := by
      rw [oscCwdPattern_osc, hcode, h, Option.map_some, Option.bind_some, oscBody_clean hpayload,
        oscBody_oscEnd]
      simp
    rw [Text.found_cons_some _ hsome]
    have hdrop : (']' :: ('7' :: ';' :: payload ++ (oscEnd st ++ rest))).drop
        ((oscEnd st).length + payload.length + 4 - 1) = rest := by
      have hlist : ']' :: ('7' :: ';' :: payload ++ (oscEnd st ++ rest)) =
          (']' :: '7' :: ';' :: (payload ++ oscEnd st)) ++ rest := by simp
      rw [hlist]
      apply List.drop_left'
      simp only [List.length_cons, List.length_append]
      omega
    rw [hdrop]
    rfl

/-- A sequence that has not ended is not found. -/
theorem found_open {p u : List Char} (hp : ∀ c ∈ p, c ≠ '\x07' ∧ c ≠ '\x1b')
    (hu : u = [] ∨ u = ['\x1b']) :
    Text.found oscCwdPattern ('\x1b' :: ']' :: (p ++ u)) = [] := by
  have hhead : u.head? ≠ some '7' ∧ u.head? ≠ some ';' := by rcases hu with rfl | rfl <;> decide
  have hbody : oscBody u = none := by rcases hu with rfl | rfl <;> rfl
  have hfound : Text.found oscCwdPattern u = [] := by rcases hu with rfl | rfl <;> rfl
  have hnone : oscCwdPattern ('\x1b' :: ']' :: (p ++ u)) = none := by
    rw [oscCwdPattern_osc, dropPrefix_code hhead]
    cases h : p.dropPrefix? "7;".toList with
    | none => rfl
    | some payload =>
      rw [Option.map_some, Option.bind_some, oscBody_clean (dropPrefix_clean hp h).2, hbody]
      rfl
  rw [Text.found_cons_none _ hnone, Text.found_cons_none _ (oscCwdPattern_of_ne (by decide) _),
    found_clean hp, hfound]

/-! ## A chunk with what was carried into it -/

namespace Osc

/-- The `ESC ]` of a sequence was read. -/
def opened : Osc → Bool
  | .idle | .escape _ => false
  | .body _ _ | .ending _ _ => true

theorem text_carried_cons (q : Osc) (s : Sequence) (out : List Sequence) :
    (q.carried (s :: out)).text = if q.opened then q.text else [] := by
  cases q <;> rfl

theorem carried_opened {q : Osc} (hq : q.opened = true) (out : List Sequence) :
    q.carried out = q := by
  cases q <;> simp_all [opened, carried]

end Osc

theorem carryPartialOsc_open {u : List Char} (hlast : fromLastOsc u = none)
    (hend : oscTerminated u = false) :
    carryPartialOsc ('\x1b' :: ']' :: u) = '\x1b' :: ']' :: u := by
  rw [carryPartialOsc, fromLastOsc_opening, hlast]
  simp [hend]

namespace Reads

variable {lax : Prop} {q q' : Osc} {i : Nat} {data : List Char} {out : List Sequence}

theorem fromLastOsc_eq_none (h : Reads lax q i data q' out) (hq : q.Clean) :
    fromLastOsc (q.text ++ data) = none ↔ out = [] ∧ q'.opened = false := by
  induction h with
  | done q i =>
    rw [List.append_nil]
    cases q with
    | idle => simp [Osc.text, fromLastOsc, Osc.opened]
    | escape s => simp [Osc.text, fromLastOsc, Osc.opened]
    | body s p => simp [Osc.text, fromLastOsc_opening, Osc.opened]
    | ending s p => simp [Osc.text, fromLastOsc_opening, Osc.opened]
  | plain hc _ ih => exact (fromLastOsc_cons_of_ne hc _).symm ▸ ih trivial
  | escape _ ih => exact ih trivial
  | opening _ ih => exact ih (by simp [Osc.Clean])
  | stray _ _ ih => exact (fromLastOsc_stray _).symm ▸ ih trivial
  | payload hc _ ih => simpa [Osc.text] using ih (Osc.Clean.snoc hq hc)
  | bel _ _ => simp [Osc.text, fromLastOsc_opening]
  | closing _ ih => simpa [Osc.text] using ih hq
  | st _ _ => simp [Osc.text, fromLastOsc_opening]

/-- What a chunk carries on, behind a sequence that has ended in it. -/
theorem carry_behind {p rest : List Char} (hp : ∀ c ∈ p, c ≠ '\x07' ∧ c ≠ '\x1b') (st : Bool)
    (s : Sequence) (h : Reads lax .idle i rest q' out)
    (ih : carryPartialOsc rest = (q'.carried out).text) :
    carryPartialOsc ('\x1b' :: ']' :: (p ++ (oscEnd st ++ rest))) =
      (q'.carried (s :: out)).text := by
  rw [carryPartialOsc_sequence hp, Osc.text_carried_cons]
  have hnone : fromLastOsc rest = none ↔ out = [] ∧ q'.opened = false :=
    h.fromLastOsc_eq_none trivial
  cases hopened : q'.opened with
  | true =>
    rw [if_neg (by simp [hnone, hopened]), if_pos rfl, ih, Osc.carried_opened hopened]
  | false =>
    rw [if_neg Bool.false_ne_true]
    cases out with
    | nil => rw [if_pos (hnone.2 ⟨rfl, hopened⟩)]
    | cons first out =>
      rw [if_neg (by simp [hnone]), ih, Osc.text_carried_cons, hopened, if_neg Bool.false_ne_true]

theorem carryPartialOsc_eq (h : Reads lax q i data q' out) (hq : q.Clean) :
    carryPartialOsc (q.text ++ data) = (q'.carried out).text := by
  induction h with
  | done q i =>
    rw [List.append_nil, Osc.carried_nil]
    cases q with
    | idle => rfl
    | escape s => rfl
    | body s p =>
      have hlast := fromLastOsc_clean hq []
      have hend := oscTerminated_clean hq []
      rw [List.append_nil] at hlast hend
      exact carryPartialOsc_open hlast hend
    | ending s p =>
      exact carryPartialOsc_open (fromLastOsc_clean hq ['\x1b'])
        (oscTerminated_clean hq ['\x1b'])
  | plain hc _ ih => exact (carryPartialOsc_cons hc _).trans (ih trivial)
  | escape _ ih => exact ih trivial
  | opening _ ih => exact ih (by simp [Osc.Clean])
  | stray _ _ ih => exact (carryPartialOsc_stray _).trans (ih trivial)
  | payload hc _ ih => simpa [Osc.text] using ih (Osc.Clean.snoc hq hc)
  | bel h ih => exact carry_behind hq false _ h (ih trivial)
  | closing _ ih => simpa [Osc.text] using ih hq
  | st h ih => simpa [Osc.text, oscEnd] using carry_behind hq true _ h (ih trivial)

/-- What is found in a chunk, behind a sequence that has ended in it. -/
theorem found_behind {p rest : List Char} (hp : ∀ c ∈ p, c ≠ '\x07' ∧ c ≠ '\x1b') (st : Bool)
    {s : Sequence} (hs : s.payload = p)
    (ih : Text.found oscCwdPattern rest =
      out.filterMap fun s => s.payload.dropPrefix? "7;".toList) :
    Text.found oscCwdPattern ('\x1b' :: ']' :: (p ++ (oscEnd st ++ rest))) =
      (s :: out).filterMap fun s => s.payload.dropPrefix? "7;".toList := by
  rw [found_sequence hp, ih, List.filterMap_cons, hs]
  cases p.dropPrefix? "7;".toList <;> rfl

theorem found_eq (h : Reads lax q i data q' out) (hq : q.Clean) :
    Text.found oscCwdPattern (q.text ++ data) =
      out.filterMap fun s => s.payload.dropPrefix? "7;".toList := by
  induction h with
  | done q i =>
    rw [List.append_nil]
    cases q with
    | idle => rfl
    | escape s => rfl
    | body s p => simpa [Osc.text] using found_open hq (.inl rfl)
    | ending s p => exact found_open hq (.inr rfl)
  | plain hc _ ih => exact (Text.found_cons_none _ (oscCwdPattern_of_ne hc _)).trans (ih trivial)
  | escape _ ih => exact ih trivial
  | opening _ ih => exact ih (by simp [Osc.Clean])
  | stray _ _ ih => exact (found_stray _).trans (ih trivial)
  | payload hc _ ih => simpa [Osc.text] using ih (Osc.Clean.snoc hq hc)
  | bel _ ih => exact found_behind hq false rfl (ih trivial)
  | closing _ ih => simpa [Osc.text] using ih hq
  | st _ ih => simpa [Osc.text, oscEnd] using found_behind hq true rfl (ih trivial)

/-! ### Where sequences begin and end -/

theorem stop_bounds (h : Reads lax q i data q' out) :
    ∀ s ∈ out, i < s.stop ∧ s.stop ≤ i + data.length := by
  induction h with
  | done => simp
  | plain _ _ ih | escape _ ih | opening _ ih | stray _ _ ih | payload _ _ ih | closing _ ih =>
    intro s hs
    have := ih s hs
    rw [List.length_cons]
    omega
  | bel _ ih | st _ ih =>
    intro s hs
    rw [List.length_cons]
    rcases List.mem_cons.1 hs with rfl | hs
    · simp only
      omega
    · have := ih s hs
      omega

/-- Only the first sequence that ends in a text can have begun before it. -/
theorem starts (h : Reads lax q i data q' out) {u v : List Sequence} {s : Sequence}
    (hout : out = u ++ s :: v) :
    u = [] ∧ q.start? = some s.start ∨ i ≤ s.start ∧ s.start + 2 ≤ s.stop := by
  induction h generalizing u with
  | done => simp at hout
  | plain _ _ ih =>
    rcases ih hout with ⟨_, h⟩ | h
    · simp [Osc.start?] at h
    · right; omega
  | escape h ih =>
    have hstop := h.stop_bounds s (by simp [hout])
    rcases ih hout with ⟨_, h⟩ | h
    · simp only [Osc.start?, Option.some.injEq] at h
      right; omega
    · right; omega
  | stray _ _ ih =>
    rcases ih hout with ⟨_, h⟩ | h
    · simp [Osc.start?] at h
    · right; omega
  | opening _ ih | payload _ _ ih | closing _ ih =>
    rcases ih hout with h | h
    · exact .inl h
    · right; omega
  | bel _ ih | st _ ih =>
    cases u with
    | nil =>
      simp only [List.nil_append, List.cons.injEq] at hout
      exact .inl ⟨rfl, by rw [← hout.1]; rfl⟩
    | cons first u =>
      simp only [List.cons_append, List.cons.injEq] at hout
      rcases ih hout.2 with ⟨_, h⟩ | h
      · simp [Osc.start?] at h
      · right; omega

/-- Where the sequence begins that the text leaves unterminated. -/
theorem open_start (h : Reads lax q i data q' out) {s : Nat} (hs : q'.start? = some s) :
    out = [] ∧ q.start? = some s ∧ (data = [] ∧ q' = q ∨ data ≠ [] ∧ q'.opened = true) ∨
      i ≤ s ∧ (q' = .escape s ∧ s + 1 = i + data.length ∨
        q'.opened = true ∧ s + 2 ≤ i + data.length) := by
  induction h with
  | done q i => exact .inl ⟨rfl, hs, .inl ⟨rfl, rfl⟩⟩
  | plain _ _ ih | stray _ _ ih | bel _ ih | st _ ih =>
    rw [List.length_cons]
    rcases ih hs with ⟨_, h, _⟩ | ⟨hi, ⟨h, hlen⟩ | ⟨h, hlen⟩⟩
    · simp [Osc.start?] at h
    · exact .inr ⟨by omega, .inl ⟨h, by omega⟩⟩
    · exact .inr ⟨by omega, .inr ⟨h, by omega⟩⟩
  | @escape i rest q out _ ih =>
    rw [List.length_cons]
    rcases ih hs with ⟨_, h, ⟨hrest, hq⟩ | ⟨hrest, hq⟩⟩ | ⟨hi, ⟨h, hlen⟩ | ⟨h, hlen⟩⟩
    · simp only [Osc.start?, Option.some.injEq] at h
      subst h hrest
      exact .inr ⟨Nat.le_refl i, .inl ⟨hq, rfl⟩⟩
    · simp only [Osc.start?, Option.some.injEq] at h
      have := List.length_pos_of_ne_nil hrest
      exact .inr ⟨by omega, .inr ⟨hq, by omega⟩⟩
    · exact .inr ⟨by omega, .inl ⟨h, by omega⟩⟩
    · exact .inr ⟨by omega, .inr ⟨h, by omega⟩⟩
  | opening _ ih | payload _ _ ih | closing _ ih =>
    rw [List.length_cons]
    rcases ih hs with ⟨hout, h, ⟨_, hq⟩ | ⟨_, hq⟩⟩ | ⟨hi, ⟨h, hlen⟩ | ⟨h, hlen⟩⟩
    · exact .inl ⟨hout, h, .inr ⟨by simp, by rw [hq]; rfl⟩⟩
    · exact .inl ⟨hout, h, .inr ⟨by simp, hq⟩⟩
    · exact .inr ⟨by omega, .inl ⟨h, by omega⟩⟩
    · exact .inr ⟨by omega, .inr ⟨h, by omega⟩⟩

/-- Every reader is lax. -/
theorem relax (h : Reads False q i data q' out) : Reads True q i data q' out := by
  induction h with
  | done q i => exact .done q i
  | plain hc _ ih => exact .plain hc ih
  | escape _ ih => exact .escape ih
  | opening _ ih => exact .opening ih
  | stray hlax _ _ => exact hlax.elim
  | payload hc _ ih => exact .payload hc ih
  | bel _ ih => exact .bel ih
  | closing _ ih => exact .closing ih
  | st _ ih => exact .st ih

end Reads

/-! ## Readers that lost the beginning of a sequence -/

/-- Where a reader is that lost the beginning of the sequence which another one is reading. -/
inductive Lost : Osc → Osc → Prop
  | escape (s) : Lost .idle (.escape s)
  | body (s p) : Lost .idle (.body s p)
  | ending (s p) : Lost .idle (.ending s p)
  | closing (s p j) : Lost (.escape j) (.ending s p)

theorem Lost.clean {l q : Osc} (hl : Lost l q) : l.Clean := by
  cases hl <;> trivial

theorem Lost.carried {l q : Osc} (hl : Lost l q) : Lost (l.carried []) q := by
  rwa [Osc.carried_nil]

/-- It misses this sequence, and no other. -/
theorem Reads.lost {q l q' : Osc} {i : Nat} {data : List Char} {out : List Sequence}
    (h : Reads False q i data q' out) (hl : Lost l q) :
    (∃ l', Reads True l i data l' [] ∧ Lost l' q' ∧ out = [] ∧ q'.start? = q.start?) ∨
      ∃ s rest, out = s :: rest ∧ Reads True l i data q' rest ∧ q.start? = some s.start := by
  induction h generalizing l with
  | done q i => exact .inl ⟨l, .done l i, hl, rfl, rfl⟩
  | plain => cases hl
  | escape => cases hl
  | stray hlax => exact hlax.elim
  | @opening s i rest q out _ ih =>
    cases hl with
    | escape =>
      rcases ih (.body s []) with ⟨l', h, hl', hout, hs⟩ | ⟨first, rest, hout, h, hs⟩
      · exact .inl ⟨l', .plain (by decide) h, hl', hout, hs⟩
      · exact .inr ⟨first, rest, hout, .plain (by decide) h, hs⟩
  | @payload s p i c rest q out hc _ ih =>
    cases hl with
    | body =>
      rcases ih (.body s (p ++ [c])) with ⟨l', h, hl', hout, hs⟩ | ⟨first, rest, hout, h, hs⟩
      · exact .inl ⟨l', .plain hc.2 h, hl', hout, hs⟩
      · exact .inr ⟨first, rest, hout, .plain hc.2 h, hs⟩
  | @closing s p i rest q out _ ih =>
    cases hl with
    | body =>
      rcases ih (.closing s p i) with ⟨l', h, hl', hout, hs⟩ | ⟨first, rest, hout, h, hs⟩
      · exact .inl ⟨l', .escape h, hl', hout, hs⟩
      · exact .inr ⟨first, rest, hout, .escape h, hs⟩
  | @bel s p i rest q out h _ =>
    cases hl with
    | body => exact .inr ⟨_, out, rfl, .plain (by decide) h.relax, rfl⟩
  | @st s p i rest q out h _ =>
    cases hl with
    | ending => exact .inr ⟨_, out, rfl, .plain (by decide) h.relax, rfl⟩
    | closing => exact .inr ⟨_, out, rfl, .stray trivial h.relax, rfl⟩

/-! ## What is torn -/

theorem lastAnnounced_append (platform : Platform) (xs ys : List Sequence) :
    lastAnnounced platform (xs ++ ys) =
      (lastAnnounced platform ys).or (lastAnnounced platform xs) := by
  rw [lastAnnounced, List.filterMap_append, List.getLast?_append]
  rfl

theorem whole_append {chunks : List (Nat × Nat)} {before out : List Sequence}
    (hout : ∀ u s v, out = u ++ s :: v → ¬ Torn chunks (before ++ u) s.start)
    (more : List Sequence) :
    whole chunks before (out ++ more) = out ++ whole chunks (before ++ out) more := by
  induction out generalizing before with
  | nil => simp
  | cons first out ih =>
    have hfirst : ¬ Torn chunks before first.start := by simpa using hout [] first out rfl
    rw [List.cons_append, whole, if_neg hfirst, ih, List.append_assoc, List.singleton_append,
      List.cons_append]
    intro u s v h
    simpa using hout (first :: u) s v (by rw [h]; rfl)

/-- The chunks of an output: those up to an index, one from there to another, those behind it. -/
structure Splits (chunks : List (Nat × Nat)) (i j : Nat) : Prop where
  mem : (i, j) ∈ chunks
  le : i ≤ j
  apart : ∀ c ∈ chunks, c.2 ≤ i ∨ c = (i, j) ∨ j ≤ c.1 ∧ c.1 ≤ c.2

namespace Splits

variable {chunks : List (Nat × Nat)} {i j : Nat} {before : List Sequence} {start : Nat}

/-- No sequence is torn whose `ESC` does not end a chunk. -/
theorem not_torn_inside (h : Splits chunks i j) (hi : i ≤ start) (hj : start + 2 ≤ j) :
    ¬ Torn chunks before start := by
  rintro ⟨c, hc, hstart, -⟩
  rcases h.apart c hc with hle | rfl | ⟨hle, hlen⟩
  · omega
  · simp only at hstart; omega
  · omega

theorem torn_at_end (h : Splits chunks i j) (hi : i ≤ start) (hj : start + 1 = j)
    (hbefore : ∀ s ∈ before, s.stop ≤ j) :
    Torn chunks before start ↔ ∃ s ∈ before, i < s.stop := by
  constructor
  · rintro ⟨c, hc, hstart, s, hs, hlt⟩
    have hle := hbefore s hs
    rcases h.apart c hc with hc | rfl | ⟨hc, hlen⟩
    · omega
    · exact ⟨s, hs, hlt⟩
    · omega
  · rintro ⟨s, hs, hlt⟩
    exact ⟨(i, j), h.mem, hj.symm, s, hs, hlt⟩

end Splits

/-! ## Over the chunks -/

/-- Where the tracker is while the output is at `q`: at the same place, or it lost the beginning of
the sequence, which then is torn. -/
def Tracks (chunks : List (Nat × Nat)) (before : List Sequence) (l q : Osc) : Prop :=
  l = q ∧ (∀ s, q.start? = some s → ¬ Torn chunks before s) ∨
    Lost l q ∧ ∀ s, q.start? = some s → Torn chunks before s

theorem Tracks.clean {chunks : List (Nat × Nat)} {before : List Sequence} {l q : Osc}
    (h : Tracks chunks before l q) (hq : q.Clean) : l.Clean := by
  rcases h with ⟨rfl, -⟩ | ⟨hl, -⟩
  · exact hq
  · exact hl.clean

section Chunk

variable {chunks : List (Nat × Nat)} {i : Nat} {data : List Char} {before out : List Sequence}
  {q q' l : Osc}

/-- What the carry does at the end of a chunk in which the tracker found the sequences `new`. -/
theorem Tracks.at_end (hsplit : Splits chunks i (i + data.length))
    (h : Reads False q i data q' out) (hbefore : ∀ s ∈ before, s.stop ≤ i)
    (hq : out = [] → ∀ s, q.start? = some s → ¬ Torn chunks before s) {new : List Sequence}
    (hnew : new <:+ out) : Tracks chunks (before ++ new) (q'.carried new) q' := by
  cases hstart : q'.start? with
  | none =>
    cases q' with
    | idle => exact .inl ⟨rfl, by simp [Osc.start?]⟩
    | escape | body | ending => simp [Osc.start?] at hstart
  | some s =>
    rcases h.open_start hstart with ⟨rfl, hs, -⟩ | ⟨hi, ⟨rfl, hlen⟩ | ⟨hopened, hlen⟩⟩
    · obtain rfl := List.suffix_nil.1 hnew
      refine .inl ⟨Osc.carried_nil q', fun s' hs' => ?_⟩
      rw [List.append_nil]
      obtain rfl : s = s' := Option.some.inj (hstart.symm.trans hs')
      exact hq rfl s hs
    · have hstops : ∀ s ∈ before ++ new, s.stop ≤ i + data.length := by
        intro s hs
        rcases List.mem_append.1 hs with hs | hs
        · have := hbefore s hs
          omega
        · exact (h.stop_bounds s (hnew.subset hs)).2
      have htorn := hsplit.torn_at_end hi hlen hstops
      cases new with
      | nil =>
        refine .inl ⟨rfl, fun s' hs' => ?_⟩
        obtain rfl : s = s' := Option.some.inj hs'
        rw [htorn]
        rintro ⟨e, he, hlt⟩
        have := hbefore e (by simpa using he)
        omega
      | cons first new =>
        refine .inr ⟨.escape s, fun s' hs' => ?_⟩
        obtain rfl : s = s' := Option.some.inj hs'
        exact htorn.2 ⟨first, by simp, (h.stop_bounds first (hnew.subset (by simp))).1⟩
    · refine .inl ⟨Osc.carried_opened hopened new, fun s' hs' => ?_⟩
      obtain rfl : s = s' := Option.some.inj (hstart.symm.trans hs')
      exact hsplit.not_torn_inside hi hlen

/-- One chunk: the tracker finds the sequences that are not torn. -/
theorem Tracks.chunk (hl : Tracks chunks before l q)
    (hsplit : Splits chunks i (i + data.length)) (h : Reads False q i data q' out)
    (hbefore : ∀ s ∈ before, s.stop ≤ i) :
    ∃ l' new, Reads True l i data l' new ∧ Tracks chunks (before ++ new) (l'.carried new) q' ∧
      new <:+ out ∧
        ∀ more, whole chunks before (out ++ more) = new ++ whole chunks (before ++ new) more := by
  -- a sequence other than the first one begins in this chunk
  have hinside : ∀ {u s v}, out = u ++ s :: v → ¬ q.start? = some s.start ∨ u ≠ [] →
      ∀ seen, ¬ Torn chunks seen s.start := by
    intro u s v hout hfirst seen
    rcases h.starts hout with ⟨hu, hs⟩ | ⟨hi, hstop⟩
    · rcases hfirst with hfirst | hfirst
      · exact absurd hs hfirst
      · exact absurd hu hfirst
    · have := (h.stop_bounds s (by simp [hout])).2
      exact hsplit.not_torn_inside hi (by omega)
  rcases hl with ⟨rfl, hq⟩ | ⟨hlost, hq⟩
  · refine ⟨q', out, h.relax, .at_end hsplit h hbefore (fun _ => hq) (List.suffix_refl out),
      List.suffix_refl out, whole_append fun u s v hout => ?_⟩
    by_cases hfirst : l.start? = some s.start ∧ u = []
    · obtain ⟨hs, rfl⟩ := hfirst
      rw [List.append_nil]
      exact hq _ hs
    · exact hinside hout (not_and_or.1 hfirst) _
  · rcases h.lost hlost with ⟨l', hl', hlost', rfl, hstart⟩ | ⟨first, rest, rfl, hl', hs⟩
    · refine ⟨l', [], hl', .inr ⟨hlost'.carried, ?_⟩, List.suffix_refl [], fun more => by simp⟩
      rwa [List.append_nil, hstart]
    · refine ⟨q', rest, hl', .at_end hsplit h hbefore (by simp) (List.suffix_cons first rest),
        List.suffix_cons first rest, fun more => ?_⟩
      rw [List.cons_append, whole, if_pos (hq _ hs)]
      refine whole_append (fun u s v hrest => ?_) more
      exact hinside (u := first :: u) (by rw [hrest]; rfl) (.inr (by simp)) _

end Chunk

theorem foldl_or_getLast {α β : Type} (f : α → Option β) (xs : List α) (result : Option β) :
    xs.foldl (fun result x => (f x).or result) result = ((xs.filterMap f).getLast?).or result := by
  induction xs generalizing result with
  | nil => rfl
  | cons x xs ih =>
    rw [List.foldl_cons, ih, List.filterMap_cons]
    cases f x with
    | none => rfl
    | some y =>
      rw [List.getLast?_cons]
      cases (xs.filterMap f).getLast? <;> rfl

/-- What `detectCwdChange` returns for a chunk with what was carried into it. -/
theorem detectCwdChange_eq (platform : Platform) {q q' : Osc} {i : Nat} {data : List Char}
    {out : List Sequence} (h : Reads True q i data q' out) (hq : q.Clean) :
    detectCwdChange platform (q.text ++ data) = lastAnnounced platform out := by
  have hfold := foldl_or_getLast (cwdOf platform) (Text.found oscCwdPattern (q.text ++ data)) none
  rw [Text.found, List.foldl_map] at hfold
  rw [detectCwdChange, hfold, Option.or_none, ← Text.found, h.found_eq hq, List.filterMap_filterMap]
  rfl

theorem bounds_splits {pre : List (Nat × Nat)} {i : Nat} (hpre : ∀ c ∈ pre, c.2 ≤ i)
    (data : List Char) (chunks : List (List Char)) :
    Splits (pre ++ bounds i (data :: chunks)) i (i + data.length) := by
  have hbounds : ∀ (chunks : List (List Char)) (j : Nat), ∀ c ∈ bounds j chunks,
      j ≤ c.1 ∧ c.1 ≤ c.2 := by
    intro chunks
    induction chunks with
    | nil => simp [bounds]
    | cons data chunks ih =>
      intro j c hc
      rcases List.mem_cons.1 hc with rfl | hc
      · exact ⟨Nat.le_refl j, Nat.le_add_right _ _⟩
      · have := ih _ c hc
        omega
  refine ⟨by simp [bounds], Nat.le_add_right _ _, fun c hc => ?_⟩
  rcases List.mem_append.1 hc with hc | hc
  · exact .inl (hpre c hc)
  · rcases List.mem_cons.1 hc with rfl | hc
    · exact .inr (.inl rfl)
    · exact .inr (.inr (hbounds chunks _ c hc))

theorem lastCwd_reads (platform : Platform) (pre : List (Nat × Nat)) {all : List (Nat × Nat)}
    {chunks : List (List Char)} {i : Nat} {q q' l : Osc} {before out : List Sequence} {t : TerminalModeTracker}
    (hall : all = pre ++ bounds i chunks) (hpre : ∀ c ∈ pre, c.2 ≤ i)
    (h : Reads False q i chunks.flatten q' out) (hq : q.Clean)
    (hbefore : ∀ s ∈ before, s.stop ≤ i) (hl : Tracks all before l q)
    (ht : t.cwdDetectCarry = l.text) :
    t.lastCwd platform chunks = lastAnnounced platform (whole all before out) := by
  induction chunks generalizing pre i q l before out t with
  | nil =>
    cases h
    rfl
  | cons data chunks ih =>
    obtain ⟨q₁, out₁, out₂, h₁, h₂, rfl⟩ := Reads.split h
    have hsplit : Splits all i (i + data.length) := hall ▸ bounds_splits hpre data chunks
    obtain ⟨l', new, hread, htracks, hnew, hwhole⟩ := hl.chunk hsplit h₁ hbefore
    have hcarry : (t.detectCwd data).cwdDetectCarry = (l'.carried new).text := by
      rw [TerminalModeTracker.detectCwd, ht]
      exact hread.carryPartialOsc_eq (hl.clean hq)
    have hvalue : t.detectedCwd platform data = lastAnnounced platform new := by
      rw [TerminalModeTracker.detectedCwd, ht]
      exact detectCwdChange_eq platform hread (hl.clean hq)
    have hrest := ih (pre ++ [(i, i + data.length)]) (by rw [hall, bounds]; simp) ?_ h₂
      (h₁.clean hq) ?_ htracks hcarry
    · rw [TerminalModeTracker.lastCwd, hrest, hvalue, hwhole, lastAnnounced_append]
    · intro c hc
      rcases List.mem_append.1 hc with hc | hc
      · have := hpre c hc
        omega
      · obtain rfl := List.mem_singleton.1 hc
        exact Nat.le_refl _
    · intro s hs
      rcases List.mem_append.1 hs with hs | hs
      · have := hbefore s hs
        omega
      · exact (h₁.stop_bounds s (hnew.subset hs)).2

/-- **The working directory.** Wherever an output of plain text and complete OSC sequences is cut,
the last value that `detectCwd` returns is the path of the last well-formed OSC 7 sequence that is
not torn. -/
theorem lastCwd_exact (platform : Platform) (pieces : List Piece) (chunks : List (List Char))
    (h : chunks.flatten = pieces.flatMap Piece.text) :
    TerminalModeTracker.initial.lastCwd platform chunks =
      lastAnnounced platform (whole (bounds 0 chunks) [] (sequences 0 pieces)) := by
  refine lastCwd_reads platform [] (q := .idle) (l := .idle) rfl (by simp)
    (h ▸ Reads.of_pieces pieces 0) trivial (by simp) (.inl ⟨rfl, ?_⟩) rfl
  simp [Osc.start?]

theorem clean_announcement : ∀ c ∈ "7;file:///a".toList, c ≠ '\x07' ∧ c ≠ '\x1b' := by simp

/-- A shell that announces two directories, one after the other. -/
def twoAnnouncements : List Piece :=
  [.osc "7;file:///a".toList false clean_announcement, .osc "7;file:///b".toList false (by simp)]

theorem lastCwd_exact_at_cut :
    TerminalModeTracker.initial.lastCwd ⟨false, id⟩
      ["\x1b]7;file:///a\x07\x1b]".toList, "7;file:///b\x07".toList] = some "/b".toList := by
  refine (lastCwd_exact ⟨false, id⟩ twoAnnouncements _ (by decide)).trans ?_
  decide +kernel

/-- The second sequence is cut behind its `ESC`, in a chunk that holds the end of the first one. -/
theorem torn_is_lost :
    ¬ ∀ (platform : Platform) (pieces : List Piece) (chunks : List (List Char)),
      chunks.flatten = pieces.flatMap Piece.text →
        TerminalModeTracker.initial.lastCwd platform chunks =
          lastAnnounced platform (sequences 0 pieces) := by
  intro h
  have := h ⟨false, id⟩ twoAnnouncements
    ["\x1b]7;file:///a\x07\x1b".toList, "]7;file:///b\x07".toList] (by decide)
  revert this
  decide +kernel

end Terminal
end Mullion
