import Mullion.Lib.Recognizer
import Mullion.Terminal.Modes

/-!
# The detectors read one stream of switches

The detectors scan each chunk, with the carry before it, by regular expressions. Here is the
machine behind them: a recogniser of the sequences `ESC [ ? digits h` and `… l` that reads one
character at a time.

* `found_switchPattern` — a regular expression over some codes finds what the recogniser
  emits with these codes;
* `carryPartialEscape_eq` — the carry is the text of the recogniser's state;
* `faithful_utf8` — the bytes of a text give the same switches as the text.
-/

namespace Mullion
namespace Terminal

/-! ## The recogniser -/

/-- How far into a switch the text is. -/
inductive Scan
  | idle
  | escape
  | bracket
  | param (digits : List Char)
  deriving DecidableEq, Repr

namespace Scan

/-- One character that is not `ESC`. -/
def next : Scan → Char → Scan × Option Switch
  | .idle, _ => (.idle, none)
  | .escape, c => (if c = '[' then .bracket else .idle, none)
  | .bracket, c => (if c = '?' then .param [] else .idle, none)
  | .param digits, c =>
    if c.isDigit ∧ digits.length < 4 then (.param (digits ++ [c]), none)
    else if c = 'h' then (.idle, some ⟨String.ofList digits, true⟩)
    else if c = 'l' then (.idle, some ⟨String.ofList digits, false⟩)
    else (.idle, none)

/-- One character. -/
def step (q : Scan) (c : Char) : Scan × Option Switch :=
  if c = '\x1b' then (.escape, none) else q.next c

/-- What has been read of the open switch. -/
def text : Scan → List Char
  | .idle => []
  | .escape => ['\x1b']
  | .bracket => ['\x1b', '[']
  | .param digits => '\x1b' :: '[' :: '?' :: digits

end Scan

/-- The recogniser of switches. -/
def scanner : Recognizer Char Switch Scan where
  start := .idle
  step := Scan.step
  opens c := c = '\x1b'
  step_opens q c h := by simp_all [Scan.step]
  step_start c h := by simp_all [Scan.step, Scan.next]

/-- The switches of a text. -/
def switches (text : List Char) : List Switch := scanner.outputs .idle text

/-- How far into a switch the end of a text is. -/
def scan (text : List Char) : Scan := scanner.final .idle text

@[simp] theorem scanner_start : scanner.start = .idle := rfl

@[simp] theorem scanner_opens (c : Char) : scanner.opens c = decide (c = '\x1b') := rfl

@[simp] theorem scanner_step (q : Scan) (c : Char) : scanner.step q c = q.step c := rfl

theorem switches_append (text data : List Char) :
    switches (text ++ data) = switches text ++ scanner.outputs (scan text) data :=
  scanner.outputs_append .idle text data

theorem scan_append (text data : List Char) :
    scan (text ++ data) = scanner.final (scan text) data :=
  scanner.final_append .idle text data

theorem step_escape (q : Scan) : q.step '\x1b' = (.escape, none) := rfl

theorem step_of_ne {q : Scan} {c : Char} (h : c ≠ '\x1b') : q.step c = q.next c := if_neg h

theorem switches_cons_of_ne {c : Char} (h : c ≠ '\x1b') (rest : List Char) :
    switches (c :: rest) = switches rest := by
  rw [switches, Recognizer.outputs_cons, scanner_step, step_of_ne h]
  rfl

/-! ## The end of an open switch -/

/-- The switch that the digits so far and the front of the text make, and what follows it. -/
def closing : List Char → List Char → Option (Switch × List Char)
  | _, [] => none
  | digits, c :: rest =>
    if c.isDigit ∧ digits.length < 4 then closing (digits ++ [c]) rest
    else if c = 'h' then some (⟨String.ofList digits, true⟩, rest)
    else if c = 'l' then some (⟨String.ofList digits, false⟩, rest)
    else none

/-- An open switch is closed or forgotten. -/
theorem outputs_param (digits text : List Char) :
    scanner.outputs (.param digits) text =
      match closing digits text with
      | some (sw, rest) => sw :: switches rest
      | none => switches text := by
  induction text generalizing digits with
  | nil => rfl
  | cons c rest ih =>
    by_cases hc : c = '\x1b'
    · subst hc
      rfl
    · rw [Recognizer.outputs_cons, scanner_step, step_of_ne hc, closing, Scan.next]
      by_cases hd : c.isDigit ∧ digits.length < 4
      · rw [if_pos hd, if_pos hd, switches_cons_of_ne hc]
        exact ih _
      · rw [if_neg hd, if_neg hd]
        split_ifs
        · rfl
        · rfl
        · exact (switches_cons_of_ne hc rest).symm

/-- What closes an open switch: more digits, at most four in all, and `h` or `l`. -/
theorem closing_eq_some_iff {digits text rest : List Char} {sw : Switch}
    (hlen : digits.length ≤ 4) :
    closing digits text = some (sw, rest) ↔
      ∃ more, text = more ++ (if sw.set then 'h' else 'l') :: rest ∧
        (∀ c ∈ more, c.isDigit = true) ∧ digits.length + more.length ≤ 4 ∧
        sw.code = String.ofList (digits ++ more) := by
  induction text generalizing digits with
  | nil => simp [closing]
  | cons c tail ih =>
    rw [closing]
    by_cases hd : c.isDigit ∧ digits.length < 4
    · rw [if_pos hd, ih (by simp; omega)]
      constructor
      · rintro ⟨more, rfl, hmore, hle, hcode⟩
        refine ⟨c :: more, rfl, ?_, by simp at hle ⊢; omega, by simpa using hcode⟩
        rintro b hb
        rcases List.mem_cons.1 hb with rfl | hb
        · exact hd.1
        · exact hmore b hb
      · rintro ⟨more, htext, hmore, hle, hcode⟩
        cases more with
        | nil =>
          -- `c` would be a digit and the final letter
          obtain ⟨rfl, -⟩ := List.cons.inj htext
          have := hd.1
          split_ifs at this <;> exact absurd this (by decide)
        | cons b more =>
          obtain ⟨rfl, rfl⟩ := List.cons.inj htext
          exact ⟨more, rfl, fun b hb => hmore b (List.mem_cons_of_mem c hb),
            by simp at hle ⊢; omega, by simpa using hcode⟩
    · rw [if_neg hd]
      constructor
      · intro h
        split_ifs at h with hh hl
        · cases h
          exact ⟨[], by simp [hh], by simp, by simpa using hlen, by simp⟩
        · cases h
          exact ⟨[], by simp [hl], by simp, by simpa using hlen, by simp⟩
      · rintro ⟨more, htext, hmore, hle, hcode⟩
        cases more with
        | nil =>
          obtain ⟨rfl, rfl⟩ := List.cons.inj htext
          obtain ⟨code, set⟩ := sw
          cases set <;> simp_all
        | cons b more =>
          obtain ⟨rfl, rfl⟩ := List.cons.inj htext
          refine absurd ⟨hmore c List.mem_cons_self, ?_⟩ hd
          simp at hle
          omega

/-- The characters of a switch after `ESC [ ?` open none. -/
theorem switches_of_closing {text rest : List Char} {sw : Switch}
    (h : closing [] text = some (sw, rest)) : switches text = switches rest := by
  obtain ⟨more, rfl, hmore, -, -⟩ := (closing_eq_some_iff (by simp)).1 h
  have hinert : scanner.Inert (more ++ [if sw.set then 'h' else 'l']) := by
    intro c hc
    rcases List.mem_append.1 hc with hc | hc
    · have := hmore c hc
      rw [scanner_opens, decide_eq_false_iff_not]
      rintro rfl
      exact absurd this (by decide)
    · rw [List.mem_singleton.1 hc]
      cases sw.set <;> rfl
  rw [List.append_cons, switches, Recognizer.outputs_append]
  have ho := hinert.outputs_start
  have hf := hinert.final_start
  rw [scanner_start] at ho hf
  rw [ho, hf, List.nil_append, switches]

/-! ## The regular expressions -/

/-- A code of at most four digits. -/
def IsCode (code : String) : Prop :=
  code.toList.all Char.isDigit = true ∧ code.toList.length ≤ 4

instance (code : String) : Decidable (IsCode code) :=
  inferInstanceAs (Decidable (_ ∧ _))

theorem switchEnd_eq_some_iff {code : String} {text : List Char} {sw : Switch} {n : Nat} :
    switchEnd code text = some (sw, n) ↔
      sw.code = code ∧ n = 4 + code.toList.length ∧
        ∃ rest, text = (if sw.set then 'h' else 'l') :: rest := by
  obtain ⟨code', set⟩ := sw
  constructor
  · intro h
    unfold switchEnd at h
    split at h
    · cases h
      exact ⟨rfl, rfl, _, rfl⟩
    · cases h
      exact ⟨rfl, rfl, _, rfl⟩
    · cases h
  · rintro ⟨rfl, rfl, rest, rfl⟩
    cases set <;> rfl

/-- What a regular expression matches is a switch that is closed, with one of its codes. -/
theorem closing_of_switchPattern {codes : List String} (hcodes : ∀ code ∈ codes, IsCode code)
    {text : List Char} {sw : Switch} {n : Nat}
    (h : switchPattern codes ('\x1b' :: '[' :: '?' :: text) = some (sw, n)) :
    sw.code ∈ codes ∧
      closing [] text = some (sw, ('[' :: '?' :: text).drop (n - 1)) := by
  obtain ⟨code, hmem, h⟩ := List.exists_of_findSome?_eq_some h
  obtain ⟨tail, htail, h⟩ := Option.bind_eq_some_iff.1 h
  obtain ⟨hcode, rfl, rest, rfl⟩ := switchEnd_eq_some_iff.1 h
  rw [List.dropPrefix?_eq_some_iff] at htail
  obtain ⟨front, rfl, hfront⟩ := htail
  obtain rfl : front = code.toList := by simpa using hfront
  have hok := hcodes code hmem
  refine ⟨hcode ▸ hmem, ?_⟩
  rw [closing_eq_some_iff (by simp)]
  refine ⟨code.toList, ?_, List.all_eq_true.1 hok.1, by simpa using hok.2, by simp [hcode]⟩
  have : 4 + code.toList.length - 1 = code.toList.length + 1 + 2 := by omega
  rw [this]
  simp [← List.drop_drop]

/-- A switch that is closed is matched, if its code is one of the regular expression. -/
theorem switchPattern_isSome {codes : List String} {text rest : List Char} {sw : Switch}
    (hmem : sw.code ∈ codes) (h : closing [] text = some (sw, rest)) :
    (switchPattern codes ('\x1b' :: '[' :: '?' :: text)).isSome := by
  obtain ⟨more, rfl, -, -, hcode⟩ := (closing_eq_some_iff (by simp)).1 h
  rw [switchPattern, List.findSome?_isSome_iff]
  refine ⟨sw.code, hmem, ?_⟩
  have hdrop : (more ++ (if sw.set then 'h' else 'l') :: rest).dropPrefix? sw.code.toList =
      some ((if sw.set then 'h' else 'l') :: rest) := by
    rw [List.dropPrefix?_eq_some_iff]
    exact ⟨more, rfl, by simp [hcode]⟩
  rw [hdrop, Option.bind_some]
  cases sw.set <;> rfl

/-- Away from `ESC [ ?` nothing matches. -/
theorem switchPattern_eq_none {codes : List String} {text : List Char}
    (h : ∀ rest, text ≠ '\x1b' :: '[' :: '?' :: rest) : switchPattern codes text = none := by
  unfold switchPattern
  split
  · exact absurd rfl (h _)
  · rfl

/-- After `ESC`, what is not `[ ?` opens no switch. -/
theorem outputs_escape_of_ne {text : List Char} (h : ∀ rest, text ≠ '[' :: '?' :: rest) :
    scanner.outputs .escape text = switches text := by
  cases text with
  | nil => rfl
  | cons c rest =>
    by_cases hc : c = '\x1b'
    · subst hc
      rfl
    · rw [switches_cons_of_ne hc, Recognizer.outputs_cons, scanner_step, step_of_ne hc, Scan.next]
      by_cases hb : c = '['
      · subst hb
        rw [if_pos rfl]
        cases rest with
        | nil => rfl
        | cons d rest =>
          by_cases hd : d = '\x1b'
          · subst hd
            rfl
          · have hq : d ≠ '?' := fun hq => h rest (by rw [hq])
            rw [switches_cons_of_ne hd, Recognizer.outputs_cons, scanner_step, step_of_ne hd,
              Scan.next, if_neg hq]
            rfl
      · rw [if_neg hb]
        rfl

/-- **The regular expressions.** What one of them finds in a text are the switches of the
text with one of its codes. -/
theorem found_switchPattern {codes : List String} (hcodes : ∀ code ∈ codes, IsCode code)
    (text : List Char) :
    Text.found (switchPattern codes) text =
      (switches text).filter fun sw => sw.code ∈ codes := by
  induction hn : text.length using Nat.strongRecOn generalizing text with
  | _ n ih =>
    subst hn
    cases text with
    | nil => rfl
    | cons c rest =>
      by_cases hopen : ∃ tail, c :: rest = '\x1b' :: '[' :: '?' :: tail
      · obtain ⟨tail, htail⟩ := hopen
        obtain ⟨rfl, rfl⟩ := List.cons.inj htail
        have hout : switches ('\x1b' :: '[' :: '?' :: tail) =
            scanner.outputs (.param []) tail := rfl
        rw [hout, outputs_param]
        cases hp : switchPattern codes ('\x1b' :: '[' :: '?' :: tail) with
        | some m =>
          obtain ⟨sw, n⟩ := m
          obtain ⟨hmem, hclose⟩ := closing_of_switchPattern hcodes hp
          rw [Text.found_cons_some _ hp, hclose,
            ih _ (by simp only [List.length_drop, List.length_cons]; omega) _ rfl]
          simp [hmem]
        | none =>
          rw [Text.found_cons_none _ hp, ih _ (by simp) _ rfl, switches_cons_of_ne (by decide),
            switches_cons_of_ne (by decide)]
          cases hclose : closing [] tail with
          | none => rfl
          | some m =>
            obtain ⟨sw, after⟩ := m
            have hmem : sw.code ∉ codes := fun hmem => by
              have := switchPattern_isSome hmem hclose
              rw [hp] at this
              cases this
            simp [hmem, switches_of_closing hclose]
      · have hp : switchPattern codes (c :: rest) = none :=
          switchPattern_eq_none fun tail h => hopen ⟨tail, h⟩
        rw [Text.found_cons_none _ hp, ih _ (by simp) _ rfl]
        by_cases hc : c = '\x1b'
        · subst hc
          have hout : switches ('\x1b' :: rest) = scanner.outputs .escape rest := rfl
          rw [hout, outputs_escape_of_ne fun tail h => hopen ⟨tail, by rw [h]⟩]
        · rw [switches_cons_of_ne hc]

/-! ## The carry -/

/-- Digits after `ESC [ ?` leave the switch open, as long as there are at most four. -/
theorem final_param {digits text : List Char} (hlen : digits.length ≤ 4)
    (htext : scanner.Inert text) :
    scanner.final (.param digits) text =
      if text.all Char.isDigit && decide (digits.length + text.length ≤ 4) then
        .param (digits ++ text)
      else .idle := by
  induction text generalizing digits with
  | nil => simp [hlen]
  | cons c rest ih =>
    have hc : c ≠ '\x1b' := by simpa using htext c List.mem_cons_self
    rw [Recognizer.final_cons, scanner_step, step_of_ne hc, Scan.next]
    by_cases hd : c.isDigit ∧ digits.length < 4
    · rw [if_pos hd, ih (by simp; omega) htext.tail]
      simp [hd.1, Nat.add_comm, Nat.add_left_comm]
    · have hidle := htext.tail.final_start
      rw [scanner_start] at hidle
      have hno : ¬ ((c :: rest).all Char.isDigit && decide (digits.length + (c :: rest).length ≤ 4))
          = true := by
        simp only [List.all_cons, Bool.and_eq_true, decide_eq_true_eq, List.length_cons]
        rintro ⟨⟨hdigit, -⟩, hle⟩
        exact hd ⟨hdigit, by omega⟩
      rw [if_neg hd, if_neg hno]
      split_ifs <;> exact hidle

/-- After the last `ESC`, the state is open exactly as long as the text is a prefix of a
switch. -/
theorem text_final_escape {text : List Char} (htext : scanner.Inert text) :
    (scanner.final .escape text).text =
      if partialEscapeTail ('\x1b' :: text) then '\x1b' :: text else [] := by
  cases text with
  | nil => rfl
  | cons c rest =>
    have hc : c ≠ '\x1b' := by simpa using htext c List.mem_cons_self
    have hidle := htext.tail.final_start
    rw [scanner_start] at hidle
    rw [Recognizer.final_cons, scanner_step, step_of_ne hc, Scan.next]
    by_cases hb : c = '['
    · subst hb
      rw [if_pos rfl]
      cases rest with
      | nil => rfl
      | cons d rest =>
        have hd : d ≠ '\x1b' := by simpa using htext.tail d List.mem_cons_self
        rw [Recognizer.final_cons, scanner_step, step_of_ne hd, Scan.next]
        by_cases hq : d = '?'
        · subst hq
          rw [if_pos rfl, final_param (by simp) htext.tail.tail]
          simp only [partialEscapeTail, List.nil_append, List.length_nil, Nat.zero_add]
          split_ifs <;> rfl
        · have hidle := htext.tail.tail.final_start
          rw [scanner_start] at hidle
          rw [if_neg hq, hidle]
          simp [partialEscapeTail, hq, Scan.text]
    · rw [if_neg hb, hidle]
      simp [partialEscapeTail, hb, Scan.text]

/-- The text up to the last `ESC`, if there is one. -/
theorem fromLastEscape_spec (text : List Char) :
    match fromLastEscape text with
    | none => scanner.Inert text
    | some tail => ∃ front rest, text = front ++ tail ∧ tail = '\x1b' :: rest ∧
        scanner.Inert rest := by
  induction text with
  | nil => exact fun c hc => by simp at hc
  | cons c rest ih =>
    rw [fromLastEscape]
    cases hlast : fromLastEscape rest with
    | some tail =>
      rw [hlast] at ih
      obtain ⟨front, tail', rfl, rfl, hinert⟩ := ih
      exact ⟨c :: front, tail', rfl, rfl, hinert⟩
    | none =>
      rw [hlast] at ih
      by_cases hc : c = '\x1b'
      · subst hc
        exact ⟨[], rest, rfl, rfl, ih⟩
      · simp only [if_neg hc]
        intro b hb
        rcases List.mem_cons.1 hb with rfl | hb
        · simpa using hc
        · exact ih b hb

/-- **The carry.** What `carryPartialEscape` keeps of a text is the switch that is open at
its end. -/
theorem carryPartialEscape_eq (text : List Char) : carryPartialEscape text = (scan text).text := by
  have hspec := fromLastEscape_spec text
  rw [carryPartialEscape]
  cases hlast : fromLastEscape text with
  | none =>
    rw [hlast] at hspec
    have hidle := hspec.final_start
    rw [scanner_start] at hidle
    rw [scan, hidle]
    rfl
  | some tail =>
    rw [hlast] at hspec
    obtain ⟨front, rest, rfl, rfl, hinert⟩ := hspec
    rw [scan, Recognizer.final_append, Recognizer.final_cons, scanner_step, step_escape]
    exact (text_final_escape hinert).symm

/-- An open switch has at most four digits. -/
def Scan.Valid : Scan → Prop
  | .param digits => scanner.Inert digits ∧ digits.all Char.isDigit = true ∧ digits.length ≤ 4
  | _ => True

theorem Scan.Valid.step {q : Scan} (hq : q.Valid) (c : Char) : (q.step c).1.Valid := by
  by_cases hc : c = '\x1b'
  · subst hc
    trivial
  · rw [step_of_ne hc]
    cases q with
    | idle => trivial
    | escape =>
      rw [Scan.next]
      split_ifs <;> trivial
    | bracket =>
      rw [Scan.next]
      split_ifs
      · exact ⟨fun c hc => by simp at hc, rfl, by simp⟩
      · trivial
    | param digits =>
      obtain ⟨hinert, hall, hlen⟩ := hq
      rw [Scan.next]
      split_ifs with hd
      · refine ⟨fun b hb => ?_, by simpa using ⟨by simpa using hall, hd.1⟩, by simp; omega⟩
        rcases List.mem_append.1 hb with hb | hb
        · exact hinert b hb
        · simpa [List.mem_singleton.1 hb] using hc
      · trivial
      · trivial
      · trivial

theorem valid_final {q : Scan} (hq : q.Valid) (text : List Char) :
    (scanner.final q text).Valid := by
  induction text generalizing q with
  | nil => exact hq
  | cons c rest ih => exact ih (hq.step c)

theorem valid_scan (text : List Char) : (scan text).Valid :=
  valid_final (q := .idle) trivial text

/-- The text of an open switch opens it and completes nothing. -/
theorem Scan.Valid.read_text {q : Scan} (hq : q.Valid) :
    scan q.text = q ∧ switches q.text = [] := by
  cases q with
  | idle => exact ⟨rfl, rfl⟩
  | escape => exact ⟨rfl, rfl⟩
  | bracket => exact ⟨rfl, rfl⟩
  | param digits =>
    obtain ⟨hinert, hall, hlen⟩ := hq
    constructor
    · have hf : scan (Scan.param digits).text = scanner.final (.param []) digits := rfl
      rw [hf, final_param (by simp) hinert, if_pos (by simp [hall, hlen]), List.nil_append]
    · have ho : switches (Scan.param digits).text = scanner.outputs (.param []) digits := rfl
      rw [ho, outputs_param]
      cases hclose : closing [] digits with
      | none => exact hinert.outputs_start
      | some m =>
        obtain ⟨sw, rest⟩ := m
        obtain ⟨more, hdigits, -, -, -⟩ := (closing_eq_some_iff (by simp)).1 hclose
        have hletter : (if sw.set then 'h' else 'l') ∈ digits := by
          rw [hdigits]
          simp
        have := List.all_eq_true.1 hall _ hletter
        cases hset : sw.set <;> rw [hset] at this <;> exact absurd this (by decide)

/-- What the carry of a text and a continuation complete is what the continuation
completes for a reader of the text. -/
theorem switches_carry_append (text data : List Char) :
    switches (carryPartialEscape text ++ data) = scanner.outputs (scan text) data := by
  obtain ⟨hscan, hnone⟩ := (valid_scan text).read_text
  rw [carryPartialEscape_eq, switches_append, hnone, hscan, List.nil_append]

/-- The carry and a continuation lead where the text and the continuation lead. -/
theorem scan_carry_append (text data : List Char) :
    scan (carryPartialEscape text ++ data) = scan (text ++ data) := by
  obtain ⟨hscan, -⟩ := (valid_scan text).read_text
  rw [carryPartialEscape_eq, scan_append, hscan, scan_append]

/-! ## Bytes -/

/-- A buffer, each byte as one character. -/
def bytesText (bytes : List UInt8) : List Char := bytes.map Char.ofUInt8

@[simp] theorem bytesText_append (v w : List UInt8) :
    bytesText (v ++ w) = bytesText v ++ bytesText w := List.map_append

theorem foreign_of_le {c : Char} (h : 128 ≤ c.toNat) : scanner.Foreign c := by
  have hne : ∀ d : Char, d.toNat < 128 → c ≠ d := fun d hd heq => by
    rw [heq] at h
    omega
  have hdigit : c.isDigit = false := by
    simp only [Char.isDigit, Bool.and_eq_false_iff, decide_eq_false_iff_not]
    right
    intro hle
    have : c.toNat ≤ 57 := hle
    omega
  intro q
  rw [scanner_step, step_of_ne (hne '\x1b' (by decide))]
  cases q with
  | idle => rfl
  | escape => rw [Scan.next, if_neg (hne '[' (by decide))]; rfl
  | bracket => rw [Scan.next, if_neg (hne '?' (by decide))]; rfl
  | param digits =>
    rw [Scan.next, if_neg (by simp [hdigit]), if_neg (hne 'h' (by decide)),
      if_neg (hne 'l' (by decide))]
    rfl

theorem toNat_ofUInt8 (b : UInt8) : (Char.ofUInt8 b).toNat = b.toNat := by
  show b.toUInt32.toNat = b.toNat
  exact UInt8.toNat_toUInt32 b

theorem foreign_byte {n : Nat} (h : 128 ≤ n) (hn : n < 256) :
    scanner.Foreign (Char.ofUInt8 (UInt8.ofNat n)) := by
  apply foreign_of_le
  rw [toNat_ofUInt8, UInt8.toNat_ofNat', Nat.mod_eq_of_lt hn]
  exact h

/-- UTF-8 spells the characters below 128 as themselves, and the others with bytes from 128
on. -/
theorem faithful_utf8 : scanner.Faithful fun c => bytesText (String.utf8EncodeChar c) := by
  intro c
  by_cases hc : c.toNat < 128
  · left
    have : String.utf8EncodeChar c = [UInt8.ofNat c.toNat] := by
      rw [String.utf8EncodeChar]
      exact if_pos (by change c.toNat ≤ 127; omega)
    change bytesText (String.utf8EncodeChar c) = [c]
    rw [this, bytesText, List.map_singleton]
    congr 1
    apply Char.toNat_inj.1
    rw [toNat_ofUInt8, UInt8.toNat_ofNat', Nat.mod_eq_of_lt (by omega)]
  · right
    refine ⟨foreign_of_le (by omega), by simp [bytesText, String.utf8EncodeChar_ne_nil], ?_⟩
    intro d hd
    obtain ⟨b, hb, rfl⟩ := List.mem_map.1 hd
    have hlow : ¬ c.val.toNat ≤ 127 := by
      change ¬ c.toNat ≤ 127
      omega
    rw [String.utf8EncodeChar] at hb
    simp only [if_neg hlow] at hb
    split_ifs at hb <;>
      · simp only [List.mem_cons, List.not_mem_nil, or_false] at hb
        rcases hb with rfl | rfl | rfl | rfl <;> apply foreign_byte <;> omega

theorem bytesText_utf8 (text : List Char) :
    bytesText (Text.utf8 text) = text.flatMap fun c => bytesText (String.utf8EncodeChar c) := by
  rw [bytesText, Text.utf8, List.map_flatMap]
  rfl

/-- **Bytes.** Who reads the bytes of a text sees the switches of the text. -/
theorem outputs_bytes (q : Scan) (text : List Char) :
    scanner.outputs q (bytesText (Text.utf8 text)) = scanner.outputs q text := by
  rw [bytesText_utf8]
  exact Recognizer.outputs_flatMap faithful_utf8 q text

theorem scan_bytes (text : List Char) : scan (bytesText (Text.utf8 text)) = scan text := by
  rw [bytesText_utf8]
  exact Recognizer.final_flatMap faithful_utf8 .idle text

end Terminal
end Mullion
