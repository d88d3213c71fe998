import Mullion.Lib.Utf8
import Mullion.Terminal.Strip

/-!
# Waiting for output

`output-wait.ts` waits until a child prints a text: it looks at what was printed a while after
output has come, and gives up after a time, when the child is gone, or when it is told to. The `Law`
of such a wait: it settles once and then holds nothing, what it reports is what was printed, and it
does not report a timeout or an exit while the text is there.

A wait is `Waiting` or `Settled`. While it is waiting, its window holds the end of what was printed
and the text does not lie in the part that was looked at; once it has settled, no event changes it.
Each handler keeps this, event by event (`Waiting.step`, `Settled.step`), but for two. A timeout can
come with output that nobody looked at (`Misses`), and an exit while a look is still to come
(`Leaks`). Such a step breaks the law at once (`law_step`), so a run obeys the law exactly if none
of its steps is one (`law_iff`). `late_is_missed` is a text that comes just before the time is up.
-/

namespace Mullion
namespace OutputWait

/-- A string of the language, by its UTF-16 code units. -/
abbrev Utf16 := List Nat

/-! ## What is looked for -/

/-- `MAX_MATCH_LENGTH`. -/
def maxMatchLength : Nat := 256

/-- `OUTPUT_WINDOW_CHARS`. -/
def outputWindowChars : Nat := 16 * 1024

/-- `RAW_WINDOW_BYTES`. -/
def rawWindowBytes : Nat := 64 * 1024

/-- `CHECK_DEBOUNCE_MS`. -/
def checkDebounceMs : Nat := 100

/-- `ALIVE_TICK_MS`. -/
def aliveTickMs : Nat := 1000

/-- A matcher without `regex`, as `compileOutputMatcher` makes it. -/
structure Literal where
  text : Utf16
  ne_nil : text ≠ []
  short : text.length ≤ maxMatchLength

/-- `text.indexOf(sought)`. -/
def indexOf (sought : Utf16) : Utf16 → Option Nat
  | [] => if sought = [] then some 0 else none
  | c :: rest =>
    if sought.isPrefixOf (c :: rest) then some 0 else (indexOf sought rest).map (· + 1)

/-- `find`: where the match stands. -/
def Literal.find (m : Literal) (text : Utf16) : Option Nat := indexOf m.text text

def lf : Nat := 10

def cr : Nat := 13

/-- The line around a match. -/
def lineAround (text : Utf16) (index length : Nat) : Utf16 :=
  let upTo := text.take (index + 1)
  let lineStart := upTo.length - (upTo.reverse.takeWhile (· ≠ lf)).length
  let lineEnd := index + length + ((text.drop (index + length)).takeWhile (· ≠ lf)).length
  ((text.take lineEnd).drop lineStart).filter (· ≠ cr)

/-- What a terminal shows of these bytes. -/
def shown (bytes : List UInt8) : Utf16 :=
  (Terminal.Strip.stripTerminalEscapes (Utf8.decode bytes)).flatMap Text.codeUnits

/-! ## The wait -/

/-- `OutputWaitResult`. -/
inductive Result
  | matched (text line : Utf16)
  | timedOut
  | gone
  | aborted
  deriving DecidableEq, Repr

/-- A wait. An armed timer has the time it is due at; `received` are the seed and all chunks;
`results` are those the promise was resolved with. -/
structure Wait where
  now : Nat
  timeout : Option Nat
  aliveTick : Option Nat
  checks : List (Nat × Nat)
  nextCheck : Nat
  checkTimer : Option Nat
  listening : Bool
  onAbort : Bool
  settled : Bool
  raw : List UInt8
  received : List UInt8
  results : List Result
  deriving DecidableEq, Repr

/-- The last bytes that are kept. -/
def window (bytes : List UInt8) : List UInt8 := bytes.drop (bytes.length - rawWindowBytes)

namespace Wait

variable (m : Literal) (w : Wait)

/-- `settle`. -/
def settle (result : Result) : Wait :=
  if w.settled then w
  else { w with
    settled := true
    timeout := none
    aliveTick := none
    checks := w.checks.filter fun check => w.checkTimer ≠ some check.1
    listening := false
    onAbort := false
    results := w.results ++ [result] }

/-- The text that is matched. -/
def text : Utf16 :=
  let text := shown w.raw
  text.drop (text.length - outputWindowChars)

/-- `check`. -/
def check : Wait :=
  let w := { w with checkTimer := none }
  if w.settled then w
  else match m.find w.text with
    | none => w
    | some index => w.settle (.matched m.text (lineAround w.text index m.text.length))

/-- The listener of `onData`. -/
def onData (chunk : List UInt8) : Wait :=
  let w := { w with raw := window (w.raw ++ chunk), received := w.received ++ chunk }
  match w.checkTimer with
  | some _ => w
  | none => { w with
      checkTimer := some w.nextCheck
      nextCheck := w.nextCheck + 1
      checks := w.checks ++ [(w.nextCheck, w.now + checkDebounceMs)] }

/-- What `aliveTick` does. -/
def onAliveTick (alive : Bool) : Wait :=
  if alive then w else (w.check m).settle .gone

end Wait

/-- `waitForOutput` up to its first pause. The signal, if there is one, may already be aborted. -/
def start (m : Literal) (timeoutMs : Nat) (seed : List UInt8) (signal : Option Bool) : Wait :=
  let w : Wait :=
    ⟨0, some timeoutMs, some aliveTickMs, [], 0, none, true, false, false, window seed, seed, []⟩
  if signal = some true then w.settle .aborted
  else
    let w := { w with onAbort := signal.isSome }
    if w.raw ≠ [] then w.check m else w

/-- What happens: time passes, the child prints, a timer fires, the signal aborts. -/
inductive Event
  | pass (ms : Nat)
  | output (chunk : List UInt8)
  | timeout
  | aliveTick (alive : Bool)
  | check (id : Nat)
  | abort
  deriving DecidableEq, Repr

/-- An armed timer that is due. -/
def due (now : Nat) (timer : Option Nat) : Prop := ∃ time ∈ timer, time ≤ now

instance (now : Nat) (timer : Option Nat) : Decidable (due now timer) :=
  inferInstanceAs (Decidable (∃ time ∈ timer, time ≤ now))

/-- One event. A timer fires if it is armed and due, and the interval is armed again. -/
def step (m : Literal) (w : Wait) : Event → Wait
  | .pass ms => { w with now := w.now + ms }
  | .output chunk => if w.listening then w.onData chunk else w
  | .timeout =>
    if due w.now w.timeout then { w with timeout := none }.settle .timedOut else w
  | .aliveTick alive =>
    if due w.now w.aliveTick then
      { w with aliveTick := some (w.now + aliveTickMs) }.onAliveTick m alive
    else w
  | .check id =>
    if ∃ timer ∈ w.checks, timer.1 = id ∧ timer.2 ≤ w.now then
      { w with checks := w.checks.filter fun timer => timer.1 ≠ id }.check m
    else w
  | .abort => if w.onAbort then { w with onAbort := false }.settle .aborted else w

/-- Events one after the other. -/
def run (m : Literal) (w : Wait) (events : List Event) : Wait := events.foldl (step m) w

/-! ## The law -/

/-- The match is in what was printed. -/
def Printed (m : Literal) (w : Wait) : Prop := m.text <:+: shown w.received

/-- What was printed is within the limits. -/
def Within (w : Wait) : Prop :=
  w.received.length ≤ rawWindowBytes ∧ (shown w.received).length ≤ outputWindowChars

/-- What holds of a wait at any moment: it will be settled by its timeout or was settled once; once
settled, it holds no timer, no listener and no handler; it reports a miss only if the match was not
printed, and a match only if it was. -/
structure Law (m : Literal) (timeoutMs : Nat) (w : Wait) : Prop where
  once : (w.results = [] ∧ w.timeout = some timeoutMs) ∨ ∃ r, w.results = [r]
  released : w.results ≠ [] →
    w.timeout = none ∧ w.aliveTick = none ∧ w.checks = [] ∧ w.listening = false ∧ w.onAbort = false
  missed : .timedOut ∈ w.results ∨ .gone ∈ w.results → ¬ Printed m w
  matched : ∀ text line, .matched text line ∈ w.results → Printed m w

instance (w : Wait) : Decidable (Within w) := inferInstanceAs (Decidable (_ ∧ _))

/-- The time is up, and the match is in output that nobody looked at yet. -/
def Misses (m : Literal) (w : Wait) (e : Event) : Prop :=
  e = .timeout ∧ due w.now w.timeout ∧ w.checkTimer ≠ none ∧ Printed m w

/-- The child is found gone while a look at its output is still to come. -/
def Leaks (w : Wait) (e : Event) : Prop :=
  e = .aliveTick false ∧ due w.now w.aliveTick ∧ w.checkTimer ≠ none

/-! ## Looking -/

theorem indexOf_eq_none_iff {sought : Utf16} (text : Utf16) :
    indexOf sought text = none ↔ ¬ sought <:+: text := by
  induction text with
  | nil =>
    by_cases h : sought = []
    · simp [indexOf, h]
    · simp [indexOf, h]
  | cons c rest ih =>
    rw [indexOf, List.infix_cons_iff, not_or]
    by_cases h : sought.isPrefixOf (c :: rest)
    · rw [if_pos h]
      simp [List.isPrefixOf_iff_prefix.1 h]
    · rw [if_neg h, Option.map_eq_none_iff, ih]
      have : ¬ sought <+: c :: rest := fun hfix => h (List.isPrefixOf_iff_prefix.2 hfix)
      simp [this]

theorem window_append (bytes chunk : List UInt8) :
    window (window bytes ++ chunk) = window (bytes ++ chunk) := by
  unfold window
  generalize rawWindowBytes = limit
  have hsum : bytes.length - limit + ((bytes.drop (bytes.length - limit) ++ chunk).length - limit) =
      (bytes ++ chunk).length - limit := by
    simp only [List.length_append, List.length_drop]
    omega
  rw [← hsum, ← List.drop_drop, List.drop_append_of_le_length (Nat.sub_le _ _)]

/-- Within the limits, all that was printed is matched. -/
theorem text_of_within {w : Wait} (hraw : w.raw = window w.received) (h : Within w) :
    w.text = shown w.received := by
  have hwindow : window w.received = w.received := by
    rw [window, Nat.sub_eq_zero_of_le h.1, List.drop_zero]
  rw [Wait.text, hraw, hwindow, Nat.sub_eq_zero_of_le h.2, List.drop_zero]

/-! ## A wait is waiting or settled -/

/-- It waits: output that nobody looked at has a look armed. -/
structure Waiting (m : Literal) (timeoutMs : Nat) (w : Wait) : Prop where
  settled : w.settled = false
  results : w.results = []
  timeout : w.timeout = some timeoutMs
  listening : w.listening = true
  raw : w.raw = window w.received
  looked : w.checkTimer = none → w.checks = [] ∧ m.find w.text = none
  armed : ∀ id ∈ w.checkTimer, ∃ time, w.checks = [(id, time)]

/-- It was settled, and holds nothing. -/
structure Settled (m : Literal) (w : Wait) : Prop where
  settled : w.settled = true
  results : ∃ r, w.results = [r] ∧ (r = .timedOut ∨ r = .gone → ¬ Printed m w) ∧
    ∀ text line, r = .matched text line → Printed m w
  timeout : w.timeout = none
  aliveTick : w.aliveTick = none
  checks : w.checks = []
  listening : w.listening = false
  onAbort : w.onAbort = false

-- otherwise the limits are unfolded to numerals when states are compared
attribute [local irreducible] window

variable {m : Literal} {timeoutMs : Nat} {w : Wait} {e : Event}

theorem Waiting.law (h : Waiting m timeoutMs w) : Law m timeoutMs w where
  once := .inl ⟨h.results, h.timeout⟩
  released hne := absurd h.results hne
  missed hmem := by simp [h.results] at hmem
  matched text line hmem := by simp [h.results] at hmem

theorem Settled.law (h : Settled m w) : Law m timeoutMs w := by
  obtain ⟨r, hr, hmissed, hmatched⟩ := h.results
  refine ⟨.inr ⟨r, hr⟩, fun _ => ⟨h.timeout, h.aliveTick, h.checks, h.listening, h.onAbort⟩,
    fun hmem => hmissed ?_, fun text line hmem => hmatched text line ?_⟩
  · simpa [hr, eq_comm] using hmem
  · simpa [hr, eq_comm] using hmem

/-- Settling clears the timer that is known. -/
theorem settled_settle {r : Result} (hsettled : w.settled = false) (hresults : w.results = [])
    (hchecks : ∀ check ∈ w.checks, w.checkTimer = some check.1)
    (hmissed : r = .timedOut ∨ r = .gone → ¬ Printed m w)
    (hmatched : ∀ text line, r = .matched text line → Printed m w) :
    Settled m (w.settle r) := by
  rw [Wait.settle, if_neg (by simp [hsettled])]
  refine ⟨rfl, ⟨r, by simp [hresults], hmissed, hmatched⟩, rfl, rfl, ?_, rfl, rfl⟩
  rw [List.filter_eq_nil_iff]
  intro check hmem
  simpa using hchecks check hmem

theorem settle_of_settled {r : Result} (h : Settled m w) : w.settle r = w := by
  rw [Wait.settle, if_pos h.settled]

theorem find_eq_none_iff (hraw : w.raw = window w.received) (h : Within w) :
    m.find w.text = none ↔ ¬ Printed m w := by
  rw [Literal.find, indexOf_eq_none_iff, text_of_within hraw h, Printed]

/-- A look that no other look is to follow. -/
theorem check_spec (hsettled : w.settled = false) (hresults : w.results = [])
    (htimeout : w.timeout = some timeoutMs) (hlistening : w.listening = true)
    (hraw : w.raw = window w.received) (hchecks : w.checks = []) (hwithin : Within w) :
    Waiting m timeoutMs (w.check m) ∧ (w.check m).checks = [] ∧ ¬ Printed m (w.check m) ∨
      Settled m (w.check m) := by
  rw [Wait.check]
  simp only
  rw [if_neg (by simp [hsettled])]
  cases hfind : m.find { w with checkTimer := none }.text with
  | none =>
    exact .inl ⟨⟨hsettled, hresults, htimeout, hlistening, hraw, fun _ => ⟨hchecks, hfind⟩,
      by simp⟩, hchecks, (find_eq_none_iff hraw hwithin).1 hfind⟩
  | some index =>
    refine .inr (settled_settle hsettled hresults (by simp [hchecks]) (by simp) fun _ _ _ => ?_)
    by_contra hprinted
    exact absurd (((find_eq_none_iff hraw hwithin).2 hprinted).symm.trans hfind) (by simp)

/-! ## One event -/

theorem Waiting.onData (h : Waiting m timeoutMs w) (chunk : List UInt8) :
    Waiting m timeoutMs (w.onData chunk) := by
  have hraw : window (w.raw ++ chunk) = window (w.received ++ chunk) := by
    rw [h.raw, window_append]
  cases hcheck : w.checkTimer with
  | none =>
    have hdata : w.onData chunk = { w with
        raw := window (w.raw ++ chunk)
        received := w.received ++ chunk
        checkTimer := some w.nextCheck
        nextCheck := w.nextCheck + 1
        checks := w.checks ++ [(w.nextCheck, w.now + checkDebounceMs)] } := by
      simp only [Wait.onData, hcheck]
    rw [hdata]
    refine ⟨h.settled, h.results, h.timeout, h.listening, hraw, nofun, fun id hid => ?_⟩
    obtain rfl : w.nextCheck = id := Option.some.inj hid
    refine ⟨w.now + checkDebounceMs, ?_⟩
    simp only [(h.looked hcheck).1, List.nil_append]
  | some id =>
    have hdata : w.onData chunk = { w with
        raw := window (w.raw ++ chunk)
        received := w.received ++ chunk } := by
      simp only [Wait.onData, hcheck]
    rw [hdata]
    refine ⟨h.settled, h.results, h.timeout, h.listening, hraw, fun hnone => ?_, h.armed⟩
    rw [hcheck] at hnone
    cases hnone

theorem Waiting.step (h : Waiting m timeoutMs w) (hwithin : Within w) (hmiss : ¬ Misses m w e)
    (hleak : ¬ Leaks w e) :
    Waiting m timeoutMs (step m w e) ∨ Settled m (step m w e) := by
  have hchecks : ∀ check ∈ w.checks, w.checkTimer = some check.1 := by
    intro check hmem
    cases hcheck : w.checkTimer with
    | none => simp [(h.looked hcheck).1] at hmem
    | some id =>
      obtain ⟨time, htime⟩ := h.armed id hcheck
      rw [htime, List.mem_singleton] at hmem
      rw [hmem]
  cases e with
  | pass ms => exact .inl { h with }
  | output chunk =>
    left
    rw [OutputWait.step, if_pos h.listening]
    exact h.onData chunk
  | timeout =>
    rw [OutputWait.step]
    split
    · next hdue =>
      refine .inr (settled_settle h.settled h.results hchecks (fun _ hprinted => ?_) (by simp))
      cases hcheck : w.checkTimer with
      | none => exact (find_eq_none_iff h.raw hwithin).1 (h.looked hcheck).2 hprinted
      | some id => exact hmiss ⟨rfl, hdue, by simp [hcheck], hprinted⟩
    · exact .inl h
  | aliveTick alive =>
    rw [OutputWait.step]
    split
    · next hdue =>
      cases alive with
      | true => exact .inl { h with }
      | false =>
        have hnone : w.checkTimer = none := by
          by_contra hcheck
          exact hleak ⟨rfl, hdue, hcheck⟩
        rw [Wait.onAliveTick, if_neg Bool.false_ne_true]
        right
        have hlook : Waiting m timeoutMs
            ({ w with aliveTick := some (w.now + aliveTickMs) }.check m) ∧ _ ∧ _ ∨ _ :=
          check_spec h.settled h.results h.timeout h.listening h.raw (h.looked hnone).1 hwithin
        rcases hlook with ⟨hwaiting, hchecks, hprinted⟩ | hsettled
        · exact settled_settle hwaiting.settled hwaiting.results (by simp [hchecks])
            (fun _ => hprinted) (by simp)
        · rwa [settle_of_settled hsettled]
    · exact .inl h
  | check id =>
    rw [OutputWait.step]
    split
    · next hdue =>
      obtain ⟨timer, hmem, rfl, -⟩ := hdue
      obtain ⟨time, htime⟩ := h.armed timer.1 (hchecks timer hmem)
      have hlook : Waiting m timeoutMs
          ({ w with checks := w.checks.filter fun other => other.1 ≠ timer.1 }.check m) ∧ _ ∧ _ ∨
            _ :=
        check_spec h.settled h.results h.timeout h.listening h.raw (by simp [htime]) hwithin
      rcases hlook with ⟨hwaiting, -, -⟩ | hsettled
      · exact .inl hwaiting
      · exact .inr hsettled
    · exact .inl h
  | abort =>
    rw [OutputWait.step]
    split
    · exact .inr (settled_settle h.settled h.results hchecks (by simp) (by simp))
    · exact .inl h

theorem Settled.step (h : Settled m w) : Settled m (step m w e) := by
  cases e with
  | pass ms => exact { h with }
  | output chunk => rwa [OutputWait.step, if_neg (by simp [h.listening])]
  | timeout => rwa [OutputWait.step, if_neg (by simp [due, h.timeout])]
  | aliveTick alive => rwa [OutputWait.step, if_neg (by simp [due, h.aliveTick])]
  | check id => rwa [OutputWait.step, if_neg (by simp [h.checks])]
  | abort => rwa [OutputWait.step, if_neg (by simp [h.onAbort])]

theorem received_settle (r : Result) : (w.settle r).received = w.received := by
  rw [Wait.settle]
  split <;> rfl

theorem received_check : (w.check m).received = w.received := by
  rw [Wait.check]
  simp only
  split
  · rfl
  · split
    · rfl
    · exact received_settle _

/-- The last look forgets the timer of the one that was to come, and settling does not clear it. -/
theorem onAliveTick_gone (h : w.settled = false) :
    (w.onAliveTick m false).checks = w.checks ∧ (w.onAliveTick m false).results ≠ [] := by
  rw [Wait.onAliveTick, if_neg Bool.false_ne_true, Wait.check]
  simp only
  rw [if_neg (by simp [h])]
  cases hfind : m.find { w with checkTimer := none }.text with
  | none => simp [Wait.settle, h]
  | some index => simp [Wait.settle, h]

theorem start_spec (m : Literal) (timeoutMs : Nat) (seed : List UInt8) (signal : Option Bool)
    (hwithin : Within (start m timeoutMs seed signal)) :
    Waiting m timeoutMs (start m timeoutMs seed signal) ∨
      Settled m (start m timeoutMs seed signal) := by
  have hreceived : (start m timeoutMs seed signal).received = seed := by
    rw [start]
    simp only
    split
    · rfl
    · split
      · rw [received_check]
      · rfl
  have hseed : seed.length ≤ rawWindowBytes ∧ (shown seed).length ≤ outputWindowChars := by
    rwa [Within, hreceived] at hwithin
  have hstart : ∀ w : Wait, w.received = seed → Within w := by
    rintro w rfl
    exact hseed
  rw [start]
  simp only
  split
  · exact .inr (settled_settle rfl rfl (by simp) (by simp) (by simp))
  · split
    · exact Or.imp_left And.left (check_spec rfl rfl rfl rfl rfl rfl (hstart _ rfl))
    · next hraw =>
      refine .inl ⟨rfl, rfl, rfl, rfl, rfl, fun _ => ⟨rfl, ?_⟩, nofun⟩
      refine (find_eq_none_iff rfl (hstart _ rfl)).2 ?_
      rw [Printed]
      have hwindow : window seed = seed := by
        unfold window
        rw [Nat.sub_eq_zero_of_le hseed.1, List.drop_zero]
      have hnil : seed = [] := hwindow.symm.trans (not_not.1 hraw)
      intro hprinted
      have hshown : shown seed = [] := by
        rw [hnil]
        rfl
      rw [hshown, List.infix_nil] at hprinted
      exact m.ne_nil hprinted

/-- A step that misses or leaks breaks the law. -/
theorem law_step (h : Waiting m timeoutMs w ∨ Settled m w) (hlaw : Law m timeoutMs (step m w e)) :
    ¬ Misses m w e ∧ ¬ Leaks w e := by
  rcases h with h | h
  · constructor
    · rintro ⟨rfl, hdue, -, hprinted⟩
      rw [OutputWait.step, if_pos hdue, Wait.settle, if_neg (by simp [h.settled])] at hlaw
      exact hlaw.missed (.inl (by simp)) hprinted
    · rintro ⟨rfl, hdue, hcheck⟩
      obtain ⟨id, hid⟩ := Option.ne_none_iff_exists'.1 hcheck
      obtain ⟨time, htime⟩ := h.armed id hid
      rw [OutputWait.step, if_pos hdue] at hlaw
      have hgone := onAliveTick_gone (m := m)
        (w := { w with aliveTick := some (w.now + aliveTickMs) }) h.settled
      have hreleased := (hlaw.released hgone.2).2.2.1
      rw [hgone.1] at hreleased
      simp only [htime] at hreleased
      cases hreleased
  · constructor
    · rintro ⟨rfl, hdue, -⟩
      simp [due, h.timeout] at hdue
    · rintro ⟨rfl, hdue, -⟩
      simp [due, h.aliveTick] at hdue

/-! ## Runs -/

theorem run_concat (m : Literal) (w : Wait) (front : List Event) (e : Event) :
    run m w (front ++ [e]) = step m (run m w front) e := by
  rw [run, List.foldl_append]
  rfl

/-- Up to the first step that misses or leaks, a wait is waiting or settled. -/
theorem run_spec {m : Literal} {timeoutMs : Nat} {seed : List UInt8} {signal : Option Bool}
    {events : List Event}
    (hwithin : ∀ front, front <+: events → Within (run m (start m timeoutMs seed signal) front))
    (hsteps : ∀ front e, front ++ [e] <+: events →
      (Waiting m timeoutMs (run m (start m timeoutMs seed signal) front) ∨
        Settled m (run m (start m timeoutMs seed signal) front)) →
      ¬ Misses m (run m (start m timeoutMs seed signal) front) e ∧
        ¬ Leaks (run m (start m timeoutMs seed signal) front) e)
    {front : List Event} (hfront : front <+: events) :
    Waiting m timeoutMs (run m (start m timeoutMs seed signal) front) ∨
      Settled m (run m (start m timeoutMs seed signal) front) := by
  induction front using List.reverseRecOn with
  | nil => exact start_spec m timeoutMs seed signal (hwithin [] (List.nil_prefix))
  | append_singleton front e ih =>
    have hbefore : front <+: events := (List.prefix_append front [e]).trans hfront
    have hinv := ih hbefore
    obtain ⟨hmiss, hleak⟩ := hsteps front e hfront hinv
    rw [run_concat]
    rcases hinv with h | h
    · exact h.step (hwithin front hbefore) hmiss hleak
    · exact .inr h.step

/-- **The law of a wait.** For a literal match, every seed and every order of output, timers, exit
and abort within the limits of the window: the law holds at every moment of a run exactly if no
timeout fires with the match in output that nobody looked at, and no exit is found while a look at
the output is armed. -/
theorem law_iff (m : Literal) (timeoutMs : Nat) (seed : List UInt8) (signal : Option Bool)
    (events : List Event)
    (hwithin : ∀ front, front <+: events → Within (run m (start m timeoutMs seed signal) front)) :
    (∀ front, front <+: events → Law m timeoutMs (run m (start m timeoutMs seed signal) front)) ↔
      ∀ front e, front ++ [e] <+: events →
        ¬ Misses m (run m (start m timeoutMs seed signal) front) e ∧
          ¬ Leaks (run m (start m timeoutMs seed signal) front) e := by
  constructor
  · intro hlaw front e hfront
    have hbefore : front <+: events := (List.prefix_append front [e]).trans hfront
    have hsteps := fun front e (hfront : front ++ [e] <+: events) h =>
      law_step h (run_concat m _ front e ▸ hlaw (front ++ [e]) hfront)
    exact hsteps front e hfront (run_spec hwithin hsteps hbefore)
  · intro hsteps front hfront
    rcases run_spec hwithin (fun front e h _ => hsteps front e h) hfront with h | h
    · exact h.law
    · exact h.law

/-- The text `ok`. -/
def ok : Literal := ⟨[111, 107], by decide, by decide⟩

/-- Output that is looked at before the time is up. -/
def early : List Event := [.pass 20, .output [111, 107], .pass 100, .check 0]

/-- Output fifty milliseconds before the time is up. -/
def late : List Event := [.pass 100, .output [111, 107], .pass 50, .timeout]

theorem law_iff_early : Law ok 150 (run ok (start ok 150 [] none) early) := by
  refine (law_iff ok 150 [] none early ?_).2 ?_ early (List.prefix_refl early)
  · intro front hfront
    have hall : ∀ front ∈ early.inits, Within (run ok (start ok 150 [] none) front) := by
      decide +kernel
    exact hall front ((List.mem_inits _ _).2 hfront)
  · intro front e hfront
    have hmem : e ∈ early := hfront.subset (by simp)
    constructor
    · rintro ⟨rfl, -⟩
      simp [early] at hmem
    · rintro ⟨rfl, -⟩
      simp [early] at hmem

theorem late_is_missed :
    ¬ ∀ (m : Literal) (timeoutMs : Nat) (seed : List UInt8) (signal : Option Bool)
      (events : List Event),
      (∀ front, front <+: events → Within (run m (start m timeoutMs seed signal) front)) →
        ∀ front, front <+: events →
          Law m timeoutMs (run m (start m timeoutMs seed signal) front) := by
  intro h
  have hall : ∀ front ∈ late.inits, Within (run ok (start ok 150 [] none) front) := by
    decide +kernel
  have hlaw := h ok 150 [] none late (fun front hfront =>
    hall front ((List.mem_inits _ _).2 hfront)) late (List.prefix_refl late)
  have hresults : (run ok (start ok 150 [] none) late).results = [.timedOut] := by decide +kernel
  have hshown : shown (run ok (start ok 150 [] none) late).received = [111, 107] := by
    decide +kernel
  refine hlaw.missed (.inl (by simp [hresults])) ?_
  rw [Printed, hshown]
  exact List.infix_refl _

end OutputWait
end Mullion
