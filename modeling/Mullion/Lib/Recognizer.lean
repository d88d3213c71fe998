import Mathlib.Data.List.Infix

/-!
# Streaming recognisers

A recogniser reads a word one symbol at a time and now and then emits what it has just
recognised. What it looks for begins with an *opening* symbol: read in any state, such a
symbol abandons what was open and starts afresh; away from an open match, every other
symbol is skipped.

* `final` and `outputs` read a word from a state; both split along `++`.
* `outputs_start_suffix`: read from the start state, a word gives a suffix of what it
  gives from any state.
* `outputs_suffix_append`: cut off a front part of a word, and what is recognised in the
  rest and a continuation is a suffix of what the whole and the continuation give.
* `outputs_flatMap`: an encoding that spells the symbols the recogniser knows as
  themselves, and all others with symbols foreign to it, changes nothing.
-/

/-- A streaming recogniser of symbols `A` with states `Q` that emits values of `O`. -/
structure Recognizer (A O Q : Type*) where
  start : Q
  step : Q → A → Q × Option O
  opens : A → Bool
  step_opens : ∀ q a, opens a = true → step q a = step start a
  step_start : ∀ a, opens a = false → step start a = (start, none)

namespace Recognizer

variable {A O Q : Type*} (M : Recognizer A O Q)

/-- The state after a word. -/
def final : Q → List A → Q
  | q, [] => q
  | q, a :: w => final (M.step q a).1 w

/-- What a word makes the recogniser emit. -/
def outputs : Q → List A → List O
  | _, [] => []
  | q, a :: w => (M.step q a).2.toList ++ outputs (M.step q a).1 w

@[simp] theorem final_nil (q : Q) : M.final q [] = q := rfl

@[simp] theorem outputs_nil (q : Q) : M.outputs q [] = [] := rfl

theorem final_cons (q : Q) (a : A) (w : List A) :
    M.final q (a :: w) = M.final (M.step q a).1 w := rfl

theorem outputs_cons (q : Q) (a : A) (w : List A) :
    M.outputs q (a :: w) = (M.step q a).2.toList ++ M.outputs (M.step q a).1 w := rfl

@[simp] theorem final_append (q : Q) (v w : List A) :
    M.final q (v ++ w) = M.final (M.final q v) w := by
  induction v generalizing q with
  | nil => rfl
  | cons a v ih => exact ih _

@[simp] theorem outputs_append (q : Q) (v w : List A) :
    M.outputs q (v ++ w) = M.outputs q v ++ M.outputs (M.final q v) w := by
  induction v generalizing q with
  | nil => rfl
  | cons a v ih => rw [List.cons_append, outputs_cons, ih, outputs_cons, List.append_assoc,
      final_cons]

/-! ## Words without an opening symbol -/

/-- No symbol of the word opens a match. -/
def Inert (w : List A) : Prop := ∀ a ∈ w, M.opens a = false

variable {M}

theorem Inert.tail {a : A} {w : List A} (h : M.Inert (a :: w)) : M.Inert w :=
  fun b hb => h b (List.mem_cons_of_mem a hb)

theorem Inert.final_start {w : List A} (h : M.Inert w) : M.final M.start w = M.start := by
  induction w with
  | nil => rfl
  | cons a w ih =>
    rw [final_cons, M.step_start a (h a List.mem_cons_self)]
    exact ih h.tail

theorem Inert.outputs_start {w : List A} (h : M.Inert w) : M.outputs M.start w = [] := by
  induction w with
  | nil => rfl
  | cons a w ih =>
    rw [outputs_cons, M.step_start a (h a List.mem_cons_self)]
    exact ih h.tail

variable (M)

/-- A word either forgets the state it is read from or opens nothing. -/
theorem final_eq_or_inert (q : Q) (w : List A) :
    M.final q w = M.final M.start w ∨ M.Inert w := by
  induction w generalizing q with
  | nil => exact Or.inr fun a ha => by simp at ha
  | cons a w ih =>
    cases ha : M.opens a with
    | true =>
      left
      rw [final_cons, final_cons, M.step_opens q a ha]
    | false =>
      rw [final_cons, final_cons, M.step_start a ha]
      refine (ih (M.step q a).1).imp_right fun hw b hb => ?_
      rcases List.mem_cons.1 hb with rfl | hb
      · exact ha
      · exact hw b hb

/-- What a word gives from the start state is the end of what it gives from any state. -/
theorem outputs_start_suffix (q : Q) (w : List A) :
    M.outputs M.start w <:+ M.outputs q w := by
  induction w generalizing q with
  | nil => exact List.suffix_refl _
  | cons a w ih =>
    cases ha : M.opens a with
    | true =>
      rw [outputs_cons, outputs_cons, M.step_opens q a ha]
    | false =>
      rw [outputs_cons M M.start, M.step_start a ha]
      exact (ih _).trans (List.suffix_append _ _)

/-- Cutting off the front of a word loses only what was recognised first. -/
theorem outputs_suffix {v w : List A} (h : v <:+ w) :
    M.outputs M.start v <:+ M.outputs M.start w := by
  obtain ⟨u, rfl⟩ := h
  rw [outputs_append]
  exact (M.outputs_start_suffix _ v).trans (List.suffix_append _ _)

/-- **Cutting and going on.** Of a word `w` only the end `v` is left. What `v` and a
continuation give is the end of what `v` gives followed by what the continuation gives to
the reader of the whole of `w`. -/
theorem outputs_suffix_append {v w : List A} (h : v <:+ w) (d : List A) :
    M.outputs M.start (v ++ d) <:+
      M.outputs M.start v ++ M.outputs (M.final M.start w) d := by
  obtain ⟨u, rfl⟩ := h
  rw [outputs_append, final_append]
  rcases M.final_eq_or_inert (M.final M.start u) v with heq | hv
  · rw [heq]
  · -- nothing of `v` opens a match, so only the continuation counts
    rw [hv.outputs_start, hv.final_start, List.nil_append, List.nil_append]
    exact M.outputs_start_suffix _ d

/-! ## Encodings -/

/-- A symbol that closes whatever is open and opens nothing. -/
def Foreign (a : A) : Prop := ∀ q, M.step q a = (M.start, none)

variable {M}

theorem Foreign.read {w : List A} (h : ∀ a ∈ w, M.Foreign a) (hw : w ≠ []) (q : Q) :
    M.final q w = M.start ∧ M.outputs q w = [] := by
  induction w generalizing q with
  | nil => exact absurd rfl hw
  | cons a w ih =>
    rw [final_cons, outputs_cons, h a List.mem_cons_self q]
    cases w with
    | nil => exact ⟨rfl, rfl⟩
    | cons b w => exact ih (fun c hc => h c (List.mem_cons_of_mem a hc)) (by simp) M.start

variable {encode : A → List A}

/-- An encoding the recogniser does not notice: a symbol is spelled as itself, or it is
foreign and spelled with foreign symbols. -/
def Faithful (M : Recognizer A O Q) (encode : A → List A) : Prop :=
  ∀ a, encode a = [a] ∨ M.Foreign a ∧ encode a ≠ [] ∧ ∀ b ∈ encode a, M.Foreign b

theorem Faithful.read (h : M.Faithful encode) (q : Q) (a : A) :
    M.final q (encode a) = (M.step q a).1 ∧ M.outputs q (encode a) = (M.step q a).2.toList := by
  rcases h a with heq | ⟨ha, hne, hall⟩
  · rw [heq]
    simp [final, outputs]
  · obtain ⟨hf, ho⟩ := Foreign.read hall hne q
    rw [hf, ho, ha q]
    exact ⟨rfl, rfl⟩

theorem final_flatMap (h : M.Faithful encode) (q : Q) (w : List A) :
    M.final q (w.flatMap encode) = M.final q w := by
  induction w generalizing q with
  | nil => rfl
  | cons a w ih =>
    rw [List.flatMap_cons, final_append, (h.read q a).1, ih, final_cons]

/-- **Encodings.** A recogniser gives the same on a word and on its encoding. -/
theorem outputs_flatMap (h : M.Faithful encode) (q : Q) (w : List A) :
    M.outputs q (w.flatMap encode) = M.outputs q w := by
  induction w generalizing q with
  | nil => rfl
  | cons a w ih =>
    rw [List.flatMap_cons, outputs_append, (h.read q a).1, (h.read q a).2, ih, outputs_cons]

end Recognizer
