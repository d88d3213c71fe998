import Mathlib.Order.Basic

/-!
# Runs of a partial step function

A system here is a partial step function `step : S → L → Option S`: in state
`s` the label `a` is either impossible (`none`) or leads to one next state.
An interleaving of several parties is a list of labels, each naming the party
that moves, so a statement "for every interleaving" is a statement about every
list of labels.

* `play` runs a list of labels;
* `Along P` says that every state met on the way satisfies `P`;
* `AlongSteps Q` says that every step that was taken satisfies `Q`, a relation
  between the state before, the label and the state after;
* `Meets C` says that every step that was taken was taken in a state that
  meets `C`, a condition on the state before the step and the label.

The rules are `along_of_invariant` (an invariant kept by the steps that
meet `C` holds along every run whose steps meet `C`) and `along_iff_meets`
(when moreover a step outside `C` leaves `P` at once, `P` holds along a run
exactly when every step meets `C`) and `alongSteps_iff_meets`, the same for a
property of steps.
-/

namespace Run

variable {S L : Type*} (step : S → L → Option S)

/-- Play a list of labels from a state; `none` when one of them is impossible
where it is played. -/
def play : S → List L → Option S
  | s, [] => some s
  | s, a :: as =>
    match step s a with
    | none => none
    | some s' => play s' as

/-- Every state met while playing the labels, first and last included,
satisfies `P`. -/
def Along (P : S → Prop) : S → List L → Prop
  | s, [] => P s
  | s, a :: as => P s ∧
    match step s a with
    | none => True
    | some s' => Along P s' as

/-- Every step taken while playing the labels satisfies `Q`. -/
def AlongSteps (Q : S → L → S → Prop) : S → List L → Prop
  | _, [] => True
  | s, a :: as =>
    match step s a with
    | none => True
    | some s' => Q s a s' ∧ AlongSteps Q s' as

/-- Every step taken while playing the labels is taken in a state that meets
`C`. -/
def Meets (C : S → L → Prop) : S → List L → Prop
  | _, [] => True
  | s, a :: as =>
    match step s a with
    | none => True
    | some s' => C s a ∧ Meets C s' as

/-- A decidable condition can be checked along a run. -/
instance Meets.decidable (C : S → L → Prop) [∀ s a, Decidable (C s a)] :
    ∀ (s : S) (as : List L), Decidable (Meets step C s as)
  | _, [] => isTrue trivial
  | s, a :: as =>
    match h : step s a with
    | none => isTrue (by rw [Meets, h]; trivial)
    | some s' =>
      have := Meets.decidable C s' as
      decidable_of_iff (C s a ∧ Meets step C s' as) (by rw [Meets, h])

/-- A decidable property of steps can be checked along a run. -/
instance AlongSteps.decidable (Q : S → L → S → Prop) [∀ s a s', Decidable (Q s a s')] :
    ∀ (s : S) (as : List L), Decidable (AlongSteps step Q s as)
  | _, [] => isTrue trivial
  | s, a :: as =>
    match h : step s a with
    | none => isTrue (by rw [AlongSteps, h]; trivial)
    | some s' =>
      have := AlongSteps.decidable Q s' as
      decidable_of_iff (Q s a s' ∧ AlongSteps step Q s' as) (by rw [AlongSteps, h])

variable {step}

/-- A run that is played in two parts. -/
theorem play_append (s : S) (as bs : List L) :
    play step s (as ++ bs) = (play step s as).bind fun t => play step t bs := by
  induction as generalizing s with
  | nil => rfl
  | cons a as ih =>
    rw [List.cons_append, play, play]
    cases step s a with
    | none => rfl
    | some t => exact ih t

/-- What holds along a run holds where it starts. -/
theorem Along.head {P : S → Prop} {s : S} {as : List L} (h : Along step P s as) : P s := by
  cases as with
  | nil => exact h
  | cons a as => exact h.1

/-- What holds along a run holds where it ends. -/
theorem Along.last {P : S → Prop} {s s' : S} {as : List L} (h : Along step P s as)
    (hp : play step s as = some s') : P s' := by
  induction as generalizing s with
  | nil =>
    cases hp
    exact h
  | cons a as ih =>
    obtain ⟨-, h⟩ := h
    rw [play] at hp
    cases hs : step s a with
    | none => rw [hs] at hp; cases hp
    | some t =>
      rw [hs] at h hp
      exact ih h hp

/-- What follows from a property of every state holds along a run with it. -/
theorem Along.imp {P Q : S → Prop} (hPQ : ∀ s, P s → Q s) {s : S} {as : List L}
    (h : Along step P s as) : Along step Q s as := by
  induction as generalizing s with
  | nil => exact hPQ s h
  | cons a as ih =>
    obtain ⟨hP, h⟩ := h
    refine ⟨hPQ s hP, ?_⟩
    cases hs : step s a with
    | none => trivial
    | some t =>
      rw [hs] at h
      exact ih h

/-- What every step keeps holds at the end of a run. -/
theorem play_invariant {I : S → Prop} (keep : ∀ s a s', I s → step s a = some s' → I s')
    {s s' : S} {as : List L} (hI : I s) (hp : play step s as = some s') : I s' := by
  induction as generalizing s with
  | nil =>
    cases hp
    exact hI
  | cons a as ih =>
    rw [play] at hp
    cases hs : step s a with
    | none => rw [hs] at hp; cases hp
    | some t =>
      rw [hs] at hp
      exact ih (keep s a t hI hs) hp

/-- What all steps of a run satisfy, its last step satisfies. -/
theorem AlongSteps.last {Q : S → L → S → Prop} {s t t' : S} {as : List L} {a : L}
    (h : AlongSteps step Q s (as ++ [a])) (hp : play step s as = some t)
    (ha : step t a = some t') : Q t a t' := by
  induction as generalizing s with
  | nil =>
    cases hp
    rw [List.nil_append, AlongSteps, ha] at h
    exact h.1
  | cons b as ih =>
    rw [List.cons_append, AlongSteps] at h
    rw [play] at hp
    cases hs : step s b with
    | none => rw [hs] at hp; cases hp
    | some u =>
      rw [hs] at h hp
      exact ih h.2 hp

/-- **The invariant rule.** An invariant that every step meeting `C` keeps
holds in every state of a run whose steps all meet `C`. -/
theorem along_of_invariant {I P : S → Prop} {C : S → L → Prop}
    (keep : ∀ s a s', I s → C s a → step s a = some s' → I s') (good : ∀ s, I s → P s)
    {s : S} {as : List L} (hI : I s) (hC : Meets step C s as) : Along step P s as := by
  induction as generalizing s with
  | nil => exact good s hI
  | cons a as ih =>
    refine ⟨good s hI, ?_⟩
    rw [Meets] at hC
    cases hs : step s a with
    | none => trivial
    | some t =>
      rw [hs] at hC
      exact ih (keep s a t hI hC.1 hs) hC.2

/-- A condition that always holds is met by every run. -/
theorem Meets.of_forall {C : S → L → Prop} (h : ∀ s a, C s a) (s : S) (as : List L) :
    Meets step C s as := by
  induction as generalizing s with
  | nil => trivial
  | cons a as ih =>
    rw [Meets]
    cases step s a with
    | none => trivial
    | some t => exact ⟨h s a, ih t⟩

/-- One step that is taken and meets the condition. -/
theorem Meets.cons {C : S → L → Prop} {s s' : S} {a : L} {as : List L} (hs : step s a = some s')
    (hC : C s a) (h : Meets step C s' as) : Meets step C s (a :: as) := by
  rw [Meets, hs]
  exact ⟨hC, h⟩

/-- A condition that holds of every label played, in whatever state, is met. -/
theorem Meets.of_forall_mem {C : S → L → Prop} {as : List L} (h : ∀ a ∈ as, ∀ s, C s a) (s : S) :
    Meets step C s as := by
  induction as generalizing s with
  | nil => trivial
  | cons a as ih =>
    rw [Meets]
    cases step s a with
    | none => trivial
    | some t => exact ⟨h a List.mem_cons_self s, ih (fun b hb => h b (List.mem_cons_of_mem a hb)) t⟩

/-- If a step outside `C` leaves `P` at once, then a run along which `P` holds meets `C`. -/
theorem meets_of_along {P : S → Prop} {C : S → L → Prop}
    (bad : ∀ s a s', P s → ¬ C s a → step s a = some s' → ¬ P s')
    {s : S} {as : List L} (h : Along step P s as) : Meets step C s as := by
  induction as generalizing s with
  | nil => trivial
  | cons a as ih =>
    obtain ⟨hP, h⟩ := h
    rw [Meets]
    cases hs : step s a with
    | none => trivial
    | some t =>
      rw [hs] at h
      refine ⟨?_, ih h⟩
      by_contra hn
      exact bad s a t hP hn hs h.head

/-- **The exactness rule.** If steps meeting `C` keep the invariant and a step
outside `C` leaves `P` at once, then `P` holds along a run exactly when every
step of the run meets `C`. -/
theorem along_iff_meets {I P : S → Prop} {C : S → L → Prop}
    (keep : ∀ s a s', I s → C s a → step s a = some s' → I s') (good : ∀ s, I s → P s)
    (bad : ∀ s a s', I s → ¬ C s a → step s a = some s' → ¬ P s')
    {s : S} {as : List L} (hI : I s) : Along step P s as ↔ Meets step C s as := by
  refine ⟨fun h => ?_, along_of_invariant keep good hI⟩
  induction as generalizing s with
  | nil => trivial
  | cons a as ih =>
    obtain ⟨-, h⟩ := h
    rw [Meets]
    cases hs : step s a with
    | none => trivial
    | some t =>
      rw [hs] at h
      have hC : C s a := by
        by_contra hn
        exact bad s a t hI hn hs h.head
      exact ⟨hC, ih (keep s a t hI hC hs) h⟩

/-- **The exactness rule for steps.** If steps meeting `C` keep the invariant and,
under it, a step satisfies `Q` exactly when it meets `C`, then all steps of a run
satisfy `Q` exactly when all of them meet `C`. -/
theorem alongSteps_iff_meets {I : S → Prop} {Q : S → L → S → Prop} {C : S → L → Prop}
    (keep : ∀ s a s', I s → C s a → step s a = some s' → I s')
    (exact_step : ∀ s a s', I s → step s a = some s' → (Q s a s' ↔ C s a))
    {s : S} {as : List L} (hI : I s) : AlongSteps step Q s as ↔ Meets step C s as := by
  induction as generalizing s with
  | nil => exact Iff.rfl
  | cons a as ih =>
    rw [AlongSteps, Meets]
    cases hs : step s a with
    | none => exact Iff.rfl
    | some t =>
      have hQC := exact_step s a t hI hs
      constructor
      · rintro ⟨hQ, h⟩
        exact ⟨hQC.1 hQ, (ih (keep s a t hI (hQC.1 hQ) hs)).1 h⟩
      · rintro ⟨hC, h⟩
        exact ⟨hQC.2 hC, (ih (keep s a t hI hC hs)).2 h⟩

/-- The same when the invariant is kept by the steps that meet another condition `D`, which
all steps of the run meet. -/
theorem alongSteps_iff_meets_of_meets {I : S → Prop} {Q : S → L → S → Prop} {C D : S → L → Prop}
    (keep : ∀ s a s', I s → D s a → step s a = some s' → I s')
    (exact_step : ∀ s a s', I s → step s a = some s' → (Q s a s' ↔ C s a))
    {s : S} {as : List L} (hI : I s) (hD : Meets step D s as) :
    AlongSteps step Q s as ↔ Meets step C s as := by
  induction as generalizing s with
  | nil => exact Iff.rfl
  | cons a as ih =>
    rw [Meets] at hD
    rw [AlongSteps, Meets]
    cases hs : step s a with
    | none => exact Iff.rfl
    | some t =>
      rw [hs] at hD
      exact and_congr (exact_step s a t hI hs) (ih (keep s a t hI hD.1 hs) hD.2)

/-- A property of every step. -/
theorem AlongSteps.of_forall {Q : S → L → S → Prop}
    (h : ∀ s a s', step s a = some s' → Q s a s') (s : S) (as : List L) :
    AlongSteps step Q s as := by
  induction as generalizing s with
  | nil => trivial
  | cons a as ih =>
    rw [AlongSteps]
    cases hs : step s a with
    | none => trivial
    | some t => exact ⟨h s a t hs, ih t⟩

end Run
