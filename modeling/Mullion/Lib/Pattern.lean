import Mathlib.Data.List.Forall2
import Mathlib.Data.Nat.Basic

/-!
# Patterns of character classes

A pattern is a sequence of pieces, each a run of at least `min` and at most `max` symbols of a
class, as in `^[a-f]{2}:[0-9]{1,3}$`. Matching tries the longest run first and backs up.

* `split` matches a whole text and gives the text of every piece;
* `test` matches a beginning of a text;
* `Determined`: a text has at most one decomposition, which `split` then finds
  (`split_eq_some_iff`).
-/

namespace Pattern

variable {α : Type*}

/-- A run of symbols of a class. -/
structure Piece (α : Type*) where
  ok : α → Bool
  min : ℕ
  max : ℕ

/-- One symbol of a class. -/
def one (ok : α → Bool) : Piece α := ⟨ok, 1, 1⟩

/-- The text fits the piece. -/
def Piece.Fits (p : Piece α) (text : List α) : Prop :=
  p.min ≤ text.length ∧ text.length ≤ p.max ∧ ∀ c ∈ text, p.ok c = true

/-- The lengths to try, the longest first. -/
def Piece.lengths (p : Piece α) : List ℕ := ((List.range (p.max + 1)).drop p.min).reverse

/-- Match the whole text. -/
def split [DecidableEq α] : List (Piece α) → List α → Option (List (List α))
  | [], text => if text = [] then some [] else none
  | p :: ps, text =>
    p.lengths.findSome? fun n =>
      if n ≤ text.length ∧ (text.take n).all p.ok then
        (split ps (text.drop n)).map (text.take n :: ·)
      else none

/-- Match a beginning of the text. -/
def test : List (Piece α) → List α → Bool
  | [], _ => true
  | p :: ps, text =>
    p.lengths.any fun n =>
      decide (n ≤ text.length) && (text.take n).all p.ok && test ps (text.drop n)

/-- The parts decompose the text along the pattern. -/
def Decomposes (ps : List (Piece α)) (text : List α) (parts : List (List α)) : Prop :=
  List.Forall₂ Piece.Fits ps parts ∧ parts.flatten = text

variable {p q : Piece α} {ps : List (Piece α)} {text : List α} {parts parts' : List (List α)}

theorem mem_lengths {n : ℕ} : n ∈ p.lengths ↔ p.min ≤ n ∧ n ≤ p.max := by
  rw [Piece.lengths, List.mem_reverse, List.mem_iff_getElem]
  constructor
  · rintro ⟨i, hi, rfl⟩
    rw [List.length_drop, List.length_range] at hi
    rw [List.getElem_drop, List.getElem_range]
    omega
  · rintro ⟨hmin, hmax⟩
    refine ⟨n - p.min, ?_, ?_⟩
    · rw [List.length_drop, List.length_range]
      omega
    · rw [List.getElem_drop, List.getElem_range]
      omega

/-- A run that is tried. -/
theorem fits_take {n : ℕ} (hn : n ∈ p.lengths) (hle : n ≤ text.length)
    (hok : (text.take n).all p.ok = true) : p.Fits (text.take n) := by
  obtain ⟨hmin, hmax⟩ := mem_lengths.1 hn
  have hlen : (text.take n).length = n := List.length_take_of_le hle
  exact ⟨hlen.symm ▸ hmin, hlen.symm ▸ hmax, List.all_eq_true.1 hok⟩

/-- What is found is a decomposition. -/
theorem decomposes_of_split [DecidableEq α] (h : split ps text = some parts) :
    Decomposes ps text parts := by
  induction ps generalizing text parts with
  | nil =>
    rw [split] at h
    split_ifs at h with htext
    cases h
    exact ⟨.nil, htext.symm⟩
  | cons p ps ih =>
    rw [split, List.findSome?_eq_some_iff] at h
    obtain ⟨before, n, after, hlengths, h, -⟩ := h
    split_ifs at h with hn
    rw [Option.map_eq_some_iff] at h
    obtain ⟨rest, hrest, rfl⟩ := h
    obtain ⟨hfits, hflat⟩ := ih hrest
    have hmem : n ∈ p.lengths := by
      rw [hlengths]
      exact List.mem_append_right _ List.mem_cons_self
    refine ⟨.cons (fits_take hmem hn.1 hn.2) hfits, ?_⟩
    rw [List.flatten_cons, hflat, List.take_append_drop]

/-- What has a decomposition is found. -/
theorem split_isSome [DecidableEq α] (h : Decomposes ps text parts) :
    (split ps text).isSome := by
  induction ps generalizing text parts with
  | nil =>
    obtain ⟨hfits, rfl⟩ := h
    cases hfits
    rfl
  | cons p ps ih =>
    obtain ⟨hfits, rfl⟩ := h
    cases hfits with
    | @cons _ part _ rest hpart hrest =>
      rw [split, List.findSome?_isSome_iff]
      refine ⟨part.length, mem_lengths.2 ⟨hpart.1, hpart.2.1⟩, ?_⟩
      have htake : (part :: rest).flatten.take part.length = part := by
        rw [List.flatten_cons, List.take_left]
      have hdrop : (part :: rest).flatten.drop part.length = rest.flatten := by
        rw [List.flatten_cons, List.drop_left]
      rw [htake, hdrop, if_pos ⟨by simp, List.all_eq_true.2 hpart.2.2⟩, Option.isSome_map]
      exact ih ⟨hrest, rfl⟩

/-- Every symbol of a text that decomposes is of the class of a piece. -/
theorem Decomposes.mem (h : Decomposes ps text parts) {c : α} (hc : c ∈ text) :
    ∃ p ∈ ps, p.ok c = true := by
  obtain ⟨hfits, rfl⟩ := h
  induction hfits with
  | nil => cases hc
  | @cons p part ps parts hpart hparts ih =>
    rw [List.flatten_cons, List.mem_append] at hc
    rcases hc with hc | hc
    · exact ⟨p, List.mem_cons_self, hpart.2.2 c hc⟩
    · obtain ⟨q, hq, hok⟩ := ih hc
      exact ⟨q, List.mem_cons_of_mem _ hq, hok⟩

/-- One symbol at the front of a text. -/
theorem test_one_cons (ok : α → Bool) (ps : List (Piece α)) (c : α) (text : List α) :
    test (one ok :: ps) (c :: text) = (ok c && test ps text) := by
  rw [test, Piece.lengths]
  simp [one, List.range_succ]

@[simp] theorem test_nil (text : List α) : test [] text = true := rfl

/-- A part that is one symbol. -/
theorem fits_one {ok : α → Bool} {c : α} : (one ok).Fits [c] ↔ ok c = true := by
  simp [Piece.Fits, one]

theorem decomposes_nil : Decomposes [] text parts ↔ text = [] ∧ parts = [] := by
  constructor
  · rintro ⟨hfits, rfl⟩
    cases hfits
    exact ⟨rfl, rfl⟩
  · rintro ⟨rfl, rfl⟩
    exact ⟨.nil, rfl⟩

theorem decomposes_cons : Decomposes (p :: ps) text parts ↔ ∃ part rest tail,
    text = part ++ tail ∧ parts = part :: rest ∧ p.Fits part ∧ Decomposes ps tail rest := by
  constructor
  · rintro ⟨hfits, rfl⟩
    cases hfits with
    | cons hpart hrest => exact ⟨_, _, _, rfl, rfl, hpart, hrest, rfl⟩
  · rintro ⟨part, rest, tail, rfl, rfl, hpart, hrest, rfl⟩
    exact ⟨.cons hpart hrest, rfl⟩

/-- One symbol at the front of a pattern. -/
theorem decomposes_one_cons {ok : α → Bool} : Decomposes (one ok :: ps) text parts ↔
    ∃ c rest tail, text = c :: tail ∧ parts = [c] :: rest ∧ ok c = true ∧
      Decomposes ps tail rest := by
  rw [decomposes_cons]
  constructor
  · rintro ⟨part, rest, tail, rfl, rfl, hpart, hrest⟩
    obtain ⟨c, rfl⟩ : ∃ c, part = [c] :=
      List.length_eq_one_iff.1 (le_antisymm hpart.2.1 hpart.1)
    exact ⟨c, rest, tail, rfl, rfl, fits_one.1 hpart, hrest⟩
  · rintro ⟨c, rest, tail, rfl, rfl, hc, hrest⟩
    exact ⟨[c], rest, tail, rfl, rfl, fits_one.2 hc, hrest⟩

/-! ## Patterns with one decomposition -/

/-- A text has at most one decomposition. -/
def Determined (ps : List (Piece α)) : Prop :=
  ∀ text parts parts', Decomposes ps text parts → Decomposes ps text parts' → parts = parts'

theorem split_eq_some_iff [DecidableEq α] (h : Determined ps) :
    split ps text = some parts ↔ Decomposes ps text parts := by
  refine ⟨decomposes_of_split, fun hparts => ?_⟩
  obtain ⟨found, hfound⟩ := Option.isSome_iff_exists.1 (split_isSome hparts)
  rw [hfound, h text found parts (decomposes_of_split hfound) hparts]

/-- A piece of one length at the front. -/
theorem Determined.cons_fixed (hp : p.min = p.max) (h : Determined ps) : Determined (p :: ps) := by
  rintro text parts parts' ⟨hfits, rfl⟩ ⟨hfits', htext⟩
  cases hfits with
  | @cons _ part _ rest hpart hrest =>
    cases hfits' with
    | @cons _ part' _ rest' hpart' hrest' =>
      have hlen : part'.length = part.length := by
        have := hpart.1
        have := hpart.2.1
        have := hpart'.1
        have := hpart'.2.1
        omega
      rw [List.flatten_cons, List.flatten_cons] at htext
      obtain ⟨rfl, hflat⟩ := List.append_inj htext hlen
      rw [h rest.flatten rest rest' ⟨hrest, rfl⟩ ⟨hrest', hflat⟩]

/-- A last piece. -/
theorem determined_last (p : Piece α) : Determined [p] := by
  rintro text parts parts' ⟨hfits, rfl⟩ ⟨hfits', htext⟩
  cases hfits with
  | @cons _ part _ rest hpart hrest =>
    cases hrest
    cases hfits' with
    | @cons _ part' _ rest' hpart' hrest' =>
      cases hrest'
      simpa using htext.symm

/-- A run before a symbol that it cannot hold. -/
theorem Determined.cons_run {ok : α → Bool} (hdisjoint : ∀ c, ok c = true → p.ok c = false)
    (h : Determined ps) : Determined (p :: one ok :: ps) := by
  rintro text parts parts' ⟨hfits, rfl⟩ ⟨hfits', htext⟩
  cases hfits with
  | @cons _ part _ rest hpart hrest =>
    cases hrest with
    | @cons _ sep _ rest hsep hrest =>
      cases hfits' with
      | @cons _ part' _ rest' hpart' hrest' =>
        cases hrest' with
        | @cons _ sep' _ rest' hsep' hrest' =>
          obtain ⟨c, rfl⟩ : ∃ c, sep = [c] :=
            List.length_eq_one_iff.1 (le_antisymm hsep.2.1 hsep.1)
          obtain ⟨c', rfl⟩ : ∃ c', sep' = [c'] :=
            List.length_eq_one_iff.1 (le_antisymm hsep'.2.1 hsep'.1)
          have hc := hdisjoint c (hsep.2.2 c List.mem_cons_self)
          have hc' := hdisjoint c' (hsep'.2.2 c' List.mem_cons_self)
          simp only [List.flatten_cons, List.singleton_append] at htext
          -- the run ends at the first symbol outside its class
          have hrun (run : List α) (d : α) (tail : List α) (hfit : p.Fits run)
              (hd : p.ok d = false) : (run ++ d :: tail).takeWhile p.ok = run := by
            rw [List.takeWhile_append_of_pos hfit.2.2, List.takeWhile_cons_of_neg (by simp [hd]),
              List.append_nil]
          have hpart_eq : part' = part := by
            rw [← hrun part' c' _ hpart' hc', htext, hrun part c _ hpart hc]
          subst hpart_eq
          obtain ⟨rfl, hflat⟩ := List.cons.inj (List.append_cancel_left htext)
          rw [h rest.flatten rest rest' ⟨hrest, rfl⟩ ⟨hrest', hflat⟩]

end Pattern
