import Mathlib.Data.List.DropRight

/-!
# Strings

What the models use of the strings of the language: `trim`, `decodeURIComponent`, the order
of two strings, `join`, UTF-8, and `matchAll` and `replace` with a global pattern.
-/

namespace Mullion
namespace Text

/-- The white space of `String.prototype.trim`. -/
def isWhite (c : Char) : Bool :=
  c.val ∈ [0x9, 0xa, 0xb, 0xc, 0xd, 0x20, 0xa0, 0x1680, 0x2028, 0x2029, 0x202f, 0x205f, 0x3000,
    0xfeff] || (0x2000 ≤ c.val && c.val ≤ 0x200a)

/-- `trim`. -/
def trim (s : String) : String :=
  String.ofList ((s.toList.dropWhile isWhite).reverse.dropWhile isWhite).reverse

/-- Dropping a kind of character at both ends of a text twice is dropping it once. -/
theorem dropEnds_dropEnds (p : Char → Bool) (text : List Char) :
    ((((text.dropWhile p).reverse.dropWhile p).reverse.dropWhile p).reverse.dropWhile p).reverse =
      ((text.dropWhile p).reverse.dropWhile p).reverse := by
  have hfront : ((text.dropWhile p).reverse.dropWhile p).reverse.dropWhile p =
      ((text.dropWhile p).reverse.dropWhile p).reverse := by
    cases hends : ((text.dropWhile p).reverse.dropWhile p).reverse with
    | nil => rfl
    | cons c rest =>
      -- what is left at the end begins as what is left at the front
      have hprefix : c :: rest <+: text.dropWhile p := by
        rw [← hends, ← List.reverse_suffix, List.reverse_reverse]
        exact List.dropWhile_suffix _
      obtain ⟨tail, htail⟩ := hprefix
      have hhead := List.head?_dropWhile_not p text
      rw [← htail, List.cons_append, List.head?_cons] at hhead
      rw [List.dropWhile_cons_of_neg (by simpa using hhead)]
  rw [hfront, List.reverse_reverse, List.dropWhile_idempotent]

theorem trim_trim (s : String) : trim (trim s) = trim s := by
  rw [trim, trim, String.toList_ofList, dropEnds_dropEnds]

/-- `s || undefined`. -/
def truthy (s : String) : Option String := if s = "" then none else some s

def hexDigit (c : Char) : Option Nat :=
  if c.isDigit then some (c.toNat - '0'.toNat)
  else if 'a' ≤ c ∧ c ≤ 'f' then some (c.toNat - 'a'.toNat + 10)
  else if 'A' ≤ c ∧ c ≤ 'F' then some (c.toNat - 'A'.toNat + 10)
  else none

/-- The bytes that a percent-encoded text stands for; `none` is a `%` without two hex
digits. -/
def percentBytes : List Char → Option (List UInt8)
  | [] => some []
  | '%' :: a :: b :: rest =>
    match hexDigit a, hexDigit b, percentBytes rest with
    | some a, some b, some bytes => some (UInt8.ofNat (16 * a + b) :: bytes)
    | _, _, _ => none
  | '%' :: _ => none
  | c :: rest => (percentBytes rest).map ((String.singleton c).toUTF8.toList ++ ·)

/-- `decodeURIComponent`; `none` is a `URIError`. -/
def decodeURIComponent (s : String) : Option String :=
  (percentBytes s.toList).bind fun bytes => String.fromUTF8? ⟨bytes.toArray⟩

/-- The UTF-16 code units of a character. -/
def codeUnits (c : Char) : List Nat :=
  if c.toNat < 0x10000 then [c.toNat]
  else [0xd800 + (c.toNat - 0x10000) / 0x400, 0xdc00 + (c.toNat - 0x10000) % 0x400]

/-- `a < b` on strings, by code units. -/
def less (a b : String) : Bool := a.toList.flatMap codeUnits < b.toList.flatMap codeUnits

/-- A character is no surrogate, and below `0x110000`. -/
theorem toNat_bounds (c : Char) : c.toNat < 0xd800 ∨ 0xdfff < c.toNat ∧ c.toNat < 0x110000 :=
  c.valid

theorem codeUnits_ne_nil (c : Char) : codeUnits c ≠ [] := by
  unfold codeUnits
  split <;> simp

/-- The code units of two texts tell their first characters apart. -/
theorem codeUnits_append_inj {a b : Char} {xs ys : List Nat}
    (h : codeUnits a ++ xs = codeUnits b ++ ys) : a = b ∧ xs = ys := by
  have ha := toNat_bounds a
  have hb := toNat_bounds b
  rw [← Char.toNat_inj]
  simp only [codeUnits] at h
  split at h <;> split at h <;> simp only [List.cons_append, List.nil_append, List.cons.injEq] at h
  · exact h
  · have := h.1
    omega
  · have := h.1
    omega
  · obtain ⟨hhi, hlo, hrest⟩ := h
    exact ⟨by omega, hrest⟩

/-- The UTF-16 form of a text determines it. -/
theorem flatMap_codeUnits_inj {s t : List Char} (h : s.flatMap codeUnits = t.flatMap codeUnits) :
    s = t := by
  induction s generalizing t with
  | nil =>
    cases t with
    | nil => rfl
    | cons b t =>
      rw [List.flatMap_nil, List.flatMap_cons, eq_comm, List.append_eq_nil_iff] at h
      exact absurd h.1 (codeUnits_ne_nil b)
  | cons a s ih =>
    cases t with
    | nil =>
      rw [List.flatMap_nil, List.flatMap_cons, List.append_eq_nil_iff] at h
      exact absurd h.1 (codeUnits_ne_nil a)
    | cons b t =>
      rw [List.flatMap_cons, List.flatMap_cons] at h
      obtain ⟨rfl, hrest⟩ := codeUnits_append_inj h
      rw [ih hrest]

/-- `pieces.join(separator)`. -/
def join (separator : String) : List String → String
  | [] => ""
  | [s] => s
  | s :: rest => s ++ separator ++ join separator rest

theorem length_le_join {separator s : String} {pieces : List String} (h : s ∈ pieces) :
    s.length ≤ (join separator pieces).length := by
  fun_induction join separator pieces with
  | case1 => simp at h
  | case2 s' => simp_all
  | case3 s' rest hne ih =>
    simp only [String.length_append]
    rcases List.mem_cons.1 h with rfl | h
    · omega
    · have := ih h
      omega

/-- `Buffer.from(text, "utf8")`. -/
def utf8 (text : List Char) : List UInt8 := text.flatMap String.utf8EncodeChar

@[simp] theorem utf8_nil : utf8 [] = [] := rfl

@[simp] theorem utf8_append (s t : List Char) : utf8 (s ++ t) = utf8 s ++ utf8 t := by
  simp [utf8]

/-! ## Global patterns -/

section Patterns

variable {α : Type} (pattern : List Char → Option (α × Nat))

/-- The matches from index `i` on, after `skip` characters that belong to a match. -/
def matchAllFrom : Nat → Nat → List Char → List (α × Nat)
  | _, _, [] => []
  | skip + 1, i, _ :: rest => matchAllFrom skip (i + 1) rest
  | 0, i, c :: rest =>
    match pattern (c :: rest) with
    | none => matchAllFrom 0 (i + 1) rest
    | some (m, n) => (m, i + n) :: matchAllFrom (n - 1) (i + 1) rest

/-- `text.matchAll(pattern)`. The pattern says of the front of a text what matches and how
long it is; a match comes with the index of its end. -/
def matchAll (text : List Char) : List (α × Nat) := matchAllFrom pattern 0 0 text

/-- The text without its matches, after `skip` characters that belong to a match. -/
def removeAllFrom : Nat → List Char → List Char
  | _, [] => []
  | skip + 1, _ :: rest => removeAllFrom skip rest
  | 0, c :: rest =>
    match pattern (c :: rest) with
    | none => c :: removeAllFrom 0 rest
    | some (_, n) => removeAllFrom (n - 1) rest

/-- `text.replace(pattern, "")` with a global pattern. -/
def removeAll (text : List Char) : List Char := removeAllFrom pattern 0 text

/-- What matches, in order. -/
def found (text : List Char) : List α := (matchAll pattern text).map Prod.fst

/-- The index does not change what matches, and skipping is dropping. -/
theorem map_matchAllFrom_drop (skip i j : Nat) (text : List Char) :
    (matchAllFrom pattern skip i text).map Prod.fst =
      (matchAllFrom pattern 0 j (text.drop skip)).map Prod.fst := by
  induction text generalizing skip i j with
  | nil => simp [matchAllFrom]
  | cons c rest ih =>
    cases skip with
    | succ skip =>
      rw [matchAllFrom, List.drop_succ_cons]
      exact ih skip (i + 1) j
    | zero =>
      rw [List.drop_zero, matchAllFrom, matchAllFrom]
      cases pattern (c :: rest) with
      | none => exact ih 0 (i + 1) (j + 1)
      | some mn =>
        obtain ⟨m, n⟩ := mn
        simp only [List.map_cons]
        rw [ih (n - 1) (i + 1) 0, ih (n - 1) (j + 1) 0]

theorem map_matchAllFrom (skip i : Nat) (text : List Char) :
    (matchAllFrom pattern skip i text).map Prod.fst = found pattern (text.drop skip) :=
  map_matchAllFrom_drop pattern skip i 0 text

@[simp] theorem found_nil : found pattern [] = [] := rfl

theorem found_cons_none {c : Char} {rest : List Char} (h : pattern (c :: rest) = none) :
    found pattern (c :: rest) = found pattern rest := by
  have := map_matchAllFrom pattern 0 1 rest
  rw [found, matchAll, matchAllFrom, h]
  simpa using this

theorem found_cons_some {c : Char} {rest : List Char} {m : α} {n : Nat}
    (h : pattern (c :: rest) = some (m, n)) :
    found pattern (c :: rest) = m :: found pattern (rest.drop (n - 1)) := by
  rw [found, matchAll, matchAllFrom, h]
  simp only [List.map_cons]
  rw [map_matchAllFrom]

@[simp] theorem removeAll_nil : removeAll pattern [] = [] := rfl

theorem removeAllFrom_eq (skip : Nat) (text : List Char) :
    removeAllFrom pattern skip text = removeAll pattern (text.drop skip) := by
  induction text generalizing skip with
  | nil => simp [removeAllFrom]
  | cons c rest ih =>
    cases skip with
    | zero => rfl
    | succ skip => exact ih skip

theorem removeAll_cons_none {c : Char} {rest : List Char} (h : pattern (c :: rest) = none) :
    removeAll pattern (c :: rest) = c :: removeAll pattern rest := by
  rw [removeAll, removeAllFrom, h, removeAll]

theorem removeAll_cons_some {c : Char} {rest : List Char} {m : α} {n : Nat}
    (h : pattern (c :: rest) = some (m, n)) :
    removeAll pattern (c :: rest) = removeAll pattern (rest.drop (n - 1)) := by
  rw [removeAll, removeAllFrom, h]
  exact removeAllFrom_eq pattern (n - 1) rest

end Patterns

end Text
end Mullion
