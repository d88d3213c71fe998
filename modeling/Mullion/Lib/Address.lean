import Mathlib.Data.List.Basic
import Mathlib.Data.Fin.Basic
import Mathlib.Tactic

/-!
# Internet addresses and their printed forms

* `IPv4`, `IPv6` — addresses, as four bytes and as eight groups of 16 bits, with their values
  and blocks of addresses with a common prefix (`InBlock`);
* `IPv4.text` — the dotted form;
* `IPv6.text` — the canonical form: groups in hexadecimal, the first longest run of two or more
  zero groups left out;
* `IPv6.dottedText` — the same, with an IPv4 address that is embedded in the low 32 bits printed
  in its dotted form.

The canonical form is the text of a list of pieces between colons (`IPv6.pieces`), which
determines the address (`pieces_inj`).
-/

namespace Address

/-! ## Numerals -/

/-- The value of a digit, of either case. -/
def digitValue (c : Char) : ℕ :=
  if 'a' ≤ c then c.toNat - 87 else if 'A' ≤ c then c.toNat - 55 else c.toNat - 48

/-- The value of a numeral. -/
def numberOf (base : ℕ) (text : List Char) : ℕ :=
  text.foldl (fun value c => base * value + digitValue c) 0

/-- A number in hexadecimal. -/
def hex (n : ℕ) : List Char := Nat.toDigits 16 n

/-- A number in decimal. -/
def dec (n : ℕ) : List Char := Nat.toDigits 10 n

theorem digitValue_digitChar {d : ℕ} (h : d < 16) : digitValue d.digitChar = d := by
  have hall : ∀ d : Fin 16, digitValue (d : ℕ).digitChar = d := by decide
  exact hall ⟨d, h⟩

/-- A numeral has the value that it was printed from. -/
theorem numberOf_toDigits {base : ℕ} (hlow : 1 < base) (hhigh : base ≤ 16) (n : ℕ) :
    numberOf base (Nat.toDigits base n) = n := by
  induction n using Nat.strong_induction_on with
  | _ n ih =>
    by_cases h : n < base
    · rw [Nat.toDigits_of_lt_base h, numberOf, List.foldl_cons, List.foldl_nil,
        digitValue_digitChar (h.trans_le hhigh), Nat.mul_zero, Nat.zero_add]
    · have hdiv : n / base < n := Nat.div_lt_self (by omega) hlow
      have hmod : n % base < 16 := (Nat.mod_lt n (by omega)).trans_le hhigh
      rw [Nat.toDigits_of_base_le hlow (by omega), numberOf, List.foldl_append, ← numberOf,
        ih _ hdiv, List.foldl_cons, List.foldl_nil, digitValue_digitChar hmod]
      exact Nat.div_add_mod n base

/-- Every digit of a numeral is one of the base. -/
theorem mem_toDigits {base n : ℕ} (hlow : 1 < base) {c : Char} (h : c ∈ Nat.toDigits base n) :
    ∃ d < base, c = d.digitChar := by
  induction n using Nat.strong_induction_on with
  | _ n ih =>
    by_cases hn : n < base
    · rw [Nat.toDigits_of_lt_base hn, List.mem_singleton] at h
      exact ⟨n, hn, h⟩
    · rw [Nat.toDigits_of_base_le hlow (by omega), List.mem_append, List.mem_singleton] at h
      rcases h with h | rfl
      · exact ih _ (Nat.div_lt_self (by omega) hlow) h
      · exact ⟨n % base, Nat.mod_lt n (by omega), rfl⟩

theorem hex_inj {m n : ℕ} (h : hex m = hex n) : m = n := by
  rw [← numberOf_toDigits (by decide) le_rfl m, ← numberOf_toDigits (by decide) le_rfl n]
  exact congrArg _ h

theorem hex_ne_nil (n : ℕ) : hex n ≠ [] := Nat.toDigits_ne_nil

/-- A symbol that is no hexadecimal digit is not in a numeral. -/
theorem not_mem_hex {c : Char} (hc : ∀ d : Fin 16, c ≠ (d : ℕ).digitChar) (n : ℕ) :
    c ∉ hex n := by
  intro h
  obtain ⟨d, hd, rfl⟩ := mem_toDigits (by decide) h
  exact hc ⟨d, hd⟩ rfl

/-! ## Addresses -/

/-- An IPv4 address. -/
structure IPv4 where
  a : Fin 256
  b : Fin 256
  c : Fin 256
  d : Fin 256
  deriving DecidableEq

def IPv4.value (v : IPv4) : ℕ := ((v.a * 256 + v.b) * 256 + v.c) * 256 + v.d

/-- The dotted form. -/
def IPv4.text (v : IPv4) : List Char := ['.'].intercalate [dec v.a, dec v.b, dec v.c, dec v.d]

instance neZero_group : NeZero 65536 := ⟨by decide⟩

/-- An IPv6 address. -/
structure IPv6 where
  groups : List (Fin 65536)
  eight : groups.length = 8
  deriving DecidableEq

def IPv6.value (v : IPv6) : ℕ :=
  v.groups.foldl (fun value (g : Fin 65536) => 65536 * value + (g : ℕ)) 0

/-- The addresses of `width` bits that share the first `bits` with `base`. -/
def InBlock (width base bits value : ℕ) : Prop :=
  value / 2 ^ (width - bits) = base / 2 ^ (width - bits)

instance (width base bits value : ℕ) : Decidable (InBlock width base bits value) :=
  inferInstanceAs (Decidable (_ = _))

/-- The IPv4 address in two groups. -/
def ofGroups (g h : Fin 65536) : IPv4 where
  a := ⟨g / 256, by omega⟩
  b := ⟨g % 256, by omega⟩
  c := ⟨h / 256, by omega⟩
  d := ⟨h % 256, by omega⟩

/-! ## Runs of zero groups -/

/-- The number of zeros from a place on. -/
def zerosFrom (groups : List (Fin 65536)) (i : ℕ) : ℕ :=
  ((groups.drop i).takeWhile (· = 0)).length

/-- The first longest run of zero groups: where it starts and how long it is. -/
def longestRun (groups : List (Fin 65536)) : ℕ × ℕ :=
  (List.range groups.length).foldl
    (fun best i => if best.2 < zerosFrom groups i then (i, zerosFrom groups i) else best) (0, 0)

/-- The groups from `s` on, `n` of them, are zero. -/
def ZeroRun (groups : List (Fin 65536)) (s n : ℕ) : Prop :=
  ∀ i, s ≤ i → i < s + n → groups[i]? = some 0

variable {groups : List (Fin 65536)} {s n s' n' : ℕ}

/-- How far a property holds from the start of a list. -/
theorem le_length_takeWhile {α : Type*} {p : α → Bool} {l : List α} {n : ℕ} :
    n ≤ (l.takeWhile p).length ↔ ∀ j < n, ∃ x, l[j]? = some x ∧ p x = true := by
  induction l generalizing n with
  | nil =>
    constructor
    · intro h j hj
      exact absurd (hj.trans_le h) (Nat.not_lt_zero j)
    · intro h
      by_contra hn
      obtain ⟨x, hx, -⟩ := h 0 (by omega)
      cases hx
  | cons a l ih =>
    cases n with
    | zero => simp
    | succ n =>
      by_cases ha : p a = true
      · rw [List.takeWhile_cons_of_pos ha, List.length_cons, Nat.add_le_add_iff_right, ih]
        constructor
        · intro h j hj
          cases j with
          | zero => exact ⟨a, rfl, ha⟩
          | succ j => exact h j (by omega)
        · exact fun h j hj => h (j + 1) (by omega)
      · rw [List.takeWhile_cons_of_neg ha]
        refine iff_of_false (by simp) fun h => ?_
        obtain ⟨x, hx, hpx⟩ := h 0 (Nat.succ_pos n)
        cases hx
        exact ha hpx

theorem le_zerosFrom_iff : n ≤ zerosFrom groups s ↔ ZeroRun groups s n := by
  rw [zerosFrom, le_length_takeWhile]
  constructor
  · intro h i hsi hin
    obtain ⟨x, hx, hzero⟩ := h (i - s) (by omega)
    rw [List.getElem?_drop, Nat.add_sub_cancel' hsi] at hx
    rw [hx, of_decide_eq_true hzero]
  · intro h j hj
    refine ⟨0, ?_, rfl⟩
    rw [List.getElem?_drop]
    exact h (s + j) (Nat.le_add_right _ _) (by omega)

/-- The best of the runs before a place. -/
theorem foldl_runs (groups : List (Fin 65536)) (m : ℕ) :
    let best := (List.range m).foldl
      (fun best i => if best.2 < zerosFrom groups i then (i, zerosFrom groups i) else best) (0, 0)
    (best = (0, 0) ∨ best.1 < m ∧ best.2 = zerosFrom groups best.1) ∧
      ∀ i < m, zerosFrom groups i ≤ best.2 ∧ (i < best.1 → zerosFrom groups i < best.2) := by
  induction m with
  | zero => exact ⟨Or.inl rfl, fun i hi => absurd hi (Nat.not_lt_zero i)⟩
  | succ m ih =>
    rw [List.range_succ, List.foldl_append, List.foldl_cons, List.foldl_nil]
    obtain ⟨hbest, hle⟩ := ih
    dsimp only
    split_ifs with hm
    · refine ⟨Or.inr ⟨Nat.lt_succ_self m, rfl⟩, fun i hi => ?_⟩
      rcases Nat.lt_succ_iff_lt_or_eq.1 hi with hi | rfl
      · exact ⟨(hle i hi).1.trans hm.le, fun _ => (hle i hi).1.trans_lt hm⟩
      · exact ⟨le_rfl, fun h => absurd h (lt_irrefl _)⟩
    · constructor
      · exact hbest.imp_right fun h => ⟨h.1.trans (Nat.lt_succ_self m), h.2⟩
      · intro i hi
        rcases Nat.lt_succ_iff_lt_or_eq.1 hi with hi | rfl
        · exact hle i hi
        · refine ⟨not_lt.1 hm, fun hlt => ?_⟩
          rcases hbest with hbest | ⟨hbest, -⟩
          · rw [hbest] at hlt
            exact absurd hlt (Nat.not_lt_zero i)
          · omega

/-- The run that is left out is a run of zeros, none is longer, and none before it as long. -/
theorem longestRun_spec (groups : List (Fin 65536)) :
    ZeroRun groups (longestRun groups).1 (longestRun groups).2 ∧
      ∀ s n, ZeroRun groups s n → n ≤ (longestRun groups).2 ∧
        (s < (longestRun groups).1 → n < (longestRun groups).2) := by
  obtain ⟨hbest, hle⟩ := foldl_runs groups groups.length
  rw [← longestRun] at hbest hle
  constructor
  · rcases hbest with hbest | ⟨-, hbest⟩
    · rw [hbest]
      exact fun i hi hi' => absurd hi' (not_lt.2 hi)
    · exact le_zerosFrom_iff.1 hbest.le
  · intro s n hzero
    rw [← le_zerosFrom_iff] at hzero
    by_cases hs : s < groups.length
    · exact ⟨hzero.trans (hle s hs).1, fun hlt => hzero.trans_lt ((hle s hs).2 hlt)⟩
    · rw [zerosFrom, List.drop_eq_nil_of_le (not_lt.1 hs)] at hzero
      refine ⟨hzero.trans (Nat.zero_le _), fun hlt => ?_⟩
      rcases hbest with hbest | ⟨hbest, -⟩
      · rw [hbest] at hlt
        exact absurd hlt (Nat.not_lt_zero s)
      · omega

/-- A run of zeros that no other one contains or precedes is the one left out. -/
theorem longestRun_eq (hrun : ZeroRun groups s n)
    (hmax : ∀ s' n', ZeroRun groups s' n' → n ≤ n' → s' = s ∧ n' = n) :
    longestRun groups = (s, n) := by
  obtain ⟨hzero, hle⟩ := longestRun_spec groups
  obtain ⟨hs, hn⟩ := hmax _ _ hzero (hle s n hrun).1
  exact Prod.ext hs hn

/-- The run that is left out at the front ends at a group that is not zero. -/
theorem ne_zero_of_longestRun {g : Fin 65536} (hbest : longestRun groups = (0, n))
    (hg : groups[n]? = some g) : g ≠ 0 := by
  rintro rfl
  obtain ⟨hzero, hle⟩ := longestRun_spec groups
  rw [hbest] at hzero hle
  -- otherwise the run would be longer
  have hlonger : ZeroRun groups 0 (n + 1) := by
    intro i hi hin
    rcases Nat.lt_succ_iff_lt_or_eq.1 (by omega : i < n + 1) with hlt | rfl
    · exact hzero i hi (by omega)
    · exact hg
  exact absurd (hle 0 (n + 1) hlonger).1 (Nat.not_succ_le_self n)

/-! ## The canonical form -/

/-- A group in hexadecimal. -/
def hexGroup (g : Fin 65536) : List Char := hex g

/-- The pieces of a part of the groups that is next to the run left out. -/
def sidePieces (groups : List (Fin 65536)) : List (List Char) :=
  if groups = [] then [[]] else groups.map hexGroup

/-- The pieces of the canonical form, between colons. -/
def piecesOf (groups : List (Fin 65536)) : List (List Char) :=
  let (s, n) := longestRun groups
  if n < 2 then groups.map hexGroup
  else sidePieces (groups.take s) ++ [] :: sidePieces (groups.drop (s + n))

def IPv6.pieces (v : IPv6) : List (List Char) := piecesOf v.groups

/-- The canonical form. -/
def IPv6.text (v : IPv6) : List Char := [':'].intercalate v.pieces

/-- The pieces of the form with an embedded address in its dotted form. -/
def IPv6.dottedPieces (v : IPv6) : List (List Char) :=
  match v.groups with
  | [_, _, _, _, _, g, h, l] =>
    if longestRun v.groups = (0, 6) then [[], [], (ofGroups h l).text]
    else if longestRun v.groups = (0, 5) ∧ g = 0xffff then
      [[], [], ['f', 'f', 'f', 'f'], (ofGroups h l).text]
    else v.pieces
  | _ => v.pieces

/-- The form with an embedded IPv4 address in its dotted form. -/
def IPv6.dottedText (v : IPv6) : List Char := [':'].intercalate v.dottedPieces

theorem map_hex_inj {l l' : List (Fin 65536)}
    (h : (l.map hexGroup) = l'.map hexGroup) : l = l' :=
  List.map_injective_iff.2 (fun _ _ hg => Fin.ext (hex_inj hg)) h

theorem nil_not_mem_map_hex (l : List (Fin 65536)) : [] ∉ l.map hexGroup := by
  intro h
  obtain ⟨g, -, hg⟩ := List.mem_map.1 h
  exact hex_ne_nil g hg

theorem sidePieces_inj {l l' : List (Fin 65536)} (h : sidePieces l = sidePieces l') : l = l' := by
  rw [sidePieces, sidePieces] at h
  split_ifs at h with hl hl' hl'
  · rw [hl, hl']
  · exact absurd (h ▸ List.mem_cons_self) (nil_not_mem_map_hex l')
  · exact absurd (h.symm ▸ List.mem_cons_self) (nil_not_mem_map_hex l)
  · exact map_hex_inj h

/-- The two sides of the run that is left out can be told apart. -/
theorem sides_inj {l l' m m' : List (Fin 65536)}
    (h : sidePieces l ++ [] :: sidePieces m = sidePieces l' ++ [] :: sidePieces m') :
    l = l' ∧ m = m' := by
  have hhead {l : List (Fin 65536)} (hl : l ≠ []) (rest : List (List Char)) :
      ∃ g tail, sidePieces l ++ [] :: rest = hexGroup g :: tail := by
    cases l with
    | nil => exact absurd rfl hl
    | cons g l => exact ⟨g, _, by rw [sidePieces, if_neg hl]; rfl⟩
  by_cases hl : l = []
  · by_cases hl' : l' = []
    · subst hl hl'
      exact ⟨rfl, sidePieces_inj (List.cons.inj (List.cons.inj h).2).2⟩
    · obtain ⟨g, tail, htail⟩ := hhead hl' (sidePieces m')
      rw [htail, hl] at h
      exact absurd (List.cons.inj h).1.symm (hex_ne_nil g)
  · by_cases hl' : l' = []
    · obtain ⟨g, tail, htail⟩ := hhead hl (sidePieces m)
      rw [htail, hl'] at h
      exact absurd (List.cons.inj h).1 (hex_ne_nil g)
    · rw [sidePieces, if_neg hl, sidePieces.eq_def l', if_neg hl'] at h
      -- the first side ends at the first empty piece
      have hfront (l rest : List _) : (l.map hexGroup ++ [] :: rest).takeWhile (· ≠ []) =
          l.map hexGroup := by
        have hfull : ∀ piece ∈ l.map hexGroup, decide (piece ≠ []) = true := fun piece hpiece =>
          decide_eq_true fun hnil => nil_not_mem_map_hex l (hnil ▸ hpiece)
        rw [List.takeWhile_append_of_pos hfull, List.takeWhile_cons_of_neg (by simp),
          List.append_nil]
      have hmap : l.map hexGroup = l'.map hexGroup := by
        rw [← hfront l (sidePieces m), h, hfront]
      rw [hmap] at h
      exact ⟨map_hex_inj hmap, sidePieces_inj (List.cons.inj (List.append_cancel_left h)).2⟩

/-- A run of zeros splits the groups. -/
theorem ZeroRun.split (h : ZeroRun groups s n) :
    groups = groups.take s ++ (List.replicate n 0 ++ groups.drop (s + n)) := by
  have hzeros : (groups.drop s).take n = List.replicate n 0 := by
    apply List.ext_getElem?
    intro i
    rw [List.getElem?_take, List.getElem?_drop, List.getElem?_replicate]
    split_ifs with hi
    · exact h (s + i) (Nat.le_add_right _ _) (by omega)
    · rfl
  rw [← hzeros, ← List.drop_drop, List.take_append_drop, List.take_append_drop]

theorem ZeroRun.le_length (h : ZeroRun groups s n) (hpos : 0 < n) : s + n ≤ groups.length := by
  have hlast := h (s + n - 1) (by omega) (by omega)
  have := (List.getElem?_eq_some_iff.1 hlast).1
  omega

/-- A run of zeros does not contain a group that is not zero. -/
theorem ZeroRun.not_mem (h : ZeroRun groups s n) {i : ℕ} {g : Fin 65536}
    (hi : groups[i]? = some g) (hg : g ≠ 0) : i < s ∨ s + n ≤ i := by
  by_contra hmem
  rw [not_or, not_lt, not_le] at hmem
  have hzero := h i hmem.1 hmem.2
  rw [hi] at hzero
  exact hg (Option.some.inj hzero)

/-- The pieces determine the groups. -/
theorem piecesOf_inj {groups groups' : List (Fin 65536)} (hlen : groups.length = groups'.length)
    (h : piecesOf groups = piecesOf groups') : groups = groups' := by
  have hrun := (longestRun_spec groups).1
  have hrun' := (longestRun_spec groups').1
  rw [piecesOf, piecesOf] at h
  generalize longestRun groups = best at h hrun
  generalize longestRun groups' = best' at h hrun'
  obtain ⟨s, n⟩ := best
  obtain ⟨s', n'⟩ := best'
  dsimp only at h hrun hrun'
  split_ifs at h with hn hn' hn'
  · exact map_hex_inj h
  · refine absurd ?_ (nil_not_mem_map_hex groups)
    rw [h]
    exact List.mem_append_right _ List.mem_cons_self
  · refine absurd ?_ (nil_not_mem_map_hex groups')
    rw [← h]
    exact List.mem_append_right _ List.mem_cons_self
  · obtain ⟨htake, hdrop⟩ := sides_inj h
    have hfits := hrun.le_length (by omega)
    have hfits' := hrun'.le_length (by omega)
    have htaken := congrArg List.length htake
    have hdropped := congrArg List.length hdrop
    rw [List.length_take, List.length_take] at htaken
    rw [List.length_drop, List.length_drop] at hdropped
    have hs : s = s' := by omega
    have hn : n = n' := by omega
    subst hs hn
    rw [hrun.split, hrun'.split, htake, hdrop]

theorem IPv6.pieces_inj {v w : IPv6} (h : v.pieces = w.pieces) : v = w := by
  have hgroups := piecesOf_inj (v.eight.trans w.eight.symm) h
  cases v
  cases w
  cases hgroups
  rfl

/-! ## The pieces of an address -/

/-- Every piece is empty or a group. -/
theorem eq_of_mem_pieces {v : IPv6} {piece : List Char} (h : piece ∈ v.pieces) :
    piece = [] ∨ ∃ g, piece = hexGroup g := by
  have hhex (l : List (Fin 65536)) (hpiece : piece ∈ l.map hexGroup) : ∃ g, piece = hexGroup g := by
    obtain ⟨g, -, rfl⟩ := List.mem_map.1 hpiece
    exact ⟨g, rfl⟩
  have hside (l : List (Fin 65536)) (hpiece : piece ∈ sidePieces l) :
      piece = [] ∨ ∃ g, piece = hexGroup g := by
    rw [sidePieces] at hpiece
    split_ifs at hpiece
    · exact Or.inl (List.mem_singleton.1 hpiece)
    · exact Or.inr (hhex l hpiece)
  rw [IPv6.pieces, piecesOf] at h
  dsimp only at h
  split_ifs at h
  · exact Or.inr (hhex _ h)
  · rcases List.mem_append.1 h with h | h
    · exact hside _ h
    · rcases List.mem_cons.1 h with rfl | h
      · exact Or.inl rfl
      · exact hside _ h

/-- No piece holds a colon. -/
theorem colon_not_mem_pieces (v : IPv6) : ∀ piece ∈ v.pieces, ':' ∉ piece := by
  intro piece hpiece
  rcases eq_of_mem_pieces hpiece with rfl | ⟨g, rfl⟩
  · exact List.not_mem_nil
  · exact not_mem_hex (by decide) g

/-- The first piece is the first group, unless that is zero, and it is not the only piece. -/
theorem pieces_eq_cons (v : IPv6) :
    ∃ g rest piece tail, v.groups = g :: rest ∧ v.pieces = piece :: tail ∧ tail ≠ [] ∧
      (piece = hexGroup g ∨ piece = [] ∧ g = 0) := by
  obtain ⟨groups, height⟩ := v
  cases groups with
  | nil => cases height
  | cons g rest =>
    have hrun := (longestRun_spec (g :: rest)).1
    rw [IPv6.pieces, piecesOf]
    dsimp only
    generalize longestRun (g :: rest) = best at hrun
    obtain ⟨s, n⟩ := best
    dsimp only at hrun ⊢
    split_ifs with hn
    · refine ⟨g, rest, hexGroup g, rest.map hexGroup, rfl, rfl, ?_, Or.inl rfl⟩
      intro hnil
      rw [List.map_eq_nil_iff] at hnil
      rw [hnil] at height
      cases height
    · cases s with
      | zero =>
        have hzero := hrun 0 le_rfl (by omega)
        exact ⟨g, rest, [], _, rfl, rfl, List.cons_ne_nil _ _,
          Or.inr ⟨rfl, Option.some.inj hzero⟩⟩
      | succ s =>
        refine ⟨g, rest, hexGroup g, _, rfl, rfl, ?_, Or.inl rfl⟩
        simp

/-- A long run at the front is the one left out. -/
theorem longestRun_of_leading {g : Fin 65536} (hlen : groups.length = 8) (hn : 4 ≤ n)
    (hrun : ZeroRun groups 0 n) (hnext : groups[n]? = some g) (hg : g ≠ 0) :
    longestRun groups = (0, n) := by
  refine longestRun_eq hrun fun s' n' hrun' hle => ?_
  have hfits := hrun'.le_length (by omega)
  rcases hrun'.not_mem hnext hg with hlt | hle' <;> omega

/-- Two empty pieces at the front, and none behind: all but as many groups are zero. -/
theorem groups_of_pieces {v : IPv6} {tail : List (List Char)}
    (hpieces : v.pieces = [] :: [] :: tail) (hnil : [] ∉ tail) :
    ∃ rest, v.groups = List.replicate (8 - tail.length) 0 ++ rest ∧
      rest.map hexGroup = tail ∧ longestRun v.groups = (0, 8 - tail.length) := by
  have hrun := (longestRun_spec v.groups).1
  have height := v.eight
  rw [IPv6.pieces, piecesOf] at hpieces
  generalize longestRun v.groups = best at hpieces hrun
  obtain ⟨s, n⟩ := best
  dsimp only at hpieces hrun
  split_ifs at hpieces with hn
  · exact absurd (hpieces ▸ List.mem_cons_self) (nil_not_mem_map_hex v.groups)
  · have hfits := hrun.le_length (by omega)
    have hs : s = 0 := by
      by_contra hs
      have htake : v.groups.take s ≠ [] := by
        rw [Ne, List.take_eq_nil_iff, not_or]
        exact ⟨hs, fun hnone => by rw [hnone] at height; cases height⟩
      rw [sidePieces, if_neg htake] at hpieces
      obtain ⟨g, l, hgl⟩ := List.exists_cons_of_ne_nil htake
      rw [hgl] at hpieces
      exact hex_ne_nil g (List.cons.inj hpieces).1
    subst hs
    have hside : sidePieces (v.groups.drop (0 + n)) = tail :=
      (List.cons.inj (List.cons.inj hpieces).2).2
    rw [sidePieces] at hside
    split_ifs at hside
    · exact absurd (hside ▸ List.mem_cons_self) hnil
    · have hlength := congrArg List.length hside
      rw [List.length_map, List.length_drop] at hlength
      have hn : n = 8 - tail.length := by omega
      refine ⟨v.groups.drop (0 + n), ?_, hside, by rw [hn]⟩
      rw [← hn]
      exact hrun.split

/-- No piece is empty: they are the groups. -/
theorem groups_of_full {v : IPv6} (hnil : [] ∉ v.pieces) : v.pieces = v.groups.map hexGroup := by
  rw [IPv6.pieces, piecesOf] at hnil ⊢
  dsimp only at hnil ⊢
  split_ifs at hnil ⊢
  · rfl
  · exact absurd (List.mem_append_right _ List.mem_cons_self) hnil

/-- The address whose first six groups are zero, and the next one is not. -/
theorem pieces_of_six {v : IPv6} {h l : Fin 65536} (hv : v.groups = [0, 0, 0, 0, 0, 0, h, l])
    (hh : h ≠ 0) : longestRun v.groups = (0, 6) ∧ v.pieces = [[], [], hexGroup h, hexGroup l] := by
  have hrun : longestRun v.groups = (0, 6) := by
    refine longestRun_of_leading v.eight (by decide) (fun i _ hi => ?_) (by rw [hv]; rfl) hh
    rw [hv]
    interval_cases i <;> rfl
  refine ⟨hrun, ?_⟩
  rw [IPv6.pieces, piecesOf, hrun, hv]
  rfl

/-- The address whose first five groups are zero, and the next one is not. -/
theorem pieces_of_five {v : IPv6} {g h l : Fin 65536} (hv : v.groups = [0, 0, 0, 0, 0, g, h, l])
    (hg : g ≠ 0) :
    longestRun v.groups = (0, 5) ∧ v.pieces = [[], [], hexGroup g, hexGroup h, hexGroup l] := by
  have hrun : longestRun v.groups = (0, 5) := by
    refine longestRun_of_leading v.eight (by decide) (fun i _ hi => ?_) (by rw [hv]; rfl) hg
    rw [hv]
    interval_cases i <;> rfl
  refine ⟨hrun, ?_⟩
  rw [IPv6.pieces, piecesOf, hrun, hv]
  rfl

/-! ## The printed forms -/

theorem pieces_ne_nil (v : IPv6) : v.pieces ≠ [] := by
  obtain ⟨g, rest, piece, tail, -, hpieces, -⟩ := pieces_eq_cons v
  rw [hpieces]
  exact List.cons_ne_nil _ _

theorem splitOn_text (v : IPv6) : v.text.splitOn ':' = v.pieces :=
  List.splitOn_intercalate _ (colon_not_mem_pieces v) (pieces_ne_nil v)

/-- The canonical form determines the address. -/
theorem IPv6.text_inj {v w : IPv6} (h : v.text = w.text) : v = w := by
  apply IPv6.pieces_inj
  rw [← splitOn_text, h, splitOn_text]

/-- The canonical form begins with the first group and a colon. -/
theorem text_eq (v : IPv6) : ∃ g rest piece tail, v.groups = g :: rest ∧
    v.text = piece ++ ':' :: tail ∧ (piece = hexGroup g ∨ piece = [] ∧ g = 0) := by
  obtain ⟨g, rest, piece, tail, hgroups, hpieces, htail, hpiece⟩ := pieces_eq_cons v
  refine ⟨g, rest, piece, [':'].intercalate tail, hgroups, ?_, hpiece⟩
  rw [IPv6.text, hpieces, List.intercalate_cons_of_ne_nil htail]
  simp

/-- What stands in a text between colons. -/
theorem mem_intercalate {α : Type*} {sep c : α} {pieces : List (List α)}
    (h : c ∈ [sep].intercalate pieces) : c = sep ∨ ∃ piece ∈ pieces, c ∈ piece := by
  induction pieces with
  | nil => cases h
  | cons piece pieces ih =>
    by_cases hnil : pieces = []
    · rw [hnil, List.intercalate_singleton] at h
      exact Or.inr ⟨piece, List.mem_cons_self, h⟩
    · rw [List.intercalate_cons_of_ne_nil hnil, List.mem_append, List.mem_append,
        List.mem_singleton] at h
      rcases h with (h | h) | h
      · exact Or.inr ⟨piece, List.mem_cons_self, h⟩
      · exact Or.inl h
      · exact (ih h).imp_right fun ⟨piece, hpiece, hc⟩ =>
          ⟨piece, List.mem_cons_of_mem _ hpiece, hc⟩

/-- The canonical form holds colons and digits. -/
theorem IPv6.mem_text {v : IPv6} {c : Char} (h : c ∈ v.text) :
    c = ':' ∨ ∃ d : Fin 16, c = (d : ℕ).digitChar := by
  refine (mem_intercalate h).imp_right ?_
  rintro ⟨piece, hpiece, hc⟩
  rcases eq_of_mem_pieces hpiece with rfl | ⟨g, rfl⟩
  · cases hc
  · obtain ⟨d, hd, rfl⟩ := mem_toDigits (by decide) hc
    exact ⟨⟨d, hd⟩, rfl⟩

theorem IPv4.mem_text {v : IPv4} {c : Char} (h : c ∈ v.text) :
    c = '.' ∨ ∃ d : Fin 16, c = (d : ℕ).digitChar := by
  refine (mem_intercalate h).imp_right ?_
  have hdec (n : ℕ) (hc : c ∈ dec n) : ∃ d : Fin 16, c = (d : ℕ).digitChar := by
    obtain ⟨d, hd, rfl⟩ := mem_toDigits (by decide) hc
    exact ⟨⟨d, by omega⟩, rfl⟩
  rintro ⟨piece, hpiece, hc⟩
  obtain ⟨n, rfl⟩ : ∃ n, piece = dec n := by
    rcases List.mem_cons.1 hpiece with rfl | hpiece
    · exact ⟨_, rfl⟩
    · simp only [List.mem_cons, List.not_mem_nil, or_false] at hpiece
      rcases hpiece with rfl | rfl | rfl <;> exact ⟨_, rfl⟩
  exact hdec n hc

theorem IPv6.exists_groups (v : IPv6) :
    ∃ a b c d e f g h, v.groups = [a, b, c, d, e, f, g, h] := by
  obtain ⟨groups, height⟩ := v
  match groups, height with
  | [a, b, c, d, e, f, g, h], _ => exact ⟨a, b, c, d, e, f, g, h, rfl⟩

/-- The value, in the groups. -/
theorem IPv6.value_eq {v : IPv6} {a b c d e f g h : Fin 65536}
    (hv : v.groups = [a, b, c, d, e, f, g, h]) : v.value =
      a * 2 ^ 112 + b * 2 ^ 96 + c * 2 ^ 80 + d * 2 ^ 64 + e * 2 ^ 48 + f * 2 ^ 32 +
        g * 2 ^ 16 + h := by
  rw [IPv6.value, hv]
  dsimp only [List.foldl]
  omega

/-- The other form of an address that embeds an IPv4 address. -/
theorem dottedText_cases (v : IPv6) : v.dottedText = v.text ∨
    (∃ h l, v.groups = [0, 0, 0, 0, 0, 0, h, l] ∧ h ≠ 0 ∧
      v.dottedText = ':' :: ':' :: (ofGroups h l).text) ∨
    ∃ h l, v.groups = [0, 0, 0, 0, 0, 0xffff, h, l] ∧
      v.dottedText = ':' :: ':' :: 'f' :: 'f' :: 'f' :: 'f' :: ':' :: (ofGroups h l).text := by
  obtain ⟨a, b, c, d, e, g, h, l, hv⟩ := v.exists_groups
  have hrun := (longestRun_spec v.groups).1
  have hdotted : v.dottedPieces = if longestRun v.groups = (0, 6) then [[], [], (ofGroups h l).text]
      else if longestRun v.groups = (0, 5) ∧ g = 0xffff then
        [[], [], ['f', 'f', 'f', 'f'], (ofGroups h l).text]
      else v.pieces := by
    rw [IPv6.dottedPieces, hv]
  have hzero {n i : ℕ} {x : Fin 65536} (hbest : longestRun v.groups = (0, n)) (hi : i < n)
      (hx : v.groups[i]? = some x) : x = 0 := by
    rw [hbest] at hrun
    exact Option.some.inj (hx.symm.trans (hrun i (Nat.zero_le i) (by omega)))
  rw [IPv6.dottedText, hdotted]
  split_ifs with hsix hfive
  · obtain rfl : a = 0 := hzero hsix (by decide : 0 < 6) (by rw [hv]; rfl)
    obtain rfl : b = 0 := hzero hsix (by decide : 1 < 6) (by rw [hv]; rfl)
    obtain rfl : c = 0 := hzero hsix (by decide : 2 < 6) (by rw [hv]; rfl)
    obtain rfl : d = 0 := hzero hsix (by decide : 3 < 6) (by rw [hv]; rfl)
    obtain rfl : e = 0 := hzero hsix (by decide : 4 < 6) (by rw [hv]; rfl)
    obtain rfl : g = 0 := hzero hsix (by decide : 5 < 6) (by rw [hv]; rfl)
    exact Or.inr (Or.inl ⟨h, l, hv, ne_zero_of_longestRun hsix (by rw [hv]; rfl), by simp⟩)
  · obtain ⟨hfive, rfl⟩ := hfive
    obtain rfl : a = 0 := hzero hfive (by decide : 0 < 5) (by rw [hv]; rfl)
    obtain rfl : b = 0 := hzero hfive (by decide : 1 < 5) (by rw [hv]; rfl)
    obtain rfl : c = 0 := hzero hfive (by decide : 2 < 5) (by rw [hv]; rfl)
    obtain rfl : d = 0 := hzero hfive (by decide : 3 < 5) (by rw [hv]; rfl)
    obtain rfl : e = 0 := hzero hfive (by decide : 4 < 5) (by rw [hv]; rfl)
    exact Or.inr (Or.inr ⟨h, l, hv, by simp⟩)
  · exact Or.inl rfl

end Address
