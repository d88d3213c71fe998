import Mathlib.Data.List.Basic
import Mathlib.Tactic

/-!
# UTF-8, decoded in pieces

* `encode` — the bytes of a text;
* `feed` — the decoder, byte by byte: what is not well formed becomes U+FFFD, one for every longest
  beginning of a character;
* `decode` — a text from all of its bytes, and `decodeChunks` — from pieces, each decoded alone;
* `Cuts` — a piece ends inside a character, and `Splits` — inside a character of a name.

The pieces of an encoded text decode to the text with every character that is cut replaced by two
or more U+FFFD (`image_decodeChunks`); a name in the text is read back exactly when no piece ends
inside one of its characters (`Image.eq_iff`).
-/

namespace Utf8

/-- The bytes of a text. -/
def encode (text : List Char) : List UInt8 := text.flatMap String.utf8EncodeChar

@[simp] theorem encode_nil : encode [] = [] := rfl

@[simp] theorem encode_append (s t : List Char) : encode (s ++ t) = encode s ++ encode t :=
  List.flatMap_append

theorem encode_cons (c : Char) (text : List Char) :
    encode (c :: text) = String.utf8EncodeChar c ++ encode text := rfl

theorem encode_singleton (c : Char) : encode [c] = String.utf8EncodeChar c := List.append_nil _

/-! ## The decoder -/

/-- U+FFFD. -/
def replacement : Char := '\uFFFD'

/-- The beginning of a character: the bytes that are missing, the value so far, and the bounds of
the next byte. -/
structure Pending where
  needed : ℕ
  point : ℕ
  low : ℕ
  high : ℕ
  deriving DecidableEq

/-- A byte between two characters. -/
def first (b : ℕ) : List Char × Option Pending :=
  if b ≤ 0x7f then ([Char.ofNat b], none)
  else if 0xc2 ≤ b ∧ b ≤ 0xdf then ([], some ⟨1, b - 0xc0, 0x80, 0xbf⟩)
  else if 0xe0 ≤ b ∧ b ≤ 0xef then
    ([], some ⟨2, b - 0xe0, if b = 0xe0 then 0xa0 else 0x80, if b = 0xed then 0x9f else 0xbf⟩)
  else if 0xf0 ≤ b ∧ b ≤ 0xf4 then
    ([], some ⟨3, b - 0xf0, if b = 0xf0 then 0x90 else 0x80, if b = 0xf4 then 0x8f else 0xbf⟩)
  else ([replacement], none)

/-- One byte. -/
def step : Option Pending → ℕ → List Char × Option Pending
  | none, b => first b
  | some p, b =>
    if p.low ≤ b ∧ b ≤ p.high then
      let point := p.point * 64 + (b - 0x80)
      if p.needed = 1 then ([Char.ofNat point], none)
      else ([], some ⟨p.needed - 1, point, 0x80, 0xbf⟩)
    else (replacement :: (first b).1, (first b).2)

/-- Some bytes. -/
def feed : Option Pending → List UInt8 → List Char × Option Pending
  | s, [] => ([], s)
  | s, b :: rest =>
    ((step s b.toNat).1 ++ (feed (step s b.toNat).2 rest).1, (feed (step s b.toNat).2 rest).2)

/-- Bytes in two parts. -/
theorem feed_append (s : Option Pending) (a b : List UInt8) :
    feed s (a ++ b) = ((feed s a).1 ++ (feed (feed s a).2 b).1, (feed (feed s a).2 b).2) := by
  induction a generalizing s with
  | nil => rfl
  | cons c a ih => rw [List.cons_append, feed, feed, ih, List.append_assoc]

/-- The end of the bytes. -/
def flush : Option Pending → List Char
  | none => []
  | some _ => [replacement]

/-- The text of some bytes. -/
def decode (bytes : List UInt8) : List Char := (feed none bytes).1 ++ flush (feed none bytes).2

/-- The texts of some pieces, each decoded alone. -/
def decodeChunks (chunks : List (List UInt8)) : List Char := (chunks.map decode).flatten

/-! ## Well-formed bytes -/

/-- A byte that continues a character. -/
def Continues (b : UInt8) : Prop := 0x80 ≤ b.toNat ∧ b.toNat ≤ 0xbf

theorem first_of_continues {b : UInt8} (h : Continues b) :
    first b.toNat = ([replacement], none) := by
  obtain ⟨hlow, hhigh⟩ := h
  rw [first, if_neg (by omega), if_neg (by omega), if_neg (by omega), if_neg (by omega)]

/-- The state waits for these bytes of a character. -/
def Awaits (c : Char) : Option Pending → List UInt8 → Prop
  | _, [] => False
  | s, [b] => s.isSome ∧ Continues b ∧ step s b.toNat = ([c], none)
  | s, b :: rest => s.isSome ∧ Continues b ∧ (step s b.toNat).1 = [] ∧
      Awaits c (step s b.toNat).2 rest

theorem step_last {p : Pending} {b : ℕ} (hneeded : p.needed = 1) (hlow : p.low ≤ b)
    (hhigh : b ≤ p.high) :
    step (some p) b = ([Char.ofNat (p.point * 64 + (b - 0x80))], none) := by
  rw [step, if_pos ⟨hlow, hhigh⟩, if_pos hneeded]

theorem step_more {p : Pending} {b : ℕ} (hneeded : p.needed ≠ 1) (hlow : p.low ≤ b)
    (hhigh : b ≤ p.high) :
    step (some p) b = ([], some ⟨p.needed - 1, p.point * 64 + (b - 0x80), 0x80, 0xbf⟩) := by
  rw [step, if_pos ⟨hlow, hhigh⟩, if_neg hneeded]

/-- The first byte of a character, and what it waits for. -/
theorem utf8EncodeChar_cases (c : Char) :
    (∃ b, String.utf8EncodeChar c = [b] ∧ first b.toNat = ([c], none)) ∨
      ∃ b rest, String.utf8EncodeChar c = b :: rest ∧ (first b.toNat).1 = [] ∧
        Awaits c (first b.toNat).2 rest := by
  have hbounds : c.toNat < 0xd800 ∨ 0xdfff < c.toNat ∧ c.toNat < 0x110000 := c.valid
  have ofNat_eq {n : ℕ} (h : n = c.toNat) :
      ([Char.ofNat n], (none : Option Pending)) = ([c], none) := by
    rw [h, Char.ofNat_toNat]
  have hbyte {n : ℕ} (h : n < 256) : (UInt8.ofNat n).toNat = n := by
    rw [UInt8.toNat_ofNat']
    exact Nat.mod_eq_of_lt h
  set v := c.toNat with hv
  rw [String.utf8EncodeChar]
  have hval : c.val.toNat = v := rfl
  simp only [hval]
  split_ifs with h1 h2 h3
  · refine Or.inl ⟨_, rfl, ?_⟩
    rw [hbyte (by omega), first, if_pos (by omega)]
    exact ofNat_eq rfl
  · refine Or.inr ⟨_, _, rfl, ?_⟩
    have hlead := hbyte (by omega : v / 64 % 32 + 0xc0 < 256)
    have hlast := hbyte (by omega : v % 64 + 0x80 < 256)
    rw [hlead, first, if_neg (by omega), if_pos (by omega)]
    refine ⟨rfl, rfl, ⟨by omega, by omega⟩, ?_⟩
    rw [hlast, step_last rfl (by dsimp only; omega) (by dsimp only; omega)]
    exact ofNat_eq (by dsimp only; omega)
  · refine Or.inr ⟨_, _, rfl, ?_⟩
    have hlead := hbyte (by omega : v / 4096 % 16 + 0xe0 < 256)
    have hnext := hbyte (by omega : v / 64 % 64 + 0x80 < 256)
    have hlast := hbyte (by omega : v % 64 + 0x80 < 256)
    rw [hlead, first, if_neg (by omega), if_neg (by omega), if_pos (by omega)]
    refine ⟨rfl, rfl, ⟨by omega, by omega⟩, ?_⟩
    rw [hnext, step_more (by dsimp only; omega) (by dsimp only; split_ifs <;> omega)
      (by dsimp only; split_ifs <;> omega)]
    refine ⟨rfl, rfl, ⟨by omega, by omega⟩, ?_⟩
    rw [hlast, step_last rfl (by dsimp only; omega) (by dsimp only; omega)]
    exact ofNat_eq (by dsimp only; omega)
  · refine Or.inr ⟨_, _, rfl, ?_⟩
    have hlead := hbyte (by omega : v / 262144 % 8 + 0xf0 < 256)
    have hnext := hbyte (by omega : v / 4096 % 64 + 0x80 < 256)
    have hthird := hbyte (by omega : v / 64 % 64 + 0x80 < 256)
    have hlast := hbyte (by omega : v % 64 + 0x80 < 256)
    rw [hlead, first, if_neg (by omega), if_neg (by omega), if_neg (by omega), if_pos (by omega)]
    refine ⟨rfl, rfl, ⟨by omega, by omega⟩, ?_⟩
    rw [hnext, step_more (by dsimp only; omega) (by dsimp only; split_ifs <;> omega)
      (by dsimp only; split_ifs <;> omega)]
    refine ⟨rfl, rfl, ⟨by omega, by omega⟩, ?_⟩
    rw [hthird, step_more (by dsimp only; omega) (by dsimp only; omega) (by dsimp only; omega)]
    refine ⟨rfl, rfl, ⟨by omega, by omega⟩, ?_⟩
    rw [hlast, step_last rfl (by dsimp only; omega) (by dsimp only; omega)]
    exact ofNat_eq (by dsimp only; omega)

/-! ## Pieces -/

/-- The bytes of a piece, each with whether the piece begins with it. -/
def mark : List UInt8 → List (Bool × UInt8)
  | [] => []
  | b :: rest => (true, b) :: rest.map (false, ·)

/-- The bytes of some pieces, each with whether a piece begins with it. -/
def marks (chunks : List (List UInt8)) : List (Bool × UInt8) := chunks.flatMap mark

/-- The decoder, over marked bytes. -/
def scan : Option Pending → List (Bool × UInt8) → List Char
  | s, [] => flush s
  | s, (begins, b) :: rest =>
    let before := if begins then flush s else []
    let s := if begins then none else s
    before ++ ((step s b.toNat).1 ++ scan (step s b.toNat).2 rest)

theorem scan_false (s : Option Pending) (b : UInt8) (rest : List (Bool × UInt8)) :
    scan s ((false, b) :: rest) = (step s b.toNat).1 ++ scan (step s b.toNat).2 rest := rfl

theorem scan_true (s : Option Pending) (b : UInt8) (rest : List (Bool × UInt8)) :
    scan s ((true, b) :: rest) =
      flush s ++ ((first b.toNat).1 ++ scan (first b.toNat).2 rest) := rfl

theorem scan_map_false (s : Option Pending) (bytes : List UInt8) (rest : List (Bool × UInt8)) :
    scan s (bytes.map (false, ·) ++ rest) = (feed s bytes).1 ++ scan (feed s bytes).2 rest := by
  induction bytes generalizing s with
  | nil => rfl
  | cons b bytes ih => rw [List.map_cons, List.cons_append, scan_false, ih, feed, List.append_assoc]

theorem map_snd_mark (chunk : List UInt8) : (mark chunk).map Prod.snd = chunk := by
  cases chunk with
  | nil => rfl
  | cons b rest => simp [mark, Function.comp_def]

theorem map_snd_marks (chunks : List (List UInt8)) :
    (marks chunks).map Prod.snd = chunks.flatten := by
  induction chunks with
  | nil => rfl
  | cons chunk chunks ih =>
    rw [marks, List.flatMap_cons, List.map_append, map_snd_mark, ← marks, ih, List.flatten_cons]

/-- What was begun before the pieces is given up. -/
theorem scan_marks (s : Option Pending) (chunks : List (List UInt8)) :
    scan s (marks chunks) = flush s ++ scan none (marks chunks) := by
  induction chunks with
  | nil => exact (List.append_nil _).symm
  | cons chunk chunks ih =>
    cases chunk with
    | nil => exact ih
    | cons b rest => rfl

theorem scan_none_marks (chunks : List (List UInt8)) :
    scan none (marks chunks) = decodeChunks chunks := by
  induction chunks with
  | nil => rfl
  | cons chunk chunks ih =>
    rw [decodeChunks, List.map_cons, List.flatten_cons, ← decodeChunks, ← ih, decode]
    cases chunk with
    | nil => rfl
    | cons b rest =>
      rw [marks, List.flatMap_cons, mark, List.cons_append, scan_true, scan_map_false, ← marks,
        scan_marks, feed]
      simp [flush, step]

/-! ## A character in pieces -/

variable {c : Char} {s : Option Pending}

/-- The rest of a character that was given up. -/
theorem scan_continues (rest : List (Bool × UInt8)) {bytes : List (Bool × UInt8)}
    (h : ∀ e ∈ bytes, Continues e.2) :
    scan none (bytes ++ rest) = List.replicate bytes.length replacement ++ scan none rest := by
  induction bytes with
  | nil => rfl
  | cons e bytes ih =>
    obtain ⟨begins, b⟩ := e
    have hb := first_of_continues (h (begins, b) List.mem_cons_self)
    have hrest := ih fun e he => h e (List.mem_cons_of_mem _ he)
    have hfirst : scan none ((begins, b) :: (bytes ++ rest)) =
        (first b.toNat).1 ++ scan (first b.toNat).2 (bytes ++ rest) := by
      cases begins <;> rfl
    rw [List.cons_append, hfirst, hb, hrest, List.length_cons, List.replicate_succ]
    rfl

theorem Awaits.continues {suffix : List UInt8} (h : Awaits c s suffix) :
    ∀ b ∈ suffix, Continues b := by
  induction suffix generalizing s with
  | nil => exact h.elim
  | cons b suffix ih =>
    cases suffix with
    | nil =>
      intro b' hb'
      rw [List.mem_singleton.1 hb']
      exact h.2.1
    | cons b₂ suffix =>
      obtain ⟨-, hb, -, hrest⟩ := h
      intro b' hb'
      rcases List.mem_cons.1 hb' with rfl | hb'
      · exact hb
      · exact ih hrest b' hb'

theorem Awaits.isSome {suffix : List UInt8} (h : Awaits c s suffix) : s.isSome := by
  match suffix, h with
  | [_], h => exact h.1
  | _ :: _ :: _, h => exact h.1

/-- What a character that has begun becomes. -/
theorem scan_awaits (rest : List (Bool × UInt8)) {bytes : List (Bool × UInt8)}
    (h : Awaits c s (bytes.map Prod.snd)) :
    ((∀ e ∈ bytes, e.1 = false) ∧ scan s (bytes ++ rest) = c :: scan none rest) ∨
      (∃ e ∈ bytes, e.1 = true) ∧
        ∃ n, 2 ≤ n ∧ scan s (bytes ++ rest) = List.replicate n replacement ++ scan none rest := by
  induction bytes generalizing s with
  | nil => exact h.elim
  | cons e bytes ih =>
    obtain ⟨begins, b⟩ := e
    cases begins with
    | true =>
      refine Or.inr ⟨⟨_, List.mem_cons_self, rfl⟩, bytes.length + 2, by omega, ?_⟩
      have hcontinues := h.continues
      have hb := first_of_continues (hcontinues b List.mem_cons_self)
      have hrest := scan_continues rest fun e he =>
        hcontinues e.2 (List.mem_cons_of_mem _ (List.mem_map_of_mem he))
      obtain ⟨p, rfl⟩ := Option.isSome_iff_exists.1 h.isSome
      rw [List.cons_append, scan_true, hb, hrest, List.replicate_succ, List.replicate_succ]
      rfl
    | false =>
      cases hbytes : bytes with
      | nil =>
        rw [hbytes] at h
        refine Or.inl ⟨by simp, ?_⟩
        rw [List.cons_append, scan_false, h.2.2]
        rfl
      | cons e₂ bytes₂ =>
        rw [hbytes] at h ih
        obtain ⟨-, -, hempty, hawaits⟩ := h
        rw [List.cons_append, scan_false, hempty, List.nil_append]
        rcases ih hawaits with ⟨hwhole, hscan⟩ | ⟨⟨e, he, hbegins⟩, hscan⟩
        · refine Or.inl ⟨fun e he => ?_, hscan⟩
          rcases List.mem_cons.1 he with rfl | he
          · rfl
          · exact hwhole e he
        · exact Or.inr ⟨⟨e, List.mem_cons_of_mem _ he, hbegins⟩, hscan⟩

/-- What the bytes of a character become. -/
theorem scan_char (rest : List (Bool × UInt8)) {e : Bool × UInt8} {bytes : List (Bool × UInt8)}
    (h : (e :: bytes).map Prod.snd = String.utf8EncodeChar c) :
    ((∀ e ∈ bytes, e.1 = false) ∧ scan none (e :: bytes ++ rest) = c :: scan none rest) ∨
      (∃ e ∈ bytes, e.1 = true) ∧ ∃ n, 2 ≤ n ∧
        scan none (e :: bytes ++ rest) = List.replicate n replacement ++ scan none rest := by
  obtain ⟨begins, b⟩ := e
  have hfirst : scan none ((begins, b) :: bytes ++ rest) =
      (first b.toNat).1 ++ scan (first b.toNat).2 (bytes ++ rest) := by
    cases begins <;> rfl
  rw [hfirst]
  rcases utf8EncodeChar_cases c with ⟨b', hbytes, hstep⟩ | ⟨b', suffix, hbytes, hstep, hawaits⟩
  · rw [hbytes] at h
    obtain ⟨rfl, hnil⟩ := List.cons.inj h
    rw [List.map_eq_nil_iff] at hnil
    subst hnil
    refine Or.inl ⟨nofun, ?_⟩
    dsimp only at hstep ⊢
    rw [hstep]
    rfl
  · rw [hbytes] at h
    obtain ⟨rfl, rfl⟩ := List.cons.inj h
    dsimp only at hstep hawaits ⊢
    rw [hstep, List.nil_append]
    exact scan_awaits rest hawaits

/-! ## A text in pieces -/

variable {chunks : List (List UInt8)} {front text name : List Char}

/-- A piece ends inside the character that follows the text `front`. -/
def Cuts (chunks : List (List UInt8)) (front : List Char) (c : Char) : Prop :=
  ∃ before after, chunks = before ++ after ∧
    (encode front).length < before.flatten.length ∧
    before.flatten.length < (encode (front ++ [c])).length

/-- A piece ends inside a character of the name that follows the text `front`. -/
def Splits (chunks : List (List UInt8)) (front name : List Char) : Prop :=
  ∃ a c b, name = a ++ c :: b ∧ Cuts chunks (front ++ a) c

/-- What is read of a text that follows `front`. -/
inductive Image (chunks : List (List UInt8)) : List Char → List Char → List Char → Prop
  | nil (front : List Char) : Image chunks front [] []
  | kept {front text out : List Char} {c : Char} : ¬ Cuts chunks front c →
      Image chunks (front ++ [c]) text out → Image chunks front (c :: text) (c :: out)
  | lost {front text out : List Char} {c : Char} (n : ℕ) : 2 ≤ n → Cuts chunks front c →
      Image chunks (front ++ [c]) text out →
        Image chunks front (c :: text) (List.replicate n replacement ++ out)

/-- A byte is marked where a piece ends before it. -/
theorem marks_true_iff (chunks : List (List UInt8)) (n : ℕ) :
    (∃ b, (marks chunks)[n]? = some (true, b)) ↔ n < chunks.flatten.length ∧
      ∃ before after, chunks = before ++ after ∧ before.flatten.length = n := by
  induction chunks generalizing n with
  | nil => simp [marks]
  | cons chunk chunks ih =>
    have hlength : (mark chunk).length = chunk.length := by
      rw [← List.length_map Prod.snd, map_snd_mark]
    rw [marks, List.flatMap_cons, ← marks, List.flatten_cons, List.length_append]
    by_cases hn : n < chunk.length
    · rw [List.getElem?_append_left (by omega)]
      cases chunk with
      | nil => cases hn
      | cons b rest =>
        cases n with
        | zero =>
          refine iff_of_true ⟨b, rfl⟩ ⟨by omega, [], _, rfl, rfl⟩
        | succ n =>
          refine iff_of_false ?_ ?_
          · rintro ⟨b', hb'⟩
            rw [mark, List.getElem?_cons_succ, List.getElem?_map, Option.map_eq_some_iff] at hb'
            obtain ⟨_, -, hpair⟩ := hb'
            cases hpair
          · rintro ⟨-, before, after, hsplit, hbefore⟩
            cases before with
            | nil => cases hbefore
            | cons first before =>
              obtain ⟨rfl, -⟩ := List.cons.inj hsplit
              rw [List.flatten_cons, List.length_append] at hbefore
              omega
    · rw [List.getElem?_append_right (by omega), hlength, ih]
      constructor
      · rintro ⟨hlt, before, after, rfl, hbefore⟩
        refine ⟨by omega, chunk :: before, after, rfl, ?_⟩
        rw [List.flatten_cons, List.length_append]
        omega
      · rintro ⟨hlt, before, after, hsplit, hbefore⟩
        refine ⟨by omega, ?_⟩
        cases before with
        | nil =>
          rw [List.flatten_nil, List.length_nil] at hbefore
          exact ⟨[], chunks, rfl, by rw [← hbefore, Nat.zero_sub]; rfl⟩
        | cons first before =>
          obtain ⟨rfl, rfl⟩ := List.cons.inj hsplit
          rw [List.flatten_cons, List.length_append] at hbefore
          exact ⟨before, after, rfl, by omega⟩

/-- The bytes of a character are cut where one of them but the first is marked. -/
theorem cuts_iff {before rest bytes : List (Bool × UInt8)} {e : Bool × UInt8}
    (hmarks : marks chunks = before ++ (e :: bytes ++ rest))
    (hfront : before.map Prod.snd = encode front)
    (hchar : (e :: bytes).map Prod.snd = String.utf8EncodeChar c) :
    Cuts chunks front c ↔ ∃ e ∈ bytes, e.1 = true := by
  have hbefore : before.length = (encode front).length := by
    rw [← hfront, List.length_map]
  have hbytes : bytes.length + 1 = (String.utf8EncodeChar c).length := by
    rw [← hchar, List.length_map, List.length_cons]
  have htotal : chunks.flatten.length = before.length + (bytes.length + 1 + rest.length) := by
    rw [← map_snd_marks, List.length_map, hmarks, List.length_append, List.length_append,
      List.length_cons]
  have hend : (encode (front ++ [c])).length = before.length + (bytes.length + 1) := by
    rw [encode_append, encode_singleton, List.length_append, hbefore, hbytes]
  -- the byte at a place behind the first one
  have hplace {n : ℕ} (hlow : before.length < n) (hhigh : n < before.length + (bytes.length + 1)) :
      (marks chunks)[n]? = bytes[n - before.length - 1]? := by
    rw [hmarks, List.getElem?_append_right (by omega), List.getElem?_append_left (by
      rw [List.length_cons]; omega)]
    obtain ⟨m, hm⟩ : ∃ m, n - before.length = m + 1 := ⟨n - before.length - 1, by omega⟩
    rw [hm, List.getElem?_cons_succ, Nat.add_sub_cancel]
  constructor
  · rintro ⟨first, last, hsplit, hlow, hhigh⟩
    rw [hend] at hhigh
    rw [← hbefore] at hlow
    obtain ⟨b, hb⟩ := (marks_true_iff chunks first.flatten.length).2
      ⟨by omega, first, last, hsplit, rfl⟩
    rw [hplace hlow hhigh] at hb
    exact ⟨_, List.mem_of_getElem? hb, rfl⟩
  · rintro ⟨⟨begins, b⟩, hmem, rfl⟩
    obtain ⟨i, hi, hbyte⟩ := List.mem_iff_getElem.1 hmem
    have hb : (marks chunks)[before.length + (i + 1)]? = some (true, b) := by
      rw [hplace (by omega) (by omega), List.getElem?_eq_some_iff]
      refine ⟨by omega, ?_⟩
      rw [← hbyte]
      congr 1
      omega
    obtain ⟨-, first, last, hsplit, hfirst⟩ := (marks_true_iff chunks _).1 ⟨b, hb⟩
    exact ⟨first, last, hsplit, by omega, by omega⟩

/-- The decoder reads a text but for the characters that are cut. -/
theorem image_scan {before after : List (Bool × UInt8)} (hmarks : marks chunks = before ++ after)
    (hfront : before.map Prod.snd = encode front) (htext : after.map Prod.snd = encode text) :
    Image chunks front text (scan none after) := by
  induction text generalizing front before after with
  | nil =>
    rw [encode_nil, List.map_eq_nil_iff] at htext
    rw [htext]
    exact .nil front
  | cons c text ih =>
    rw [encode_cons, List.map_eq_append_iff] at htext
    obtain ⟨char, rest, rfl, hchar, hrest⟩ := htext
    cases char with
    | nil => exact absurd hchar.symm String.utf8EncodeChar_ne_nil
    | cons e bytes =>
      have hcuts := cuts_iff hmarks hfront hchar
      have hnext : marks chunks = (before ++ e :: bytes) ++ rest := by
        rw [hmarks, List.append_assoc]
      have himage : Image chunks (front ++ [c]) text (scan none rest) := by
        refine ih hnext ?_ hrest
        rw [List.map_append, hfront, hchar, encode_append, encode_singleton]
      rcases scan_char rest hchar with ⟨hwhole, hscan⟩ | ⟨hcut, n, hn, hscan⟩
      · rw [hscan]
        refine .kept (fun hcut => ?_) himage
        obtain ⟨e', he', hbegins⟩ := hcuts.1 hcut
        rw [hwhole e' he'] at hbegins
        cases hbegins
      · rw [hscan]
        exact .lost n hn (hcuts.2 hcut) himage

/-- **Reading in pieces.** -/
theorem image_decodeChunks (h : chunks.flatten = encode text) :
    Image chunks [] text (decodeChunks chunks) := by
  rw [← scan_none_marks]
  exact image_scan (List.nil_append _).symm rfl ((map_snd_marks chunks).trans h)

/-! ## What is read of a name -/

variable {out : List Char}

theorem Image.append {a b : List Char} (h : Image chunks front (a ++ b) out) :
    ∃ o₁ o₂, out = o₁ ++ o₂ ∧ Image chunks front a o₁ ∧ Image chunks (front ++ a) b o₂ := by
  induction a generalizing front out with
  | nil => exact ⟨[], out, rfl, .nil front, by rwa [List.append_nil]⟩
  | cons c a ih =>
    rw [List.cons_append] at h
    cases h with
    | kept hcut h =>
      obtain ⟨o₁, o₂, rfl, h₁, h₂⟩ := ih h
      refine ⟨c :: o₁, o₂, rfl, .kept hcut h₁, ?_⟩
      rwa [List.append_assoc, List.singleton_append] at h₂
    | lost n hn hcut h =>
      obtain ⟨o₁, o₂, rfl, h₁, h₂⟩ := ih h
      refine ⟨List.replicate n replacement ++ o₁, o₂, (List.append_assoc _ _ _).symm,
        .lost n hn hcut h₁, ?_⟩
      rwa [List.append_assoc, List.singleton_append] at h₂

theorem Image.length_le (h : Image chunks front text out) : text.length ≤ out.length := by
  induction h with
  | nil => exact le_rfl
  | kept _ _ ih => exact Nat.succ_le_succ ih
  | lost n hn _ _ ih =>
    rw [List.length_cons, List.length_append, List.length_replicate]
    omega

theorem splits_cons_iff : Splits chunks front (c :: text) ↔
    Cuts chunks front c ∨ Splits chunks (front ++ [c]) text := by
  constructor
  · rintro ⟨a, d, b, hsplit, hcut⟩
    cases a with
    | nil =>
      obtain ⟨rfl, -⟩ := List.cons.inj hsplit
      rw [List.append_nil] at hcut
      exact Or.inl hcut
    | cons e a =>
      obtain ⟨rfl, rfl⟩ := List.cons.inj hsplit
      refine Or.inr ⟨a, d, b, rfl, ?_⟩
      rwa [List.append_assoc, List.singleton_append]
  · rintro (hcut | ⟨a, d, b, rfl, hcut⟩)
    · exact ⟨[], c, text, rfl, by rwa [List.append_nil]⟩
    · refine ⟨c :: a, d, b, rfl, ?_⟩
      rwa [List.append_assoc, List.singleton_append] at hcut

theorem not_splits_nil : ¬ Splits chunks front [] := by
  rintro ⟨a, c, b, hsplit, -⟩
  exact absurd hsplit (by simp)

/-- A name whose characters are whole is read back. -/
theorem Image.eq_of_not_splits (h : Image chunks front text out)
    (hwhole : ¬ Splits chunks front text) : out = text := by
  induction h with
  | nil => rfl
  | kept hcut _ ih =>
    rw [splits_cons_iff, not_or] at hwhole
    rw [ih hwhole.2]
  | lost n hn hcut _ ih =>
    rw [splits_cons_iff, not_or] at hwhole
    exact absurd hcut hwhole.1

/-- A name with a character that is cut gets longer. -/
theorem Image.length_lt (h : Image chunks front text out) (hcut : Splits chunks front text) :
    text.length < out.length := by
  induction h with
  | nil => exact absurd hcut not_splits_nil
  | kept hwhole _ ih =>
    rw [splits_cons_iff] at hcut
    exact Nat.succ_lt_succ (ih (hcut.resolve_left hwhole))
  | lost n hn _ h ih =>
    have hle := h.length_le
    rw [List.length_cons, List.length_append, List.length_replicate]
    omega

/-- A character that is cut leaves replacement characters. -/
theorem Image.replacement_mem (h : Image chunks front text out) (hcut : Splits chunks front text) :
    replacement ∈ out := by
  induction h with
  | nil => exact absurd hcut not_splits_nil
  | kept hwhole _ ih =>
    rw [splits_cons_iff] at hcut
    exact List.mem_cons_of_mem _ (ih (hcut.resolve_left hwhole))
  | lost n hn _ _ _ =>
    rw [List.mem_append, List.mem_replicate]
    exact Or.inl ⟨by omega, rfl⟩

/-- **Reading a name.** -/
theorem Image.eq_iff (h : Image chunks front text out) :
    out = text ↔ ¬ Splits chunks front text := by
  refine ⟨fun heq hcut => ?_, h.eq_of_not_splits⟩
  have hlt := h.length_lt hcut
  rw [heq] at hlt
  exact lt_irrefl _ hlt

theorem Image.mem (h : Image chunks front text out) {d : Char} (hd : d ∈ out) :
    d ∈ text ∨ d = replacement := by
  induction h with
  | nil => cases hd
  | kept _ _ ih =>
    rcases List.mem_cons.1 hd with rfl | hd
    · exact Or.inl List.mem_cons_self
    · exact (ih hd).imp_left (List.mem_cons_of_mem _)
  | lost n _ _ _ ih =>
    rcases List.mem_append.1 hd with hd | hd
    · exact Or.inr (List.eq_of_mem_replicate hd)
    · exact (ih hd).imp_left (List.mem_cons_of_mem _)

theorem Image.not_mem (h : Image chunks front text out) {d : Char} (hd : d ∉ text)
    (hne : d ≠ replacement) : d ∉ out := fun hmem =>
  (h.mem hmem).elim hd hne

/-- Of characters like U+FFFD there are no fewer in what is read. -/
theorem Image.countP_le {p : Char → Bool} (hp : p replacement = true)
    (h : Image chunks front text out) : text.countP p ≤ out.countP p := by
  induction h with
  | nil => exact le_rfl
  | kept _ _ ih =>
    rw [List.countP_cons, List.countP_cons]
    exact Nat.add_le_add_right ih _
  | lost n hn _ _ ih =>
    rw [List.countP_cons, List.countP_append, List.countP_replicate, if_pos hp]
    split <;> omega

/-- With a character that is cut there are more. -/
theorem Image.countP_lt {p : Char → Bool} (hp : p replacement = true)
    (h : Image chunks front text out) (hcut : Splits chunks front text) :
    text.countP p < out.countP p := by
  induction h with
  | nil => exact absurd hcut not_splits_nil
  | kept hwhole _ ih =>
    rw [splits_cons_iff] at hcut
    rw [List.countP_cons, List.countP_cons]
    exact Nat.add_lt_add_right (ih (hcut.resolve_left hwhole)) _
  | lost n hn _ h ih =>
    have hle := h.countP_le hp
    rw [List.countP_cons, List.countP_append, List.countP_replicate, if_pos hp]
    split <;> omega

/-- A text that is read with no more of them is read back. -/
theorem Image.eq_of_countP_le {p : Char → Bool} (hp : p replacement = true)
    (h : Image chunks front text out) (hle : out.countP p ≤ text.countP p) : out = text :=
  h.eq_of_not_splits fun hcut => absurd (h.countP_lt hp hcut) (not_lt.2 hle)

/-- A character of one byte is not cut. -/
theorem not_cuts_of_ascii (hc : c.toNat ≤ 0x7f) : ¬ Cuts chunks front c := by
  rintro ⟨before, after, -, hlow, hhigh⟩
  have hone : (String.utf8EncodeChar c).length = 1 := by
    have hval : c.val.toNat ≤ 0x7f := hc
    rw [String.utf8EncodeChar, if_pos hval]
    rfl
  rw [encode_append, encode_singleton, List.length_append, hone] at hhigh
  omega

theorem not_splits_of_ascii (h : ∀ c ∈ text, c.toNat ≤ 0x7f) : ¬ Splits chunks front text := by
  rintro ⟨a, c, b, rfl, hcut⟩
  exact not_cuts_of_ascii (h c (by simp)) hcut

theorem forall_ascii {text : List Char} (h : text.all (fun c => c.toNat ≤ 0x7f) = true) :
    ∀ c ∈ text, c.toNat ≤ 0x7f := by
  simpa using h

/-- A text of one-byte characters is read back. -/
theorem Image.eq_of_ascii (h : Image chunks front text out) (hascii : ∀ c ∈ text, c.toNat ≤ 0x7f) :
    out = text :=
  h.eq_of_not_splits (not_splits_of_ascii hascii)

/-- What is read begins with the first character, or with one that was lost. -/
theorem Image.head_cons (h : Image chunks front (c :: text) out) :
    ∃ d rest, out = d :: rest ∧ (d = c ∨ d = replacement) := by
  cases h with
  | kept _ _ => exact ⟨_, _, rfl, Or.inl rfl⟩
  | lost n hn _ _ =>
    obtain ⟨m, rfl⟩ : ∃ m, n = m + 1 := ⟨n - 1, by omega⟩
    exact ⟨_, _, rfl, Or.inr rfl⟩

/-- What is read ends with the last character, or with one that was lost. -/
theorem Image.concat (h : Image chunks front (text ++ [c]) out) :
    ∃ d rest, out = rest ++ [d] ∧ (d = c ∨ d = replacement) := by
  obtain ⟨o₁, o₂, rfl, -, h₂⟩ := h.append
  cases h₂ with
  | kept _ hnil =>
    cases hnil
    exact ⟨_, _, rfl, Or.inl rfl⟩
  | lost n hn _ hnil =>
    cases hnil
    obtain ⟨m, rfl⟩ : ∃ m, n = m + 1 := ⟨n - 1, by omega⟩
    refine ⟨replacement, o₁ ++ List.replicate m replacement, ?_, Or.inr rfl⟩
    rw [List.replicate_succ', List.append_nil, List.append_assoc]

theorem encode_flatten (texts : List (List Char)) :
    encode texts.flatten = (texts.map encode).flatten := by
  induction texts with
  | nil => rfl
  | cons text texts ih => rw [List.map_cons, List.flatten_cons, List.flatten_cons, encode_append, ih]

/-- Pieces that are texts themselves cut no character. -/
theorem not_splits_texts (texts : List (List Char)) :
    ¬ Splits (texts.map encode) [] texts.flatten := by
  rintro ⟨a, c, b, heq, before, after, hsplit, hlow, hhigh⟩
  obtain ⟨first, rest, rfl, rfl, rfl⟩ := List.map_eq_append_iff.1 hsplit
  rw [← encode_flatten] at hlow hhigh
  rw [List.flatten_append] at heq
  -- the first pieces end before the character or behind it
  rcases List.append_eq_append_iff.1 heq with ⟨more, rfl, -⟩ | ⟨more, hfirst, hmore⟩
  · rw [List.nil_append, encode_append, List.length_append] at hlow
    omega
  · cases more with
    | nil =>
      rw [hfirst, List.append_nil, List.nil_append] at hlow
      omega
    | cons d more =>
      obtain ⟨rfl, -⟩ := List.cons.inj hmore
      rw [hfirst, List.nil_append, List.append_cons, encode_append _ more,
        List.length_append] at hhigh
      omega

theorem not_splits_singleton : ¬ Splits [encode text] [] text := by
  have hwhole := not_splits_texts [text]
  rwa [List.map_singleton, List.flatten_singleton] at hwhole

/-- A text in two pieces, behind its first `n` characters. -/
def halves (n : ℕ) (text : List Char) : List (List UInt8) :=
  [encode (text.take n), encode (text.drop n)]

theorem halves_flatten (n : ℕ) (text : List Char) : (halves n text).flatten = encode text := by
  rw [halves, List.flatten_cons, List.flatten_singleton, ← encode_append, List.take_append_drop]

theorem not_splits_halves (n : ℕ) : ¬ Splits (halves n text) [] text := by
  have hwhole := not_splits_texts [text.take n, text.drop n]
  rwa [List.flatten_cons, List.flatten_singleton, List.take_append_drop] at hwhole

/-- What is cut in a part is cut in the whole. -/
theorem Splits.of_part (h : Splits chunks front name) (back : List Char) :
    Splits chunks [] (front ++ name ++ back) := by
  obtain ⟨a, c, b, rfl, hcut⟩ := h
  exact ⟨front ++ a, c, b ++ back, by simp, hcut⟩

theorem decode_encode (text : List Char) : decode (encode text) = text := by
  have himage : Image [encode text] [] text (decodeChunks [encode text]) :=
    image_decodeChunks List.flatten_singleton
  have heq := himage.eq_of_not_splits not_splits_singleton
  rwa [decodeChunks, List.map_singleton, List.flatten_singleton] at heq

/-- A character of several bytes can be cut. -/
theorem exists_splits {a b : List Char} (hc : 0x7f < c.toNat) :
    ∃ chunks : List (List UInt8), chunks.flatten = encode (a ++ c :: b) ∧
      Splits chunks [] (a ++ c :: b) := by
  have hsize : c.utf8Size ≠ 1 := by
    rw [ne_eq, Char.utf8Size_eq_one_iff, UInt32.le_iff_toNat_le, not_le]
    exact hc
  have hpos := c.utf8Size_pos
  have hlen : (encode (a ++ [c])).length = (encode a).length + c.utf8Size := by
    rw [encode_append, encode_singleton, List.length_append, String.length_utf8EncodeChar]
  have htotal : (encode (a ++ c :: b)).length =
      (encode a).length + c.utf8Size + (encode b).length := by
    rw [← List.singleton_append, ← List.append_assoc, encode_append, List.length_append, hlen]
  let n := (encode a).length + 1
  have hfirst : ((encode (a ++ c :: b)).take n).length = n := by
    rw [List.length_take, htotal]
    omega
  refine ⟨[(encode (a ++ c :: b)).take n, (encode (a ++ c :: b)).drop n], ?_, a, c, b, rfl,
    [(encode (a ++ c :: b)).take n], [(encode (a ++ c :: b)).drop n], rfl, ?_, ?_⟩
  · rw [List.flatten_cons, List.flatten_singleton, List.take_append_drop]
  · rw [List.flatten_singleton, hfirst, List.nil_append]
    exact Nat.lt_succ_self _
  · rw [List.flatten_singleton, hfirst, List.nil_append, hlen]
    omega

end Utf8
