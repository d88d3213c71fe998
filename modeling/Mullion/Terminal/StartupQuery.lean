import Mathlib.Data.List.Infix
import Mullion.Text

/-!
# Startup queries of a terminal

`terminal-query-reply.ts` answers the color queries `ESC ] 10 ; ?` to `ESC ] 12 ; ?`, ended by `BEL`
or `ESC \`, and the query `ESC [ c` or `ESC [ 0 c`, and takes them out of what is forwarded. Each
query should be answered once and in order, and none should be left in what is forwarded.

`Reading` is one way to read a text, as queries and other characters; every text has exactly one
(`exists_reading`), and the search of the source finds its queries (`Reading.found`). So the answers
are those of the queries, and what is forwarded are the other characters (`answer_ne_nil`,
`rest_eq`). Taking queries out brings together what stood on both sides of them. Whether that makes
another query is a question about the characters of a query with whole queries between them: no
query can begin inside another one but at its `ESC`, and from there both directions follow
(`left_iff`). So what is left holds a query exactly if the data holds an `Interrupted` one.
`answered_iff` has all of this, `query_is_left` the case that fails.
-/

namespace Mullion
namespace Terminal
namespace StartupQuery

/-! ## The functions of the source -/

/-- `TerminalPalette`, its colors as `#rrggbb`. -/
structure TerminalPalette where
  foreground : List Char
  background : List Char
  cursor : List Char
  deriving DecidableEq, Repr

/-- The first group of `STARTUP_QUERY_RE`. -/
inductive Ident
  | foreground
  | background
  | cursor
  deriving DecidableEq, Repr

namespace Ident

def text : Ident → List Char
  | .foreground => ['1', '0']
  | .background => ['1', '1']
  | .cursor => ['1', '2']

/-- `1[012]`. -/
def ofText : Char → Char → Option Ident
  | '1', '0' => some .foreground
  | '1', '1' => some .background
  | '1', '2' => some .cursor
  | _, _ => none

end Ident

/-- What `STARTUP_QUERY_RE` matches; `st` for a query that ends in `ESC \`. -/
inductive Query
  | color (ident : Ident) (st : Bool)
  | da1 (zero : Bool)
  deriving DecidableEq, Repr

def Query.text : Query → List Char
  | .color ident st =>
    '\x1b' :: ']' :: (ident.text ++ ';' :: '?' :: if st then ['\x1b', '\\'] else ['\x07'])
  | .da1 zero => '\x1b' :: '[' :: if zero then ['0', 'c'] else ['c']

/-- `(?:\x07|\x1b\\)` behind `\x1b\](1[012]);\?`. -/
def colorEnd (ident : Ident) : List Char → Option (Query × Nat)
  | '\x07' :: _ => some (.color ident false, 7)
  | '\x1b' :: '\\' :: _ => some (.color ident true, 8)
  | _ => none

/-- `STARTUP_QUERY_RE` at the front of a text. -/
def startupQueryRe : List Char → Option (Query × Nat)
  | '\x1b' :: ']' :: a :: b :: ';' :: '?' :: rest =>
    (Ident.ofText a b).bind fun ident => colorEnd ident rest
  | '\x1b' :: '[' :: '0' :: 'c' :: _ => some (.da1 true, 4)
  | '\x1b' :: '[' :: 'c' :: _ => some (.da1 false, 3)
  | _ => none

/-- `DA1_REPLY`. -/
def da1Reply : List Char := ['\x1b', '[', '?', '1', ';', '2', 'c']

/-- `oscReply`. -/
def oscReply (ident hex : List Char) : List Char :=
  let clean := hex.drop 1
  let r := clean.take 2
  let g := (clean.drop 2).take 2
  let b := (clean.drop 4).take 2
  ['\x1b', ']'] ++ ident ++ [';', 'r', 'g', 'b', ':'] ++ r ++ r ++ ['/'] ++ g ++ g ++ ['/'] ++ b ++
    b ++ ['\x07']

namespace TerminalPalette

/-- The color that an OSC query asks for. -/
def color (p : TerminalPalette) : Ident → List Char
  | .foreground => p.foreground
  | .background => p.background
  | .cursor => p.cursor

/-- What the loop of `buildStartupQueryReplies` adds for a match. -/
def answer (p : TerminalPalette) : Query → List Char
  | .da1 _ => da1Reply
  | .color ident _ => oscReply ident.text (p.color ident)

end TerminalPalette

def buildStartupQueryReplies (data : List Char) (current : Option TerminalPalette) : List Char :=
  match current with
  | none => []
  | some p =>
    if '\x1b' ∉ data then [] else (Text.found startupQueryRe data).flatMap p.answer

/-- What `splitStartupQueries` returns. -/
structure Split where
  reply : List Char
  rest : List Char
  deriving DecidableEq, Repr

def splitStartupQueries (data : List Char) (current : Option TerminalPalette) : Split :=
  let reply := buildStartupQueryReplies data current
  ⟨reply, if reply = [] then data else Text.removeAll startupQueryRe data⟩

/-! ## The queries of a text -/

/-- The text holds these queries, in order, and is `out` without them. -/
inductive Reading : List Char → List Query → List Char → Prop
  | nil : Reading [] [] []
  | query (q : Query) {text qs out} (h : Reading text qs out) :
      Reading (q.text ++ text) (q :: qs) out
  | char (c : Char) {text qs out} (hc : ∀ q : Query, ¬ q.text <+: c :: text)
      (h : Reading text qs out) : Reading (c :: text) qs (c :: out)

/-- A text begins with these characters, with any number of whole queries between them. -/
inductive Through : List Char → List Char → Prop
  | nil (text : List Char) : Through [] text
  | char (c : Char) {chars text} (h : Through chars text) : Through (c :: chars) (c :: text)
  | query (q : Query) {chars text} (h : Through chars text) : Through chars (q.text ++ text)

/-- Somewhere in the text stand the characters of a query, with whole queries between them. -/
def Interrupted (data : List Char) : Prop :=
  ∃ front text, data = front ++ text ∧
    ∃ q : Query, Through q.text text ∧ ∀ r : Query, ¬ r.text <+: text

/-! ## Matching -/

theorem startupQueryRe_text (q : Query) (rest : List Char) :
    startupQueryRe (q.text ++ rest) = some (q, q.text.length) := by
  cases q with
  | color ident st => cases ident <;> cases st <;> rfl
  | da1 zero => cases zero <;> rfl

theorem ofText_eq_some {a b : Char} {ident : Ident} (h : Ident.ofText a b = some ident) :
    [a, b] = ident.text := by
  unfold Ident.ofText at h
  split at h <;> cases h <;> rfl

theorem colorEnd_eq_some {ident : Ident} {rest : List Char} {q : Query} {n : Nat}
    (h : colorEnd ident rest = some (q, n)) :
    ∃ st tail, q = .color ident st ∧ n = q.text.length ∧
      rest = (if st then ['\x1b', '\\'] else ['\x07']) ++ tail := by
  unfold colorEnd at h
  split at h
  · cases h
    exact ⟨false, _, rfl, by cases ident <;> rfl, rfl⟩
  · cases h
    exact ⟨true, _, rfl, by cases ident <;> rfl, rfl⟩
  · cases h

/-- What matches is a query. -/
theorem eq_of_startupQueryRe {text : List Char} {q : Query} {n : Nat}
    (h : startupQueryRe text = some (q, n)) :
    n = q.text.length ∧ ∃ rest, text = q.text ++ rest := by
  unfold startupQueryRe at h
  split at h
  · obtain ⟨ident, hident, hend⟩ := Option.bind_eq_some_iff.1 h
    obtain ⟨st, tail, rfl, hn, rfl⟩ := colorEnd_eq_some hend
    refine ⟨hn, tail, ?_⟩
    rw [Query.text, ← ofText_eq_some hident]
    simp
  · cases h
    exact ⟨rfl, _, rfl⟩
  · cases h
    exact ⟨rfl, _, rfl⟩
  · cases h

theorem startupQueryRe_eq_none_iff (text : List Char) :
    startupQueryRe text = none ↔ ∀ q : Query, ¬ q.text <+: text := by
  constructor
  · rintro h q ⟨rest, rfl⟩
    rw [startupQueryRe_text] at h
    cases h
  · intro h
    cases hm : startupQueryRe text with
    | none => rfl
    | some m =>
      obtain ⟨-, rest, hrest⟩ := eq_of_startupQueryRe hm
      exact absurd ⟨rest, hrest.symm⟩ (h m.1)

theorem length_text_pos (q : Query) : 0 < q.text.length := by
  cases q <;> simp [Query.text]

/-- A text that begins with a query, without it. -/
theorem drop_query (q : Query) (rest : List Char) :
    ∃ c tail, q.text ++ rest = c :: tail ∧ tail.drop (q.text.length - 1) = rest := by
  have hlen := length_text_pos q
  obtain ⟨c, tail, htext⟩ := List.exists_cons_of_length_pos hlen
  refine ⟨c, tail ++ rest, by rw [htext, List.cons_append], ?_⟩
  rw [htext, List.length_cons, Nat.add_sub_cancel, List.drop_left]

theorem removeAll_query (q : Query) (rest : List Char) :
    Text.removeAll startupQueryRe (q.text ++ rest) = Text.removeAll startupQueryRe rest := by
  obtain ⟨c, tail, htext, hdrop⟩ := drop_query q rest
  rw [htext, Text.removeAll_cons_some startupQueryRe (htext ▸ startupQueryRe_text q rest), hdrop]

theorem found_query (q : Query) (rest : List Char) :
    Text.found startupQueryRe (q.text ++ rest) = q :: Text.found startupQueryRe rest := by
  obtain ⟨c, tail, htext, hdrop⟩ := drop_query q rest
  rw [htext, Text.found_cons_some startupQueryRe (htext ▸ startupQueryRe_text q rest), hdrop]

/-- The functions of the source follow a reading. -/
theorem Reading.found {text out : List Char} {qs : List Query} (h : Reading text qs out) :
    Text.found startupQueryRe text = qs ∧ Text.removeAll startupQueryRe text = out := by
  induction h with
  | nil => exact ⟨rfl, rfl⟩
  | query q _ ih => rw [found_query, removeAll_query, ih.1, ih.2]; exact ⟨rfl, rfl⟩
  | char c hc _ ih =>
    have hnone := (startupQueryRe_eq_none_iff _).2 hc
    rw [Text.found_cons_none startupQueryRe hnone, Text.removeAll_cons_none startupQueryRe hnone,
      ih.1, ih.2]
    exact ⟨rfl, rfl⟩

theorem exists_reading (text : List Char) : ∃ qs out, Reading text qs out := by
  induction hlen : text.length using Nat.strongRecOn generalizing text with
  | _ n ih =>
    cases hm : startupQueryRe text with
    | some m =>
      obtain ⟨-, rest, rfl⟩ := eq_of_startupQueryRe hm
      have hlt : rest.length < n := by
        have := length_text_pos m.1
        rw [List.length_append] at hlen
        omega
      obtain ⟨qs, out, h⟩ := ih rest.length hlt rest rfl
      exact ⟨m.1 :: qs, out, .query m.1 h⟩
    | none =>
      cases text with
      | nil => exact ⟨[], [], .nil⟩
      | cons c text =>
        obtain ⟨qs, out, h⟩ := ih text.length (by rw [← hlen]; exact Nat.lt_succ_self _) text rfl
        exact ⟨qs, c :: out, .char c ((startupQueryRe_eq_none_iff _).1 hm) h⟩

/-! ## What is left -/

/-- What is left at the front of a text stands in it, with whole queries between. -/
theorem through_of_left {text chars out : List Char} {qs : List Query}
    (h : Reading text qs (chars ++ out)) : Through chars text := by
  generalize hleft : chars ++ out = left at h
  induction h generalizing chars with
  | nil =>
    obtain ⟨rfl, -⟩ := List.append_eq_nil_iff.1 hleft
    exact .nil []
  | query q _ ih => exact .query q (ih hleft)
  | char c _ _ ih =>
    cases chars with
    | nil => exact .nil _
    | cons d chars =>
      obtain ⟨rfl, hrest⟩ := List.cons.inj hleft
      exact .char d (ih hrest)

/-- What is left behind a place of what is left is left of a part of the text that begins with no
query. -/
theorem exists_behind {text out₁ out₂ : List Char} {qs : List Query}
    (h : Reading text qs (out₁ ++ out₂)) (hout : out₂ ≠ []) :
    ∃ front text' qs', text = front ++ text' ∧ Reading text' qs' out₂ ∧
      ∀ r : Query, ¬ r.text <+: text' := by
  generalize hleft : out₁ ++ out₂ = left at h
  induction h generalizing out₁ with
  | nil => exact absurd (List.append_eq_nil_iff.1 hleft).2 hout
  | query q _ ih =>
    obtain ⟨front, text', qs', rfl, hreading, hnone⟩ := ih hleft
    exact ⟨q.text ++ front, text', qs', (List.append_assoc _ _ _).symm, hreading, hnone⟩
  | @char c text qs out hc h ih =>
    cases out₁ with
    | nil =>
      rw [List.nil_append] at hleft
      exact ⟨[], c :: text, qs, rfl, hleft ▸ .char c hc h, hc⟩
    | cons d out₁ =>
      obtain ⟨-, hrest⟩ := List.cons.inj hleft
      obtain ⟨front, text', qs', rfl, hreading, hnone⟩ := ih hrest
      exact ⟨c :: front, text', qs', rfl, hreading, hnone⟩

/-! ## Through a query -/

theorem head_text (q : Query) : q.text.head? = some '\x1b' := by cases q <;> rfl

theorem Through.cons_of_ne {a b : Char} {chars text : List Char} (hb : b ≠ '\x1b')
    (h : Through (a :: chars) (b :: text)) : a = b ∧ Through chars text := by
  generalize hchars : a :: chars = cs at h
  generalize htext : b :: text = t at h
  cases h with
  | nil => cases hchars
  | char c h =>
    obtain ⟨rfl, rfl⟩ := List.cons.inj hchars
    obtain ⟨rfl, rfl⟩ := List.cons.inj htext
    exact ⟨rfl, h⟩
  | query q h =>
    have hhead := head_text q
    cases hq : q.text with
    | nil => rw [hq] at hhead; cases hhead
    | cons d tail =>
      rw [hq] at hhead htext
      obtain rfl : b = d := (List.cons.inj htext).1
      exact absurd (Option.some.inj hhead) hb

/-- Behind an `ESC \` only an `ESC \` goes on. -/
theorem Through.cons_st {a : Char} {chars text : List Char}
    (h : Through (a :: chars) ('\x1b' :: '\\' :: text)) :
    a = '\x1b' ∧ Through chars ('\\' :: text) := by
  generalize hchars : a :: chars = cs at h
  generalize htext : '\x1b' :: '\\' :: text = t at h
  cases h with
  | nil => cases hchars
  | char c h =>
    obtain ⟨rfl, rfl⟩ := List.cons.inj hchars
    obtain ⟨rfl, rfl⟩ := List.cons.inj htext
    exact ⟨rfl, h⟩
  | query q h =>
    cases q <;> simp [Query.text] at htext

/-- The only other `ESC` of a query is that of its `ESC \`. -/
theorem escape_inside {r : Query} {a : Char} {front tail : List Char}
    (h : r.text = a :: (front ++ '\x1b' :: tail)) : tail = ['\\'] := by
  have hall : ∀ k ≤ 8, (r.text.drop (k + 1)).head? = some '\x1b' →
      r.text.drop (k + 1) = ['\x1b', '\\'] := by
    cases r with
    | color ident st => cases ident <;> cases st <;> decide
    | da1 zero => cases zero <;> decide
  have hlen : r.text.length ≤ 8 := by
    cases r with
    | color ident st => cases ident <;> cases st <;> decide
    | da1 zero => cases zero <;> decide
  have hdrop : r.text.drop (front.length + 1) = '\x1b' :: tail := by
    rw [h, List.drop_succ_cons, List.drop_left]
  have hfront : front.length ≤ 8 := by
    rw [h, List.length_cons, List.length_append] at hlen
    omega
  have htail := hall front.length hfront (by rw [hdrop]; rfl)
  rw [hdrop] at htail
  exact (List.cons.inj htail).2

/-- The second character of a query. -/
theorem exists_second (q : Query) :
    ∃ c tail, q.text = '\x1b' :: c :: tail ∧ c ≠ '\\' ∧ c ≠ '\x1b' := by
  cases q with
  | color ident st => exact ⟨']', _, rfl, by decide, by decide⟩
  | da1 zero => exact ⟨'[', _, rfl, by decide, by decide⟩

/-- No query goes through a text that begins inside one. -/
theorem not_through_inside {q r : Query} {a : Char} {front : List Char} {b : Char}
    {tail : List Char} (h : r.text = a :: (front ++ b :: tail)) (text : List Char) :
    ¬ Through q.text (b :: tail ++ text) := by
  intro hthrough
  obtain ⟨c, rest, hq, hc, -⟩ := exists_second q
  rw [hq, List.cons_append] at hthrough
  by_cases hb : b = '\x1b'
  · subst hb
    rw [escape_inside h, List.singleton_append] at hthrough
    exact hc (Through.cons_of_ne (by decide) hthrough.cons_st.2).1
  · exact hb (Through.cons_of_ne hb hthrough).1.symm

/-- The characters that a query goes through, behind its first one, are left. -/
theorem left_of_through {q : Query} {chars text : List Char} (h : Through chars text)
    (hchars : chars <:+ q.text) (hfirst : chars = q.text → ∀ r : Query, ¬ r.text <+: text)
    {qs : List Query} {out : List Char} (hreading : Reading text qs out) :
    ∃ rest, out = chars ++ rest := by
  induction h generalizing qs out with
  | nil => exact ⟨out, rfl⟩
  | @char c chars text h ih =>
    obtain ⟨before, hbefore⟩ := hchars
    have hsuffix : chars <:+ q.text := ⟨before ++ [c], by
      rw [List.append_assoc, List.singleton_append, hbefore]⟩
    have hproper : chars ≠ q.text := by
      intro heq
      have hlen := congrArg List.length hbefore
      rw [← heq, List.length_append, List.length_cons] at hlen
      omega
    generalize htext : c :: text = whole at hreading
    cases hreading with
    | nil => cases htext
    | char d hd hrest =>
      obtain ⟨rfl, rfl⟩ := List.cons.inj htext
      obtain ⟨rest, rfl⟩ := ih hsuffix (fun heq => absurd heq hproper) hrest
      exact ⟨rest, rfl⟩
    | query r hrest =>
      -- a query begins at the `ESC`, which is the first one or that of an `ESC \`
      exfalso
      obtain ⟨b, tail, hr, hb, hne⟩ := exists_second r
      rw [hr, List.cons_append, List.cons_append] at htext
      obtain ⟨rfl, htail⟩ := List.cons.inj htext
      cases before with
      | nil =>
        refine hfirst hbefore r ?_
        rw [hr, htail]
        exact List.prefix_append ('\x1b' :: b :: tail) _
      | cons a before =>
        have hst := escape_inside hbefore.symm
        rw [hst, htail] at h
        exact hb (Through.cons_of_ne hne h).1.symm
  | @query r chars text h ih =>
    have hnot : chars ≠ q.text := by
      intro heq
      exact hfirst heq r (List.prefix_append _ _)
    obtain ⟨qs', out', hreading'⟩ := exists_reading text
    have hout : out = out' := by
      rw [← hreading.found.2, removeAll_query, hreading'.found.2]
    obtain ⟨rest, hrest⟩ := ih hchars (fun heq => absurd heq hnot) hreading'
    exact ⟨rest, hout.trans hrest⟩

/-- A text that a query goes through does not begin inside a query of the data. -/
theorem reading_behind {q : Query} {front text : List Char} (h : Through q.text text)
    {qs : List Query} {out : List Char} (hreading : Reading (front ++ text) qs out) :
    ∃ out₁ out₂ qs', out = out₁ ++ out₂ ∧ Reading text qs' out₂ := by
  generalize hdata : front ++ text = data at hreading
  induction hreading generalizing front with
  | nil =>
    obtain ⟨-, rfl⟩ := List.append_eq_nil_iff.1 hdata
    exact ⟨[], [], [], rfl, .nil⟩
  | @query r rest qs out hrest ih =>
    rcases List.append_eq_append_iff.1 hdata with ⟨part, hr, hpart⟩ | ⟨part, hfront, hrest'⟩
    · cases front with
      | nil =>
        rw [List.nil_append] at hr
        exact ⟨[], out, r :: qs, rfl, hpart ▸ hr ▸ .query r hrest⟩
      | cons a front =>
        cases part with
        | nil =>
          rw [List.nil_append] at hpart
          exact ⟨[], out, qs, rfl, hpart ▸ hrest⟩
        | cons b part =>
          rw [List.cons_append] at hr
          exact absurd (hpart ▸ h) (not_through_inside hr rest)
    · exact ih hrest'.symm
  | @char c rest qs out hc hrest ih =>
    cases front with
    | nil =>
      rw [List.nil_append] at hdata
      exact ⟨[], c :: out, qs, rfl, hdata ▸ .char c hc hrest⟩
    | cons d front =>
      obtain ⟨out₁, out₂, qs', rfl, hreading'⟩ := ih (List.cons.inj hdata).2
      exact ⟨c :: out₁, out₂, qs', rfl, hreading'⟩

/-- A text holds a query exactly if it was read with one. -/
theorem found_eq_nil_iff (text : List Char) :
    Text.found startupQueryRe text = [] ↔
      ∀ front (q : Query) rest, text ≠ front ++ (q.text ++ rest) := by
  obtain ⟨qs, out, h⟩ := exists_reading text
  rw [h.found.1]
  constructor
  · rintro rfl front q rest rfl
    induction front generalizing out with
    | nil =>
      have hfound := h.found.1
      rw [List.nil_append, found_query] at hfound
      cases hfound
    | cons c front ih =>
      generalize htext : c :: front ++ (q.text ++ rest) = text at h
      generalize hqs : ([] : List Query) = qs at h
      cases h with
      | nil => cases htext
      | query r h => cases hqs
      | char d hd h =>
        obtain ⟨rfl, rfl⟩ := List.cons.inj htext
        exact ih _ (hqs ▸ h)
  · intro hnone
    induction h with
    | nil => rfl
    | @query q rest _ _ _ _ => exact absurd rfl (hnone [] q rest)
    | @char c rest _ _ _ _ ih =>
      refine ih fun front q rest' heq => hnone (c :: front) q rest' ?_
      rw [heq, List.cons_append]

/-- **What is left.** Taking out the queries leaves a query exactly if one was interrupted. -/
theorem left_iff (data : List Char) :
    Text.found startupQueryRe (Text.removeAll startupQueryRe data) = [] ↔ ¬ Interrupted data := by
  obtain ⟨qs, out, h⟩ := exists_reading data
  rw [h.found.2, found_eq_nil_iff]
  constructor
  · rintro hnone ⟨front, text, rfl, q, hthrough, hfirst⟩
    obtain ⟨out₁, out₂, qs', rfl, htext⟩ := reading_behind hthrough h
    obtain ⟨rest, rfl⟩ := left_of_through hthrough (List.suffix_refl _) (fun _ => hfirst) htext
    exact hnone out₁ q rest rfl
  · rintro hnot front q rest rfl
    have hne : q.text ++ rest ≠ [] := by
      have hlen := length_text_pos q
      intro heq
      rw [(List.append_eq_nil_iff.1 heq).1] at hlen
      exact absurd hlen (by decide)
    obtain ⟨before, text, qs', rfl, htext, hfirst⟩ := exists_behind h hne
    exact hnot ⟨before, text, rfl, q, through_of_left htext, hfirst⟩

/-! ## Answers -/

theorem answer_ne_nil (p : TerminalPalette) (q : Query) : p.answer q ≠ [] := by
  cases q with
  | color ident st => cases ident <;> simp [TerminalPalette.answer, oscReply]
  | da1 zero => simp [TerminalPalette.answer, da1Reply]

/-- The test for an `ESC` changes nothing. -/
theorem buildStartupQueryReplies_some (data : List Char) (p : TerminalPalette) :
    buildStartupQueryReplies data (some p) =
      (Text.found startupQueryRe data).flatMap p.answer := by
  rw [buildStartupQueryReplies]
  split
  case isTrue hmem =>
    have hnone : Text.found startupQueryRe data = [] := by
      rw [found_eq_nil_iff]
      rintro front q rest rfl
      obtain ⟨c, tail, hq, -⟩ := exists_second q
      exact hmem (by rw [hq]; simp)
    rw [hnone, List.flatMap_nil]
  case isFalse => rfl

theorem buildStartupQueryReplies_eq_nil_iff (data : List Char) (p : TerminalPalette) :
    buildStartupQueryReplies data (some p) = [] ↔ Text.found startupQueryRe data = [] := by
  rw [buildStartupQueryReplies_some, List.flatMap_eq_nil_iff]
  constructor
  · intro h
    by_contra hne
    obtain ⟨q, hq⟩ := List.exists_mem_of_ne_nil _ hne
    exact answer_ne_nil p q (h q hq)
  · intro h q hq
    rw [h] at hq
    cases hq

/-- What is forwarded is the data without its queries. -/
theorem rest_eq (data : List Char) (p : TerminalPalette) :
    (splitStartupQueries data (some p)).rest = Text.removeAll startupQueryRe data := by
  rw [splitStartupQueries]
  dsimp only
  split
  case isTrue hreply =>
    obtain ⟨qs, out, h⟩ := exists_reading data
    rw [buildStartupQueryReplies_eq_nil_iff, h.found.1] at hreply
    rw [h.found.2]
    induction h with
    | nil => rfl
    | query q _ _ => cases hreply
    | char c _ _ ih => rw [ih hreply]
  case isFalse => rfl

/-- **Startup queries.** The reply holds one answer for each query of the data, in order, and the
rest is the data without the queries. The rest holds no query exactly if no query of the data is
interrupted by others. -/
theorem answered_iff (data : List Char) (p : TerminalPalette) :
    ((splitStartupQueries (splitStartupQueries data (some p)).rest (some p)).reply = [] ↔
        ¬ Interrupted data) ∧
      ∃ qs, Reading data qs (splitStartupQueries data (some p)).rest ∧
        (splitStartupQueries data (some p)).reply = qs.flatMap p.answer := by
  obtain ⟨qs, out, h⟩ := exists_reading data
  refine ⟨?_, qs, ?_, ?_⟩
  · rw [rest_eq, ← left_iff data]
    exact buildStartupQueryReplies_eq_nil_iff _ p
  · rwa [rest_eq, h.found.2]
  · rw [splitStartupQueries, buildStartupQueryReplies_some, h.found.1]

/-- `ESC [ ESC [ c c`: a query inside another one. -/
theorem query_is_left : ¬ ∀ (data : List Char) (p : TerminalPalette),
    (splitStartupQueries (splitStartupQueries data (some p)).rest (some p)).reply = [] := by
  intro h
  exact absurd (h ['\x1b', '[', '\x1b', '[', 'c', 'c'] ⟨[], [], []⟩) (by decide)

end StartupQuery
end Terminal
end Mullion
