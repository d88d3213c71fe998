import Mathlib.Data.List.Dedup
import Mathlib.Tactic

/-!
# Trees of files

A tree of directories, files and symbolic links.  An entry is named by its place, the names from the
root to it, and has no other name; that every entry lies in a directory is a field of the tree, so
no operation can break it.

* `DirTree.create`, `DirTree.write`, `DirTree.remove`, `DirTree.move` — the operations on one place;
* `DirTree.walk` — the place that a path leads to, through a bounded number of links;
* `walk_append`, `walk_trans`, `walk_unique` — a path passes where its beginning leads, and leads to
  one place only;
* `Solid` — an entry that is no link; it is where the names of its place lead (`walk_solid`);
* `Straight` — no link's text has a `..` behind the name of a link, so that what a link says can be
  read without looking (`Straight.follow`);
* `Blocked` — a path that leads nowhere, with any number of links (`Blocked.of_missing`), and
  neither does what goes on behind it (`Blocked.append`);
* `walk_grows` — a path leads where it led when more is there.
-/

namespace FileTree

variable {ν φ : Type*}

/-- One step of a path: `..`, or into an entry. -/
inductive Step (ν : Type*)
  | up
  | into (name : ν)
  deriving DecidableEq, Repr

/-- What a step makes of a path, whatever is there. -/
def lexical (place : List ν) : Step ν → List ν
  | .up => place.dropLast
  | .into name => place ++ [name]

/-- What a symbolic link says. -/
structure Target (ν : Type*) where
  absolute : Bool
  steps : List (Step ν)
  deriving DecidableEq, Repr

/-- Where the text of a link is read from. -/
def Target.base (target : Target ν) (dir : List ν) : List ν := if target.absolute then [] else dir

/-- `φ` is what a file that is no directory and no link holds. -/
inductive Entry (ν φ : Type*)
  | dir
  | file (content : φ)
  | link (target : Target ν)
  deriving DecidableEq, Repr

def Entry.isLink : Entry ν φ → Bool
  | .link _ => true
  | _ => false

/-! ## Steps -/

theorem lexical_names (place names : List ν) :
    (names.map Step.into).foldl lexical place = place ++ names := by
  induction names generalizing place with
  | nil => exact (List.append_nil place).symm
  | cons n names ih =>
    rw [List.map_cons, List.foldl_cons, ih]
    exact List.append_assoc _ _ _

/-- What comes behind the last `..` of a path is names. -/
theorem ups_names (steps : List (Step ν)) :
    ∃ (front : List (Step ν)) (names : List ν), steps = front ++ names.map .into ∧
      ∀ before n back, front = before ++ .into n :: back → .up ∈ back := by
  induction steps using List.reverseRecOn with
  | nil => exact ⟨[], [], rfl, fun before n back heq => by simp at heq⟩
  | append_singleton steps step ih =>
    cases step with
    | up =>
      refine ⟨steps ++ [.up], [], (List.append_nil _).symm, fun before n back heq => ?_⟩
      cases back using List.reverseRecOn with
      | nil =>
        have hlast := (List.append_inj' heq rfl).2
        cases hlast
      | append_singleton back last =>
        rw [← List.cons_append, ← List.append_assoc] at heq
        have hlast := (List.append_inj' heq rfl).2
        cases hlast
        exact List.mem_append_right _ (List.mem_singleton_self _)
    | into n =>
      obtain ⟨front, names, heq, hups⟩ := ih
      refine ⟨front, names ++ [n], ?_, hups⟩
      rw [heq, List.append_assoc, List.map_append, List.map_singleton]

/-! ## Trees -/

/-- Entries by their place, each in a directory. -/
structure DirTree (ν φ : Type*) where
  entry : List ν → Option (Entry ν φ)
  /-- the places that may be taken -/
  places : List (List ν)
  root : entry [] = some .dir
  parent : ∀ p n, entry (p ++ [n]) ≠ none → entry p = some .dir
  listed : ∀ p, entry p ≠ none → p ∈ places

namespace DirTree

variable {t : DirTree ν φ} {p q r : List ν} {n : ν}

/-- What lies on the way to an entry is a directory. -/
theorem dir_of_append (t : DirTree ν φ) {rest : List ν} (hrest : rest ≠ [])
    (h : t.entry (p ++ rest) ≠ none) : t.entry p = some .dir := by
  induction rest using List.reverseRecOn with
  | nil => exact absurd rfl hrest
  | append_singleton rest n ih =>
    rw [← List.append_assoc] at h
    have hdir := t.parent _ _ h
    cases rest with
    | nil => rwa [List.append_nil] at hdir
    | cons m rest =>
      refine ih (List.cons_ne_nil _ _) ?_
      rw [hdir]
      exact Option.some_ne_none _

theorem none_of_append (h : t.entry p ≠ some .dir) {rest : List ν} (hrest : rest ≠ []) :
    t.entry (p ++ rest) = none := by
  by_contra hne
  exact h (t.dir_of_append hrest hne)

/-! ## Names in a directory -/

section Children

variable [DecidableEq ν]

/-- The names in a directory. -/
def children (t : DirTree ν φ) (p : List ν) : List ν :=
  (t.places.filterMap fun q =>
    if q.dropLast = p ∧ (t.entry q).isSome then q.getLast? else none).dedup

theorem mem_children : n ∈ t.children p ↔ t.entry (p ++ [n]) ≠ none := by
  unfold children
  rw [List.mem_dedup, List.mem_filterMap]
  constructor
  · rintro ⟨q, -, hq⟩
    split at hq
    · next h =>
      obtain ⟨rfl, hsome⟩ := h
      rw [List.dropLast_append_getLast? n hq]
      exact Option.isSome_iff_ne_none.1 hsome
    · cases hq
  · intro h
    refine ⟨p ++ [n], t.listed _ h, ?_⟩
    rw [List.dropLast_concat, if_pos ⟨rfl, Option.isSome_iff_ne_none.2 h⟩, List.getLast?_concat]

theorem children_eq_nil : t.children p = [] ↔ ∀ n, t.entry (p ++ [n]) = none := by
  rw [List.eq_nil_iff_forall_not_mem]
  exact forall_congr' fun n => by rw [mem_children, not_not]

end Children

/-! ## Operations -/

section Operations

variable [DecidableEq ν]

/-- A new entry in a directory. -/
def create (t : DirTree ν φ) (p : List ν) (n : ν) (e : Entry ν φ) (hp : t.entry p = some .dir)
    (hfree : t.entry (p ++ [n]) = none) : DirTree ν φ where
  entry := Function.update t.entry (p ++ [n]) (some e)
  places := (p ++ [n]) :: t.places
  root := by
    rw [Function.update_of_ne (by simp)]
    exact t.root
  parent q m h := by
    have hq : q ≠ p ++ [n] := by
      rintro rfl
      rw [Function.update_of_ne (by simp)] at h
      rw [none_of_append (by rw [hfree]; exact nofun) (List.cons_ne_nil _ _)] at h
      exact h rfl
    rw [Function.update_of_ne hq]
    by_cases heq : q ++ [m] = p ++ [n]
    · rw [(List.append_inj' heq rfl).1]
      exact hp
    · rw [Function.update_of_ne heq] at h
      exact t.parent q m h
  listed q h := by
    by_cases heq : q = p ++ [n]
    · exact heq ▸ List.mem_cons_self
    · rw [Function.update_of_ne heq] at h
      exact List.mem_cons_of_mem _ (t.listed q h)

/-- A file holds something else. -/
def write (t : DirTree ν φ) (p : List ν) (old new : φ) (hp : t.entry p = some (.file old)) :
    DirTree ν φ where
  entry := Function.update t.entry p (some (.file new))
  places := t.places
  root := by
    rw [Function.update_of_ne]
    · exact t.root
    · rintro rfl
      rw [t.root] at hp
      cases hp
  parent q m h := by
    have hq : q ≠ p := by
      rintro rfl
      rw [Function.update_of_ne (by simp),
        none_of_append (by rw [hp]; exact nofun) (List.cons_ne_nil _ _)] at h
      exact h rfl
    rw [Function.update_of_ne hq]
    by_cases heq : q ++ [m] = p
    · refine t.parent q m ?_
      rw [heq, hp]
      exact nofun
    · rw [Function.update_of_ne heq] at h
      exact t.parent q m h
  listed q h := by
    by_cases heq : q = p
    · refine t.listed q ?_
      rw [heq, hp]
      exact nofun
    · rw [Function.update_of_ne heq] at h
      exact t.listed q h

/-- An entry that nothing lies in is gone. -/
def remove (t : DirTree ν φ) (p : List ν) (hp : p ≠ []) (hempty : ∀ n, t.entry (p ++ [n]) = none) :
    DirTree ν φ where
  entry := Function.update t.entry p none
  places := t.places
  root := by
    rw [Function.update_of_ne hp.symm]
    exact t.root
  parent q m h := by
    have hne : q ++ [m] ≠ p := by
      rintro rfl
      rw [Function.update_self] at h
      exact h rfl
    rw [Function.update_of_ne hne] at h
    have hq : q ≠ p := by
      rintro rfl
      exact h (hempty m)
    rw [Function.update_of_ne hq]
    exact t.parent q m h
  listed q h := by
    by_cases heq : q = p
    · rw [heq, Function.update_self] at h
      exact absurd rfl h
    · rw [Function.update_of_ne heq] at h
      exact t.listed q h

/-- An entry, and what lies in it, is at another place. -/
def move (t : DirTree ν φ) (p q : List ν) (n : ν) (hp : p ≠ []) (hq : t.entry q = some .dir)
    (hout : ¬ p <+: q) : DirTree ν φ where
  entry r :=
    if q ++ [n] <+: r then t.entry (p ++ r.drop (q.length + 1))
    else if p <+: r then none
    else t.entry r
  places := t.places ++ t.places.map fun r => q ++ n :: r.drop p.length
  root := by
    rw [if_neg (by simp), if_neg (by simpa using hp)]
    exact t.root
  parent r m h := by
    by_cases hto : q ++ [n] <+: r
    · obtain ⟨rest, rfl⟩ := hto
      rw [if_pos ((List.prefix_append _ _).trans (List.prefix_append _ _))] at h
      rw [if_pos (List.prefix_append _ _)]
      have hdrop : ((q ++ [n] ++ rest) ++ [m]).drop (q.length + 1) = rest ++ [m] := by
        rw [List.append_assoc]
        exact List.drop_left' (by simp)
      rw [hdrop, ← List.append_assoc] at h
      rw [List.drop_left' (by simp)]
      exact t.parent _ _ h
    · by_cases hnew : q ++ [n] <+: r ++ [m]
      · have heq : q ++ [n] = r ++ [m] := by
          rcases List.prefix_concat_iff.1 hnew with heq | hpre
          · exact heq
          · exact absurd hpre hto
        obtain ⟨rfl, -⟩ := List.append_inj' heq rfl
        rw [if_neg hto, if_neg hout]
        exact hq
      · rw [if_neg hnew] at h
        by_cases hold : p <+: r ++ [m]
        · rw [if_pos hold] at h
          exact absurd rfl h
        · rw [if_neg hold] at h
          rw [if_neg hto, if_neg fun hpre => hold (hpre.trans (List.prefix_append _ _))]
          exact t.parent r m h
  listed r h := by
    by_cases hto : q ++ [n] <+: r
    · obtain ⟨rest, rfl⟩ := hto
      rw [if_pos (List.prefix_append _ _), List.drop_left' (by simp)] at h
      refine List.mem_append_right _ (List.mem_map.2 ⟨_, t.listed _ h, ?_⟩)
      rw [List.drop_left, List.append_assoc]
      rfl
    · rw [if_neg hto] at h
      split at h
      · exact absurd rfl h
      · exact List.mem_append_left _ (t.listed r h)

end Operations

/-! ## Paths -/

/-- Why a path leads nowhere. -/
inductive Obstacle
  | missing
  | notDir
  | loop
  deriving DecidableEq, Repr

/-- How far a path leads before its first link. -/
inductive Advance (ν : Type*)
  | arrived (place : List ν)
  | atLink (dir : List ν) (target : Target ν) (rest : List (Step ν))
  | stopped (why : Obstacle)

def advance (t : DirTree ν φ) : List ν → List (Step ν) → Advance ν
  | p, [] => .arrived p
  | p, .up :: rest =>
    match t.entry p with
    | some .dir => t.advance p.dropLast rest
    | _ => .stopped .notDir
  | p, .into n :: rest =>
    match t.entry p with
    | some .dir =>
      match t.entry (p ++ [n]) with
      | none => .stopped .missing
      | some (.link target) => .atLink p target rest
      | some _ => t.advance (p ++ [n]) rest
    | _ => .stopped .notDir

/-- Where a path leads from a place, through this many links at most. -/
def walk (t : DirTree ν φ) (links : ℕ) (p : List ν) (steps : List (Step ν)) :
    Except Obstacle (List ν) :=
  match t.advance p steps with
  | .arrived place => .ok place
  | .stopped why => .error why
  | .atLink dir target rest =>
    match links with
    | 0 => .error .loop
    | links + 1 => t.walk links (if target.absolute then [] else dir) (target.steps ++ rest)

/-- An entry that is no link. -/
def Solid (t : DirTree ν φ) (p : List ν) : Prop := ∃ e, t.entry p = some e ∧ e.isLink = false

theorem Solid.of_dir (h : t.entry p = some .dir) : t.Solid p := ⟨.dir, h, rfl⟩

theorem solid_root (t : DirTree ν φ) : t.Solid [] := .of_dir t.root

theorem Solid.ne_none (h : t.Solid p) : t.entry p ≠ none := by
  obtain ⟨e, he, -⟩ := h
  rw [he]
  exact Option.some_ne_none e

theorem Solid.parent (h : t.Solid (p ++ [n])) : t.entry p = some .dir := t.parent _ _ h.ne_none

theorem Solid.dropLast (h : t.Solid p) : t.Solid p.dropLast := by
  induction p using List.reverseRecOn with
  | nil => exact h
  | append_singleton p n _ =>
    rw [List.dropLast_concat]
    exact .of_dir h.parent

/-- A path goes on from solid places alone. -/
theorem advance_solid {steps : List (Step ν)} (h : t.Solid p) :
    (∀ place, t.advance p steps = .arrived place → t.Solid place) ∧
      ∀ dir target rest, t.advance p steps = .atLink dir target rest → t.entry dir = some .dir := by
  induction steps generalizing p with
  | nil =>
    refine ⟨fun place hplace => ?_, fun dir target rest hlink => by cases hlink⟩
    cases hplace
    exact h
  | cons step steps ih =>
    cases step with
    | up =>
      rw [advance]
      split
      · exact ih h.dropLast
      · exact ⟨nofun, nofun⟩
    | into n =>
      rw [advance]
      split
      · next hdir =>
        split
        · exact ⟨nofun, nofun⟩
        · refine ⟨nofun, fun dir target rest hlink => ?_⟩
          cases hlink
          exact hdir
        · next e hlink he =>
          refine ih ⟨e, he, ?_⟩
          cases e with
          | link target => exact absurd rfl (hlink target)
          | _ => rfl
      · exact ⟨nofun, nofun⟩

/-- A path leads to no link. -/
theorem walk_ok_solid {links : ℕ} {steps : List (Step ν)} (h : t.Solid p)
    (hwalk : t.walk links p steps = .ok q) : t.Solid q := by
  induction links generalizing p steps with
  | zero =>
    rw [walk] at hwalk
    split at hwalk
    · next place hplace =>
      cases hwalk
      exact (advance_solid h).1 _ hplace
    · cases hwalk
    · cases hwalk
  | succ links ih =>
    rw [walk] at hwalk
    split at hwalk
    · next place hplace =>
      cases hwalk
      exact (advance_solid h).1 _ hplace
    · cases hwalk
    · next dir target rest hlink =>
      refine ih ?_ hwalk
      split
      · exact t.solid_root
      · exact .of_dir ((advance_solid h).2 _ _ _ hlink)

/-- Through directories and no link, a path goes on as from its last place. -/
theorem advance_into {names : List ν} {steps : List (Step ν)} (h : t.Solid (p ++ names)) :
    t.advance p (names.map .into ++ steps) = t.advance (p ++ names) steps := by
  induction names generalizing p with
  | nil => rw [List.append_nil, List.map_nil, List.nil_append]
  | cons n names ih =>
    have hp : t.entry p = some .dir := t.dir_of_append (List.cons_ne_nil _ _) h.ne_none
    rw [← List.singleton_append, ← List.append_assoc] at h ⊢
    rw [List.map_append, List.map_singleton, List.append_assoc, List.singleton_append, advance, hp]
    have hsolid : t.Solid (p ++ [n]) := by
      cases names with
      | nil => rwa [List.append_nil] at h
      | cons m names => exact .of_dir (t.dir_of_append (List.cons_ne_nil _ _) h.ne_none)
    obtain ⟨e, he, hlink⟩ := hsolid
    cases e with
    | link target => cases hlink
    | dir =>
      rw [he]
      exact ih h
    | file content =>
      rw [he]
      exact ih h

theorem walk_into {links : ℕ} {names : List ν} {steps : List (Step ν)}
    (h : t.Solid (p ++ names)) :
    t.walk links p (names.map .into ++ steps) = t.walk links (p ++ names) steps := by
  rw [walk.eq_def, advance_into h, ← walk.eq_def]

/-- From the root, the names of a solid place lead to it. -/
theorem walk_names (links : ℕ) (steps : List (Step ν)) (h : t.Solid p) :
    t.walk links [] (p.map .into ++ steps) = t.walk links p steps :=
  walk_into (p := []) h

/-- The names of a solid place lead there. -/
theorem walk_solid {links : ℕ} (h : t.Solid p) : t.walk links [] (p.map .into) = .ok p := by
  have hinto := t.walk_names links [] h
  rw [List.append_nil] at hinto
  rw [hinto, walk.eq_def]
  rfl

theorem advance_append {steps more : List (Step ν)} :
    t.advance p (steps ++ more) = match t.advance p steps with
      | .arrived place => t.advance place more
      | .atLink dir target rest => .atLink dir target (rest ++ more)
      | .stopped why => .stopped why := by
  induction steps generalizing p with
  | nil => rfl
  | cons step steps ih =>
    cases step with
    | up =>
      rw [List.cons_append, advance, advance]
      split
      · exact ih
      · rfl
    | into n =>
      rw [List.cons_append, advance, advance]
      split
      · split
        · rfl
        · rfl
        · exact ih
      · rfl

/-! ### Paths that are read without looking -/

/-- A path that meets no link goes where its text says, as far as it goes. -/
theorem advance_lexical {steps more : List (Step ν)} (h : t.Solid p)
    (hlinks : ∀ front n back, steps = front ++ .into n :: back →
      ∀ target, t.entry (front.foldl lexical p ++ [n]) ≠ some (.link target)) :
    (∃ why, t.advance p (steps ++ more) = .stopped why) ∨
      t.Solid (steps.foldl lexical p) ∧
        t.advance p (steps ++ more) = t.advance (steps.foldl lexical p) more := by
  induction steps generalizing p with
  | nil => exact .inr ⟨h, rfl⟩
  | cons step steps ih =>
    have hrest : ∀ front n back, steps = front ++ .into n :: back →
        ∀ target, t.entry (front.foldl lexical (lexical p step) ++ [n]) ≠ some (.link target) :=
      fun front n back heq => hlinks (step :: front) n back (by rw [heq]; rfl)
    rw [List.cons_append, List.foldl_cons]
    cases step with
    | up =>
      rw [advance]
      split
      · exact ih h.dropLast hrest
      · exact .inl ⟨_, rfl⟩
    | into n =>
      rw [advance]
      split
      · split
        · exact .inl ⟨_, rfl⟩
        · next target hlink => exact absurd hlink (hlinks [] n steps rfl target)
        · next e hlink he =>
          refine ih ⟨e, he, ?_⟩ hrest
          cases e with
          | link target => exact absurd rfl (hlink target)
          | _ => rfl
      · exact .inl ⟨_, rfl⟩

theorem walk_lexical {links : ℕ} {steps more : List (Step ν)} (h : t.Solid p)
    (hlinks : ∀ front n back, steps = front ++ .into n :: back →
      ∀ target, t.entry (front.foldl lexical p ++ [n]) ≠ some (.link target))
    (hwalk : t.walk links p (steps ++ more) = .ok q) :
    t.Solid (steps.foldl lexical p) ∧ t.walk links (steps.foldl lexical p) more = .ok q := by
  rw [walk.eq_def] at hwalk
  have hadvance : (∃ why, t.advance p (steps ++ more) = .stopped why) ∨ _ :=
    advance_lexical h hlinks
  rcases hadvance with ⟨why, hstop⟩ | ⟨hsolid, hsame⟩
  · rw [hstop] at hwalk
    cases hwalk
  · rw [hsame] at hwalk
    refine ⟨hsolid, ?_⟩
    rw [walk.eq_def]
    exact hwalk

/-- No link's text has a `..` behind the name of a link. -/
def Straight (t : DirTree ν φ) : Prop :=
  ∀ dir n target, t.entry (dir ++ [n]) = some (.link target) →
    ∀ front name back, target.steps = front ++ .into name :: back → .up ∈ back →
      ∀ target', t.entry (front.foldl lexical (target.base dir) ++ [name]) ≠ some (.link target')

/-- What is not a link may be added. -/
theorem Straight.create [DecidableEq ν] (h : t.Straight) {p : List ν} {n : ν} {e : Entry ν φ}
    (hp : t.entry p = some .dir) (hfree : t.entry (p ++ [n]) = none)
    (he : ∀ target, e ≠ .link target) : (t.create p n e hp hfree).Straight := by
  have hold : ∀ q target, (t.create p n e hp hfree).entry q = some (.link target) →
      t.entry q = some (.link target) := by
    intro q target hq
    change Function.update t.entry (p ++ [n]) (some e) q = _ at hq
    by_cases hne : q = p ++ [n]
    · rw [hne, Function.update_self] at hq
      exact absurd (Option.some.inj hq) (he target)
    · rwa [Function.update_of_ne hne] at hq
  intro dir m target hlink front name back heq hup target' hlink'
  exact h dir m target (hold _ _ hlink) front name back heq hup target' (hold _ _ hlink')

/-- Then what a link says can be read without looking. -/
theorem Straight.follow (h : t.Straight) {dir names : List ν} {target : Target ν}
    (hdir : t.entry dir = some .dir) (hlink : t.entry (dir ++ [n]) = some (.link target))
    {links : ℕ}
    (hwalk : t.walk links (target.base dir) (target.steps ++ names.map .into) = .ok q) :
    t.walk links [] ((target.steps.foldl lexical (target.base dir) ++ names).map .into) =
      .ok q := by
  have hbase : t.Solid (target.base dir) := by
    unfold Target.base
    split
    · exact t.solid_root
    · exact .of_dir hdir
  obtain ⟨front, last, heq, hups⟩ := ups_names target.steps
  rw [heq, List.append_assoc, ← List.map_append] at hwalk
  obtain ⟨hsolid, hrest⟩ := walk_lexical hbase (fun before name back hfront => by
    refine h dir n target hlink before name (back ++ last.map .into) ?_ ?_
    · rw [heq, hfront, List.append_assoc, List.cons_append]
    · exact List.mem_append_left _ (hups before name back hfront)) hwalk
  rw [heq, List.foldl_append, lexical_names, List.append_assoc, List.map_append,
    walk_names _ _ hsolid]
  exact hrest

/-- A tree whose links are no others. -/
theorem Straight.of_links {t' : DirTree ν φ} (h : t.Straight)
    (hlinks : ∀ p target, t'.entry p = some (.link target) → t.entry p = some (.link target)) :
    t'.Straight :=
  fun dir n target hlink front name back heq hup target' hname =>
    h dir n target (hlinks _ _ hlink) front name back heq hup target' (hlinks _ _ hname)

/-- A path that is found is found with more links. -/
theorem walk_mono {links links' : ℕ} {steps : List (Step ν)} (hle : links ≤ links')
    (h : t.walk links p steps = .ok q) : t.walk links' p steps = .ok q := by
  induction links generalizing p steps links' with
  | zero =>
    rw [walk.eq_def] at h ⊢
    cases hadvance : t.advance p steps with
    | arrived place =>
      rw [hadvance] at h
      exact h
    | atLink dir target rest =>
      rw [hadvance] at h
      cases h
    | stopped why =>
      rw [hadvance] at h
      cases h
  | succ links ih =>
    cases links' with
    | zero => exact absurd hle (Nat.not_succ_le_zero _)
    | succ links' =>
      rw [walk.eq_def] at h ⊢
      cases hadvance : t.advance p steps with
      | arrived place =>
        rw [hadvance] at h
        exact h
      | atLink dir target rest =>
        rw [hadvance] at h
        exact ih (Nat.le_of_succ_le_succ hle) h
      | stopped why =>
        rw [hadvance] at h
        cases h

/-- A path that is found passes where its beginning leads. -/
theorem walk_append {links : ℕ} {steps more : List (Step ν)}
    (h : t.walk links p (steps ++ more) = .ok q) :
    ∃ place, t.walk links p steps = .ok place ∧ t.walk links place more = .ok q := by
  induction links generalizing p steps with
  | zero =>
    rw [walk.eq_def, advance_append] at h
    cases hadvance : t.advance p steps with
    | arrived place =>
      rw [hadvance] at h
      refine ⟨place, ?_, ?_⟩
      · rw [walk.eq_def, hadvance]
      · rw [walk.eq_def]
        exact h
    | atLink dir target rest =>
      rw [hadvance] at h
      cases h
    | stopped why =>
      rw [hadvance] at h
      cases h
  | succ links ih =>
    rw [walk.eq_def, advance_append] at h
    cases hadvance : t.advance p steps with
    | arrived place =>
      rw [hadvance] at h
      refine ⟨place, ?_, ?_⟩
      · rw [walk.eq_def, hadvance]
      · rw [walk.eq_def]
        exact h
    | atLink dir target rest =>
      rw [hadvance] at h
      dsimp only at h
      rw [← List.append_assoc] at h
      obtain ⟨place, hplace, hmore⟩ := ih h
      refine ⟨place, ?_, walk_mono (Nat.le_succ _) hmore⟩
      rw [walk.eq_def, hadvance]
      exact hplace
    | stopped why =>
      rw [hadvance] at h
      cases h

/-- A path leads to one place at most. -/
theorem walk_unique {links links' : ℕ} {steps : List (Step ν)}
    (h : t.walk links p steps = .ok q) (h' : t.walk links' p steps = .ok r) : q = r := by
  have hq := walk_mono (Nat.le_add_right links links') h
  rw [walk_mono (Nat.le_add_left links' links) h'] at hq
  exact (Except.ok.inj hq).symm

/-- Two paths, one behind the other. -/
theorem walk_trans {links links' : ℕ} {steps more : List (Step ν)}
    (h : t.walk links p steps = .ok r) (h' : t.walk links' r more = .ok q) :
    t.walk (links + links') p (steps ++ more) = .ok q := by
  induction links generalizing p steps with
  | zero =>
    rw [walk.eq_def] at h
    rw [walk.eq_def, advance_append]
    cases hadvance : t.advance p steps with
    | arrived place =>
      rw [hadvance] at h
      cases h
      rw [walk.eq_def] at h'
      rw [Nat.zero_add]
      exact h'
    | atLink dir target rest =>
      rw [hadvance] at h
      cases h
    | stopped why =>
      rw [hadvance] at h
      cases h
  | succ links ih =>
    rw [walk.eq_def] at h
    cases hadvance : t.advance p steps with
    | arrived place =>
      rw [hadvance] at h
      cases h
      rw [walk.eq_def, advance_append, hadvance]
      have hmore := walk_mono (Nat.le_add_left links' (links + 1)) h'
      rw [walk.eq_def] at hmore
      exact hmore
    | atLink dir target rest =>
      rw [hadvance] at h
      rw [walk.eq_def, advance_append, hadvance, Nat.succ_add]
      dsimp only
      rw [← List.append_assoc]
      exact ih h
    | stopped why =>
      rw [hadvance] at h
      cases h

/-! ## Paths that lead nowhere -/

/-- A path that leads nowhere, with any number of links. -/
def Blocked (t : DirTree ν φ) (p : List ν) (steps : List (Step ν)) : Prop :=
  ∀ links place, t.walk links p steps ≠ .ok place

/-- What is missing is missing with any number of links. -/
theorem Blocked.of_missing {links : ℕ} {steps : List (Step ν)}
    (h : t.walk links p steps = .error .missing) : t.Blocked p steps := by
  intro links' place
  induction links generalizing p steps links' with
  | zero =>
    rw [walk.eq_def] at h ⊢
    split at h
    · cases h
    · exact nofun
    · cases h
  | succ links ih =>
    rw [walk.eq_def] at h ⊢
    split at h
    · cases h
    · exact nofun
    · cases links' with
      | zero => exact nofun
      | succ links' => exact ih h links'

/-- Behind a path that leads nowhere nothing is found. -/
theorem Blocked.append {steps : List (Step ν)} (h : t.Blocked p steps) (more : List (Step ν)) :
    t.Blocked p (steps ++ more) := by
  intro links place
  induction links generalizing p steps with
  | zero =>
    have hnone := h 0
    rw [walk.eq_def] at hnone ⊢
    rw [advance_append]
    cases hadvance : t.advance p steps with
    | arrived q =>
      rw [hadvance] at hnone
      exact absurd rfl (hnone q)
    | atLink dir target rest => exact nofun
    | stopped why => exact nofun
  | succ links ih =>
    have hnone := h
    rw [walk.eq_def, advance_append]
    cases hadvance : t.advance p steps with
    | arrived q =>
      have hq := h 0
      rw [walk.eq_def, hadvance] at hq
      exact absurd rfl (hq q)
    | stopped why => exact nofun
    | atLink dir target rest =>
      dsimp only
      rw [← List.append_assoc]
      refine ih fun links' place' => ?_
      have hnext := h (links' + 1) place'
      rwa [walk.eq_def, hadvance] at hnext

/-! ## Growing -/

section Grows

variable {t' : DirTree ν φ} (h : ∀ p e, t.entry p = some e → t'.entry p = some e)
include h

theorem advance_grows {steps : List (Step ν)} :
    (∀ place, t.advance p steps = .arrived place → t'.advance p steps = .arrived place) ∧
      ∀ dir target rest, t.advance p steps = .atLink dir target rest →
        t'.advance p steps = .atLink dir target rest := by
  induction steps generalizing p with
  | nil => exact ⟨fun _ => id, fun _ _ _ => id⟩
  | cons step steps ih =>
    cases step with
    | up =>
      rw [advance, advance]
      cases hdir : t.entry p with
      | none => exact ⟨nofun, nofun⟩
      | some e =>
        rw [h p e hdir]
        cases e with
        | dir => exact ih
        | file content => exact ⟨nofun, nofun⟩
        | link target => exact ⟨nofun, nofun⟩
    | into n =>
      rw [advance, advance]
      cases hdir : t.entry p with
      | none => exact ⟨nofun, nofun⟩
      | some e =>
        rw [h p e hdir]
        cases e with
        | file content => exact ⟨nofun, nofun⟩
        | link target => exact ⟨nofun, nofun⟩
        | dir =>
          cases hn : t.entry (p ++ [n]) with
          | none => exact ⟨nofun, nofun⟩
          | some e =>
            rw [h _ e hn]
            cases e with
            | dir => exact ih
            | file content => exact ih
            | link target => exact ⟨nofun, fun _ _ _ => id⟩

/-- A path leads where it led when more is there. -/
theorem walk_grows {links : ℕ} {steps : List (Step ν)} (hwalk : t.walk links p steps = .ok q) :
    t'.walk links p steps = .ok q := by
  induction links generalizing p steps with
  | zero =>
    rw [walk.eq_def] at hwalk ⊢
    cases hadvance : t.advance p steps with
    | arrived place =>
      rw [hadvance] at hwalk
      rw [(advance_grows h).1 _ hadvance]
      exact hwalk
    | atLink dir target rest =>
      rw [hadvance] at hwalk
      cases hwalk
    | stopped why =>
      rw [hadvance] at hwalk
      cases hwalk
  | succ links ih =>
    rw [walk.eq_def] at hwalk ⊢
    cases hadvance : t.advance p steps with
    | arrived place =>
      rw [hadvance] at hwalk
      rw [(advance_grows h).1 _ hadvance]
      exact hwalk
    | atLink dir target rest =>
      rw [hadvance] at hwalk
      rw [(advance_grows h).2 _ _ _ hadvance]
      exact ih hwalk
    | stopped why =>
      rw [hadvance] at hwalk
      cases hwalk

end Grows

end DirTree
end FileTree
