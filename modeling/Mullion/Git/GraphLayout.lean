import Mathlib.Data.List.DropRight
import Mathlib.Data.List.GetD
import Mathlib.Tactic

/-!
# The lanes of the commit graph

`computeGraphLayout` (`frontend/src/git/graphLayout.ts`) puts each commit of a history into a lane
and says which lines to draw at its row. A lane waits for the next commit that is expected in it.
What the drawing should show is `Drawn`: each line begins at a commit, runs down through all rows
between to the parent, and ends there, and there are no other lines.

The state between two rows is a list of lanes, and what it means is said in terms of the lines that
were begun: a lane waits for a commit exactly if a line to it `Leaves` an earlier row in that lane
and the commit has not come yet (`awaits_iff`). `row_spec` has what one row does to the lanes, by
way of `placeParents_spec` for the lines it begins; the induction over the rows then needs that
parents come after their children, which is all that is asked of the history. `layout_drawn` reads
`Drawn` off it.
-/

namespace Mullion
namespace CommitGraph

/-! ## The layout -/

structure GraphCommit (S : Type) where
  sha : S
  parents : List S
  deriving DecidableEq, Repr

structure GraphRow (S : Type) where
  sha : S
  lane : Nat
  fromAbove : Bool
  passThrough : List Nat
  mergeFrom : List Nat
  parentLanes : List Nat
  width : Nat
  deriving DecidableEq, Repr

structure GraphLayout (S : Type) where
  rows : List (GraphRow S)
  width : Nat
  deriving DecidableEq, Repr

/-- What each lane waits for. -/
abbrev Lanes (S : Type) := List (Option S)

/-- What a lane waits for. -/
def waits {S : Type} (lanes : Lanes S) (i : Nat) : Option S := lanes.getD i none

variable {S : Type} [DecidableEq S]

/-- `freeLane`: a lane that waits for nothing, if need be a new one. -/
def freeLane (lanes : Lanes S) : Lanes S × Nat :=
  match lanes.idxOf? none with
  | some free => (lanes, free)
  | none => (lanes ++ [none], lanes.length)

/-- The lanes that meet a condition, from left to right. -/
def lanesWhere (p : Option S → Bool) (lanes : Lanes S) : List Nat :=
  (List.range lanes.length).filter fun i => p (waits lanes i)

/-- The lane of a further parent: one that waits for it already, or a free one. -/
def placeParent (lanes : Lanes S) (parent : S) : Lanes S × Nat :=
  match lanes.idxOf? (some parent) with
  | some existing => (lanes, existing)
  | none => ((freeLane lanes).1.set (freeLane lanes).2 (some parent), (freeLane lanes).2)

/-- The loop over `commit.parents.slice(1)`. -/
def placeParents (lanes : Lanes S) : List S → Lanes S × List Nat
  | [] => (lanes, [])
  | parent :: parents =>
    let placed := placeParent lanes parent
    let rest := placeParents placed.1 parents
    (rest.1, placed.2 :: rest.2)

/-- The lanes below a commit, and those of its parents. -/
def parentsOf (lanes : Lanes S) (lane : Nat) : List S → Lanes S × List Nat
  | [] => (lanes.set lane none, [])
  | first :: parents =>
    let rest := placeParents (lanes.set lane (some first)) parents
    (rest.1, lane :: rest.2)

/-- Drop the free lanes at the end. -/
def trim (lanes : Lanes S) : Lanes S := lanes.rdropWhile Option.isNone

/-- The lane of a commit that these lanes wait for. -/
def laneOf (lanes : Lanes S) : List Nat → Lanes S × Nat
  | [] => freeLane lanes
  | lane :: _ => (lanes, lane)

/-- The lanes that wait for the commit. -/
def waiting (lanes : Lanes S) (commit : GraphCommit S) : List Nat :=
  lanesWhere (· = some commit.sha) lanes

/-- The body of the loop over the commits. -/
def row (lanes : Lanes S) (commit : GraphCommit S) : Lanes S × GraphRow S :=
  let start := laneOf lanes (waiting lanes commit)
  let mergeFrom := (waiting lanes commit).drop 1
  let passThrough := lanesWhere (fun s => s ≠ none ∧ s ≠ some commit.sha) start.1
  let freed := mergeFrom.foldl (fun lanes i => lanes.set i none) start.1
  let placed := parentsOf freed start.2 commit.parents
  (trim placed.1,
    { sha := commit.sha
      lane := start.2
      fromAbove := waiting lanes commit ≠ []
      passThrough := passThrough
      mergeFrom := mergeFrom
      parentLanes := placed.2
      width := ((passThrough ++ mergeFrom ++ placed.2).map (· + 1)).foldl max (start.2 + 1) })

/-- The loop over the commits. -/
def addRow (s : Lanes S × GraphLayout S) (commit : GraphCommit S) : Lanes S × GraphLayout S :=
  let next := row s.1 commit
  (next.1, { rows := s.2.rows ++ [next.2], width := max s.2.width next.2.width })

def computeGraphLayout (commits : List (GraphCommit S)) : GraphLayout S :=
  (commits.foldl addRow ([], ⟨[], 0⟩)).2

/-! ## Lines -/

/-- The line to the parent with index `k`, which is `s`, leaves row `r` in lane `i`. -/
def Leaves (commits : List (GraphCommit S)) (rows : List (GraphRow S)) (r k i : Nat) (s : S) :
    Prop :=
  ∃ (commit : GraphCommit S) (line : GraphRow S), commits[r]? = some commit ∧
    rows[r]? = some line ∧ commit.parents[k]? = some s ∧ line.parentLanes[k]? = some i

/-- None of the rows `r + 1`, …, `m - 1` is that of the commit `s`. -/
def Below (commits : List (GraphCommit S)) (s : S) (r m : Nat) : Prop :=
  ∀ j c, r < j → j < m → commits[j]? = some c → c.sha ≠ s

/-- A line enters the row in a lane, to end at the commit. -/
def Enters (row : GraphRow S) (i : Nat) : Prop :=
  (row.fromAbove = true ∧ i = row.lane) ∨ i ∈ row.mergeFrom

/-- The rows draw exactly the lines from commits to their parents. -/
structure Drawn (commits : List (GraphCommit S)) (rows : List (GraphRow S)) : Prop where
  /-- each commit has its row, with a lane for each parent -/
  shape : ∀ (r : Nat) (commit : GraphCommit S), commits[r]? = some commit →
    ∃ line : GraphRow S, rows[r]? = some line ∧ line.sha = commit.sha ∧
      line.parentLanes.length = commit.parents.length
  length : rows.length = commits.length
  /-- a line passes through all rows before that of the parent, and enters that -/
  reaches : ∀ r k i s, Leaves commits rows r k i s →
    ∀ (q : Nat) target line, commits[q]? = some target → target.sha = s →
      rows[q]? = some line → r < q ∧ Enters line i ∧
        ∀ (m : Nat) between, r < m → m < q → rows[m]? = some between → i ∈ between.passThrough
  /-- a line to a commit that is not there passes through all rows below -/
  runs : ∀ r k i s, Leaves commits rows r k i s → (∀ c ∈ commits, c.sha ≠ s) →
    ∀ (m : Nat) line, r < m → rows[m]? = some line → i ∈ line.passThrough
  /-- above a row and below the last one, lines to different parents are in different lanes -/
  apart : ∀ m r k i s r' k' s', Leaves commits rows r k i s → Leaves commits rows r' k' i s' →
    r < m → Below commits s r m → r' < m → Below commits s' r' m → s = s'
  /-- what enters a row is a line -/
  comes : ∀ (m : Nat) c line i, commits[m]? = some c → rows[m]? = some line →
    (Enters line i → ∃ r k, r < m ∧ Leaves commits rows r k i c.sha ∧ Below commits c.sha r m) ∧
      (i ∈ line.passThrough →
        ∃ r k s, r < m ∧ Leaves commits rows r k i s ∧ Below commits s r m ∧ s ≠ c.sha)
  /-- no line runs through the dot of a commit -/
  dot : ∀ line ∈ rows, line.lane ∉ line.passThrough
  width : ∀ line ∈ rows, line.lane < line.width ∧
    ∀ i, i ∈ line.passThrough ∨ i ∈ line.mergeFrom ∨ i ∈ line.parentLanes → i < line.width

/-! ## Lanes -/

omit [DecidableEq S] in
theorem waits_set {lanes : Lanes S} {i : Nat} (hi : i < lanes.length) (x : Option S) (j : Nat) :
    waits (lanes.set i x) j = if j = i then x else waits lanes j := by
  rw [waits, waits, List.getD_eq_getElem?_getD, List.getD_eq_getElem?_getD, List.getElem?_set]
  by_cases hj : j = i
  · subst hj
    rw [if_pos rfl, if_pos hi, if_pos rfl, Option.getD_some]
  · rw [if_neg (Ne.symm hj), if_neg hj]

omit [DecidableEq S] in
theorem lt_of_waits {lanes : Lanes S} {i : Nat} {s : S} (h : waits lanes i = some s) :
    i < lanes.length := by
  by_contra hi
  rw [waits, List.getD_eq_default _ _ (not_lt.1 hi)] at h
  cases h

omit [DecidableEq S] in
theorem waits_concat (lanes : Lanes S) (i : Nat) : waits (lanes ++ [none]) i = waits lanes i := by
  rw [waits, waits, List.getD_eq_getElem?_getD, List.getD_eq_getElem?_getD, List.getElem?_append]
  split
  case isTrue => rfl
  case isFalse hi =>
    rw [List.getElem?_eq_none (not_lt.1 hi)]
    cases i - lanes.length <;> rfl

omit [DecidableEq S] in
theorem waits_trim (lanes : Lanes S) (i : Nat) : waits (trim lanes) i = waits lanes i := by
  induction lanes using List.reverseRecOn with
  | nil => rfl
  | append_singleton lanes x ih =>
    rw [trim, List.rdropWhile_concat]
    cases x with
    | none =>
      rw [if_pos Option.isNone_none, waits_concat]
      exact ih
    | some s => rfl

/-- A free lane waits for nothing, and finding one changes nothing. -/
theorem freeLane_spec (lanes : Lanes S) :
    (freeLane lanes).2 < (freeLane lanes).1.length ∧ waits lanes (freeLane lanes).2 = none ∧
      ∀ i, waits (freeLane lanes).1 i = waits lanes i := by
  rw [freeLane]
  cases hfree : lanes.idxOf? none with
  | some free =>
    obtain ⟨hlt, hget, -⟩ := List.findIdx?_eq_some_iff_getElem.1 hfree
    refine ⟨hlt, ?_, fun _ => rfl⟩
    rw [waits, List.getD_eq_getElem _ _ hlt]
    exact beq_iff_eq.1 hget
  | none =>
    refine ⟨?_, ?_, waits_concat lanes⟩
    · rw [List.length_append, List.length_singleton]
      exact Nat.lt_succ_self _
    · rw [waits, List.getD_eq_default _ _ le_rfl]

omit [DecidableEq S] in
theorem mem_lanesWhere {p : Option S → Bool} (hp : p none = false) {lanes : Lanes S} {i : Nat} :
    i ∈ lanesWhere p lanes ↔ p (waits lanes i) = true := by
  rw [lanesWhere, List.mem_filter, List.mem_range]
  refine ⟨And.right, fun h => ⟨?_, h⟩⟩
  by_contra hi
  rw [waits, List.getD_eq_default _ _ (not_lt.1 hi), hp] at h
  cases h

/-- **A further parent.** -/
theorem placeParent_spec (lanes : Lanes S) (parent : S) (j : Nat) (s : S) :
    waits (placeParent lanes parent).1 j = some s ↔
      waits lanes j = some s ∨ (placeParent lanes parent).2 = j ∧ parent = s := by
  rw [placeParent]
  cases hfound : lanes.idxOf? (some parent) with
  | some existing =>
    obtain ⟨hlt, hget, -⟩ := List.findIdx?_eq_some_iff_getElem.1 hfound
    have hwaits : waits lanes existing = some parent := by
      rw [waits, List.getD_eq_getElem _ _ hlt]
      exact beq_iff_eq.1 hget
    refine ⟨Or.inl, ?_⟩
    rintro (h | ⟨rfl, rfl⟩)
    · exact h
    · exact hwaits
  | none =>
    obtain ⟨hlt, hnone, hsame⟩ := freeLane_spec lanes
    dsimp only
    rw [waits_set hlt, hsame]
    by_cases hj : j = (freeLane lanes).2
    · subst hj
      rw [if_pos rfl, hnone, Option.some.injEq]
      exact ⟨fun h => Or.inr ⟨rfl, h⟩, fun h => h.elim nofun And.right⟩
    · rw [if_neg hj]
      exact ⟨Or.inl, fun h => h.elim id fun h => absurd h.1.symm hj⟩

/-- **The further parents.** -/
theorem placeParents_spec (parents : List S) (lanes : Lanes S) :
    (placeParents lanes parents).2.length = parents.length ∧ ∀ (j : Nat) (s : S),
      (waits (placeParents lanes parents).1 j = some s ↔ waits lanes j = some s ∨
        ∃ k : Nat, parents[k]? = some s ∧ (placeParents lanes parents).2[k]? = some j) := by
  induction parents generalizing lanes with
  | nil => exact ⟨rfl, fun j s => ⟨Or.inl, fun h => h.elim id fun ⟨k, hk, _⟩ => nomatch hk⟩⟩
  | cons parent parents ih =>
    obtain ⟨hlength, hrest⟩ := ih (placeParent lanes parent).1
    refine ⟨congrArg Nat.succ hlength, fun j s => ?_⟩
    rw [placeParents]
    dsimp only
    rw [hrest, placeParent_spec, or_assoc]
    refine or_congr_right ⟨?_, ?_⟩
    · rintro (⟨rfl, rfl⟩ | ⟨k, hk, hlane⟩)
      · exact ⟨0, rfl, rfl⟩
      · exact ⟨k + 1, hk, hlane⟩
    · rintro ⟨k, hk, hlane⟩
      cases k with
      | zero => exact Or.inl ⟨Option.some.inj hlane, Option.some.inj hk⟩
      | succ k => exact Or.inr ⟨k, hk, hlane⟩

/-- **All parents.** -/
theorem parentsOf_spec {lanes : Lanes S} {lane : Nat} (hlane : lane < lanes.length)
    (parents : List S) :
    (parentsOf lanes lane parents).2.length = parents.length ∧ ∀ (j : Nat) (s : S),
      (waits (parentsOf lanes lane parents).1 j = some s ↔ (j ≠ lane ∧ waits lanes j = some s) ∨
        ∃ k : Nat, parents[k]? = some s ∧ (parentsOf lanes lane parents).2[k]? = some j) := by
  cases parents with
  | nil =>
    refine ⟨rfl, fun j s => ?_⟩
    rw [parentsOf]
    dsimp only
    rw [waits_set hlane]
    by_cases hj : j = lane
    · simp [hj]
    · simp [hj]
  | cons first parents =>
    obtain ⟨hlength, hrest⟩ := placeParents_spec parents (lanes.set lane (some first))
    refine ⟨congrArg Nat.succ hlength, fun j s => ?_⟩
    rw [parentsOf]
    dsimp only
    rw [hrest, waits_set hlane]
    constructor
    · rintro (h | ⟨k, hk, hlane⟩)
      · by_cases hj : j = lane
        · rw [if_pos hj] at h
          exact Or.inr ⟨0, h, congrArg some hj.symm⟩
        · rw [if_neg hj] at h
          exact Or.inl ⟨hj, h⟩
      · exact Or.inr ⟨k + 1, hk, hlane⟩
    · rintro (⟨hj, h⟩ | ⟨k, hk, hat⟩)
      · rw [if_neg hj]
        exact Or.inl h
      · cases k with
        | zero =>
          rw [if_pos (Option.some.inj hat).symm]
          exact Or.inl hk
        | succ k => exact Or.inr ⟨k, hk, hat⟩

omit [DecidableEq S] in
/-- Freeing some lanes. -/
theorem waits_freed {freed : List Nat} {lanes : Lanes S} (h : ∀ i ∈ freed, i < lanes.length) :
    (freed.foldl (fun lanes i => lanes.set i none) lanes).length = lanes.length ∧ ∀ j,
      waits (freed.foldl (fun lanes i => lanes.set i none) lanes) j =
        if j ∈ freed then none else waits lanes j := by
  induction freed generalizing lanes with
  | nil => exact ⟨rfl, fun j => (if_neg List.not_mem_nil).symm⟩
  | cons i freed ih =>
    rw [List.forall_mem_cons] at h
    obtain ⟨hlength, hrest⟩ := @ih (lanes.set i none) (by rw [List.length_set]; exact h.2)
    refine ⟨by rw [List.foldl_cons, hlength, List.length_set], fun j => ?_⟩
    rw [List.foldl_cons, hrest, waits_set h.1]
    by_cases hj : j = i
    · simp [hj]
    · simp [hj]

/-! ## One row -/

section Row

variable (lanes : Lanes S) (commit : GraphCommit S)

theorem mem_waiting {i : Nat} : i ∈ waiting lanes commit ↔ waits lanes i = some commit.sha := by
  rw [waiting, mem_lanesWhere (by simp), decide_eq_true_iff]

/-- The lane of the commit: the first that waits for it, or one that waits for nothing. -/
theorem laneOf_spec :
    (laneOf lanes (waiting lanes commit)).2 < (laneOf lanes (waiting lanes commit)).1.length ∧
      (∀ i, waits (laneOf lanes (waiting lanes commit)).1 i = waits lanes i) ∧
      (waiting lanes commit = [] ∧ waits lanes (laneOf lanes (waiting lanes commit)).2 = none ∨
        waiting lanes commit =
          (laneOf lanes (waiting lanes commit)).2 :: (waiting lanes commit).drop 1) := by
  cases hwaiting : waiting lanes commit with
  | nil =>
    obtain ⟨hlt, hnone, hsame⟩ := freeLane_spec lanes
    exact ⟨hlt, hsame, Or.inl ⟨rfl, hnone⟩⟩
  | cons lane rest =>
    have hmem : lane ∈ waiting lanes commit := by
      rw [hwaiting]
      exact List.mem_cons_self
    exact ⟨lt_of_waits ((mem_waiting lanes commit).1 hmem), fun _ => rfl, Or.inr rfl⟩

/-- What enters the row of a commit is what waits for it. -/
theorem enters_iff (i : Nat) :
    Enters (row lanes commit).2 i ↔ waits lanes i = some commit.sha := by
  rw [← mem_waiting]
  obtain ⟨-, -, hlane⟩ := laneOf_spec lanes commit
  have hrow : Enters (row lanes commit).2 i ↔
      (decide (waiting lanes commit ≠ []) = true ∧ i = (laneOf lanes (waiting lanes commit)).2) ∨
        i ∈ (waiting lanes commit).drop 1 := Iff.rfl
  rw [hrow, decide_eq_true_iff]
  rcases hlane with ⟨hnil, -⟩ | hcons
  · simp [hnil]
  · generalize laneOf lanes (waiting lanes commit) = start at hcons
    rw [hcons]
    simp

/-- What passes the row of a commit is what waits for another one. -/
theorem mem_passThrough (i : Nat) :
    i ∈ (row lanes commit).2.passThrough ↔ ∃ s, waits lanes i = some s ∧ s ≠ commit.sha := by
  obtain ⟨-, hsame, -⟩ := laneOf_spec lanes commit
  have hrow : (row lanes commit).2.passThrough =
      lanesWhere (fun s => s ≠ none ∧ s ≠ some commit.sha)
        (laneOf lanes (waiting lanes commit)).1 := rfl
  rw [hrow, mem_lanesWhere (by simp), hsame, decide_eq_true_iff]
  cases waits lanes i <;> simp

theorem not_mem_passThrough : (row lanes commit).2.lane ∉ (row lanes commit).2.passThrough := by
  rw [mem_passThrough]
  rintro ⟨s, hs, hne⟩
  obtain ⟨-, -, hlane⟩ := laneOf_spec lanes commit
  have hrow : (row lanes commit).2.lane = (laneOf lanes (waiting lanes commit)).2 := rfl
  rw [hrow] at hs
  rcases hlane with ⟨-, hnone⟩ | hcons
  · rw [hnone] at hs
    cases hs
  · have hmem : (laneOf lanes (waiting lanes commit)).2 ∈ waiting lanes commit := by
      rw [hcons]
      exact List.mem_cons_self
    rw [mem_waiting, hs] at hmem
    exact hne (Option.some.inj hmem)

/-- **One row.** Below it a lane waits for what it waited for above, unless that is the commit, or
for a parent of the commit. -/
theorem row_spec :
    (row lanes commit).2.parentLanes.length = commit.parents.length ∧ ∀ (j : Nat) (s : S),
      (waits (row lanes commit).1 j = some s ↔
        (waits lanes j = some s ∧ s ≠ commit.sha) ∨
          ∃ k : Nat, commit.parents[k]? = some s ∧
            (row lanes commit).2.parentLanes[k]? = some j) := by
  obtain ⟨hlt, hsame, hlane⟩ := laneOf_spec lanes commit
  let start := laneOf lanes (waiting lanes commit)
  let merged := (waiting lanes commit).drop 1
  have hmerged : ∀ i ∈ merged, i < start.1.length := by
    intro i hi
    refine lt_of_waits (s := commit.sha) ?_
    rw [hsame, ← mem_waiting]
    exact List.mem_of_mem_drop hi
  obtain ⟨hlength, hfreed⟩ := waits_freed hmerged
  have hstart : start.2 < (merged.foldl (fun lanes i => lanes.set i none) start.1).length := by
    rw [hlength]
    exact hlt
  obtain ⟨hparents, hplaced⟩ := parentsOf_spec hstart commit.parents
  refine ⟨hparents, fun j s => ?_⟩
  have hnext : waits (row lanes commit).1 j =
      waits (parentsOf (merged.foldl (fun lanes i => lanes.set i none) start.1) start.2
        commit.parents).1 j := waits_trim _ j
  rw [hnext, hplaced, hfreed, hsame]
  refine or_congr_left ?_
  have hmem : waits lanes j = some commit.sha ↔ j ∈ waiting lanes commit :=
    (mem_waiting lanes commit).symm
  rcases hlane with ⟨hnil, hnone⟩ | hcons
  · -- the commit was not awaited
    have hempty : j ∉ merged := by simp [merged, hnil]
    rw [if_neg hempty]
    constructor
    · rintro ⟨-, hs⟩
      refine ⟨hs, ?_⟩
      rintro rfl
      rw [hmem, hnil] at hs
      cases hs
    · rintro ⟨hs, -⟩
      refine ⟨?_, hs⟩
      rintro rfl
      rw [hnone] at hs
      cases hs
  · have hsplit : j ∈ waiting lanes commit ↔ j = start.2 ∨ j ∈ merged := by
      rw [hcons, List.mem_cons]
    rw [hsplit] at hmem
    constructor
    · rintro ⟨hj, hs⟩
      by_cases hjm : j ∈ merged
      · rw [if_pos hjm] at hs
        cases hs
      · rw [if_neg hjm] at hs
        refine ⟨hs, ?_⟩
        rintro rfl
        exact (hmem.1 hs).elim hj hjm
    · rintro ⟨hs, hne⟩
      have hnot : ¬ (j = start.2 ∨ j ∈ merged) := by
        rw [← hmem, hs]
        exact fun heq => hne (Option.some.inj heq)
      rw [not_or] at hnot
      exact ⟨hnot.1, by rw [if_neg hnot.2]; exact hs⟩

/-- Every lane of a row is drawn within its width. -/
theorem lt_width : (row lanes commit).2.lane < (row lanes commit).2.width ∧
    ∀ i, i ∈ (row lanes commit).2.passThrough ∨ i ∈ (row lanes commit).2.mergeFrom ∨
      i ∈ (row lanes commit).2.parentLanes → i < (row lanes commit).2.width := by
  have hfold : ∀ (l : List Nat) (a : Nat), a ≤ l.foldl max a ∧ ∀ x ∈ l, x ≤ l.foldl max a := by
    intro l
    induction l with
    | nil => exact fun a => ⟨le_rfl, nofun⟩
    | cons b l ih =>
      intro a
      obtain ⟨hle, hmem⟩ := ih (max a b)
      rw [List.foldl_cons, List.forall_mem_cons]
      exact ⟨(le_max_left a b).trans hle, (le_max_right a b).trans hle, hmem⟩
  obtain ⟨hle, hmem⟩ := hfold (((row lanes commit).2.passThrough ++
    (row lanes commit).2.mergeFrom ++ (row lanes commit).2.parentLanes).map (· + 1))
    ((row lanes commit).2.lane + 1)
  refine ⟨hle, fun i hi => hmem (i + 1) (List.mem_map_of_mem ?_)⟩
  rw [List.append_assoc, List.mem_append, List.mem_append]
  exact hi

end Row

/-! ## All rows -/

/-- The lanes below some commits. -/
def lanesBelow (commits : List (GraphCommit S)) : Lanes S :=
  commits.foldl (fun lanes commit => (row lanes commit).1) []

theorem lanesBelow_concat (commits : List (GraphCommit S)) (commit : GraphCommit S) :
    lanesBelow (commits ++ [commit]) = (row (lanesBelow commits) commit).1 :=
  List.foldl_append

/-- The rows of the layout. -/
theorem rows_spec (commits : List (GraphCommit S)) :
    (commits.foldl addRow ([], ⟨[], 0⟩)).1 = lanesBelow commits ∧
      (computeGraphLayout commits).rows.length = commits.length ∧
      ∀ r, (computeGraphLayout commits).rows[r]? =
        commits[r]?.map fun commit => (row (lanesBelow (commits.take r)) commit).2 := by
  induction commits using List.reverseRecOn with
  | nil => exact ⟨rfl, rfl, fun r => rfl⟩
  | append_singleton commits commit ih =>
    obtain ⟨hlanes, hlength, hrows⟩ := ih
    have hnext : (commits ++ [commit]).foldl addRow ([], ⟨[], 0⟩) =
        addRow (commits.foldl addRow ([], ⟨[], 0⟩)) commit := List.foldl_append
    have hlayout : (computeGraphLayout (commits ++ [commit])).rows =
        (computeGraphLayout commits).rows ++ [(row (lanesBelow commits) commit).2] := by
      rw [computeGraphLayout, hnext, addRow, hlanes]
      rfl
    refine ⟨?_, ?_, fun r => ?_⟩
    · rw [hnext, addRow, hlanes, lanesBelow_concat]
    · rw [hlayout, List.length_append, List.length_append, hlength]
      rfl
    · rw [hlayout]
      by_cases hr : r < commits.length
      · rw [List.getElem?_append_left (by omega), List.getElem?_append_left hr, hrows,
          List.take_append_of_le_length hr.le]
      · rw [List.getElem?_append_right (by omega), List.getElem?_append_right (by omega), hlength]
        cases hsub : r - commits.length with
        | zero =>
          have hreq : r = commits.length := by omega
          rw [hreq, List.take_left]
          rfl
        | succ n => rfl

section Lines

variable {commits : List (GraphCommit S)}

/-- A line leaves a row in the lane that the row gives to the parent. -/
theorem leaves_iff {r k i : Nat} {s : S} :
    Leaves commits (computeGraphLayout commits).rows r k i s ↔
      ∃ commit, commits[r]? = some commit ∧ commit.parents[k]? = some s ∧
        (row (lanesBelow (commits.take r)) commit).2.parentLanes[k]? = some i := by
  constructor
  · rintro ⟨commit, line, hcommit, hrow, hparent, hlane⟩
    rw [(rows_spec commits).2.2, hcommit] at hrow
    rw [← Option.some.inj hrow] at hlane
    exact ⟨commit, hcommit, hparent, hlane⟩
  · rintro ⟨commit, hcommit, hparent, hlane⟩
    refine ⟨commit, _, hcommit, ?_, hparent, hlane⟩
    rw [(rows_spec commits).2.2, hcommit]
    rfl

theorem lt_of_leaves {r k i : Nat} {s : S}
    (h : Leaves commits (computeGraphLayout commits).rows r k i s) : r < commits.length := by
  obtain ⟨commit, _, hcommit, -⟩ := h
  exact (List.getElem?_eq_some_iff.1 hcommit).1

/-- **The invariant.** Above row `m` a lane waits for the commit to which a line runs in it. -/
theorem awaits_iff {m : Nat} (hm : m ≤ commits.length) (i : Nat) (s : S) :
    waits (lanesBelow (commits.take m)) i = some s ↔
      ∃ r k, r < m ∧ Leaves commits (computeGraphLayout commits).rows r k i s ∧
        Below commits s r m := by
  induction m generalizing i s with
  | zero =>
    rw [List.take_zero]
    exact iff_of_false nofun fun ⟨r, _, hr, _⟩ => absurd hr (Nat.not_lt_zero r)
  | succ m ih =>
    have hlt : m < commits.length := hm
    have hcommit : commits[m]? = some (commits.get ⟨m, hlt⟩) := List.getElem?_eq_getElem hlt
    have htake : commits.take (m + 1) = commits.take m ++ [commits.get ⟨m, hlt⟩] := by
      rw [List.take_add_one, hcommit]
      rfl
    rw [htake, lanesBelow_concat, (row_spec _ _).2, ih hlt.le]
    constructor
    · rintro (⟨⟨r, k, hr, hleaves, hbelow⟩, hne⟩ | ⟨k, hparent, hlane⟩)
      · refine ⟨r, k, by omega, hleaves, fun j c hrj hj hc => ?_⟩
        rcases Nat.lt_succ_iff_lt_or_eq.1 hj with hj | rfl
        · exact hbelow j c hrj hj hc
        · rw [hcommit] at hc
          rw [← Option.some.inj hc]
          exact hne.symm
      · refine ⟨m, k, Nat.lt_succ_self m, leaves_iff.2 ⟨_, hcommit, hparent, hlane⟩, ?_⟩
        intro j c hmj hj
        omega
    · rintro ⟨r, k, hr, hleaves, hbelow⟩
      rcases Nat.lt_succ_iff_lt_or_eq.1 hr with hr | rfl
      · refine Or.inl ⟨⟨r, k, hr, hleaves, fun j c hrj hj => hbelow j c hrj (by omega)⟩, ?_⟩
        exact (hbelow m _ hr (Nat.lt_succ_self m) hcommit).symm
      · obtain ⟨commit, hc, hparent, hlane⟩ := leaves_iff.1 hleaves
        rw [hcommit] at hc
        rw [Option.some.inj hc]
        exact Or.inr ⟨k, hparent, hlane⟩

/-- A row of the layout. -/
theorem row_of_getElem? {m : Nat} {line : GraphRow S}
    (h : (computeGraphLayout commits).rows[m]? = some line) :
    ∃ commit, commits[m]? = some commit ∧ m < commits.length ∧
      line = (row (lanesBelow (commits.take m)) commit).2 := by
  rw [(rows_spec commits).2.2] at h
  obtain ⟨commit, hcommit, hline⟩ := Option.map_eq_some_iff.1 h
  exact ⟨commit, hcommit, (List.getElem?_eq_some_iff.1 hcommit).1, hline.symm⟩

/-- A line that has not met its commit passes a row. -/
theorem passes {r k i : Nat} {s : S}
    (hleaves : Leaves commits (computeGraphLayout commits).rows r k i s) {m : Nat} (hr : r < m)
    (hbelow : Below commits s r (m + 1)) {line : GraphRow S}
    (hline : (computeGraphLayout commits).rows[m]? = some line) : i ∈ line.passThrough := by
  obtain ⟨commit, hcommit, hlt, rfl⟩ := row_of_getElem? hline
  rw [mem_passThrough]
  refine ⟨s, ?_, (hbelow m commit hr (Nat.lt_succ_self m) hcommit).symm⟩
  exact (awaits_iff hlt.le i s).2 ⟨r, k, hr, hleaves, fun j c hrj hj => hbelow j c hrj (by omega)⟩

end Lines

/-- **The layout of a history** whose commits are distinct and stand before their parents draws
exactly the lines from commits to their parents. -/
theorem layout_drawn (commits : List (GraphCommit S))
    (hdistinct : (commits.map GraphCommit.sha).Nodup)
    (htopo : ∀ (r q : Nat) (commit target : GraphCommit S), commits[r]? = some commit →
      commits[q]? = some target → target.sha ∈ commit.parents → r < q) :
    Drawn commits (computeGraphLayout commits).rows where
  shape r commit hcommit := by
    refine ⟨(row (lanesBelow (commits.take r)) commit).2, ?_, rfl, (row_spec _ commit).1⟩
    rw [(rows_spec commits).2.2, hcommit]
    rfl
  length := (rows_spec commits).2.1
  reaches r k i s hleaves q target line htarget hsha hline := by
    obtain ⟨commit, hcommit, hparent, -⟩ := leaves_iff.1 hleaves
    have hr : r < q := by
      refine htopo r q commit target hcommit htarget ?_
      rw [hsha]
      exact List.mem_of_getElem? hparent
    -- the commits are distinct
    have hbelow : Below commits s r q := by
      intro j c _ hj hc heq
      have hne := List.nodup_iff_getElem?_ne_getElem?.1 hdistinct j q hj
        (by rw [List.length_map]; exact (List.getElem?_eq_some_iff.1 htarget).1)
      rw [List.getElem?_map, List.getElem?_map, hc, htarget, Option.map_some, Option.map_some,
        heq, hsha] at hne
      exact hne rfl
    obtain ⟨_, htarget', hlt, rfl⟩ := row_of_getElem? hline
    rw [htarget] at htarget'
    obtain rfl := Option.some.inj htarget'
    refine ⟨hr, ?_, fun m between hrm hmq hbetween => ?_⟩
    · rw [enters_iff, hsha]
      exact (awaits_iff hlt.le i s).2 ⟨r, k, hr, hleaves, hbelow⟩
    · exact passes hleaves hrm (fun j c hrj hj => hbelow j c hrj (by omega)) hbetween
  runs r k i s hleaves hnone m line hr hline :=
    passes hleaves hr (fun j c _ _ hc => hnone c (List.mem_of_getElem? hc)) hline
  apart m r k i s r' k' s' hleaves hleaves' hr hbelow hr' hbelow' := by
    have hwaits := fun {r k : Nat} {s : S} (hr : r < m) (hbelow : Below commits s r m)
        (hleaves : Leaves commits (computeGraphLayout commits).rows r k i s) =>
      (awaits_iff (Nat.min_le_right m commits.length) i s).2
        ⟨r, k, lt_min hr (lt_of_leaves hleaves), hleaves,
          fun j c hrj hj => hbelow j c hrj (hj.trans_le (Nat.min_le_left _ _))⟩
    exact Option.some.inj ((hwaits hr hbelow hleaves).symm.trans (hwaits hr' hbelow' hleaves'))
  comes m c line i hc hline := by
    obtain ⟨_, hc', hlt, rfl⟩ := row_of_getElem? hline
    rw [hc] at hc'
    obtain rfl := Option.some.inj hc'
    constructor
    · intro henters
      exact (awaits_iff hlt.le i c.sha).1 ((enters_iff _ c i).1 henters)
    · intro hpass
      obtain ⟨s, hs, hne⟩ := (mem_passThrough _ c i).1 hpass
      obtain ⟨r, k, hr, hleaves, hbelow⟩ := (awaits_iff hlt.le i s).1 hs
      exact ⟨r, k, s, hr, hleaves, hbelow, hne⟩
  dot line hline := by
    obtain ⟨m, hm⟩ := List.mem_iff_getElem?.1 hline
    obtain ⟨c, -, -, rfl⟩ := row_of_getElem? hm
    exact not_mem_passThrough _ c
  width line hline := by
    obtain ⟨m, hm⟩ := List.mem_iff_getElem?.1 hline
    obtain ⟨c, -, -, rfl⟩ := row_of_getElem? hm
    exact lt_width _ c

/-- A merge of two children of one commit. -/
def merge : List (GraphCommit Nat) := [⟨3, [2, 1]⟩, ⟨2, [0]⟩, ⟨1, [0]⟩, ⟨0, []⟩]

theorem layout_drawn_merge : Drawn merge (computeGraphLayout merge).rows := by
  refine layout_drawn merge (by decide) fun r q commit target hr hq hmem => ?_
  have hrlt : r < 4 := (List.getElem?_eq_some_iff.1 hr).1
  have hqlt : q < 4 := (List.getElem?_eq_some_iff.1 hq).1
  have hall : ∀ r < 4, ∀ q < 4, ∀ commit ∈ merge[r]?, ∀ target ∈ merge[q]?,
      target.sha ∈ commit.parents → r < q := by decide
  exact hall r hrlt q hqlt commit hr target hq hmem

end CommitGraph
end Mullion
