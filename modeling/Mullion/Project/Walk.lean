import Mullion.Project.Merge

/-!
# The walk over the duplicate's tasks

What `mergeTasks` does to every task row.

* `merged` — the row of a task after a part of the duplicate's tasks was walked, as a
  function of the row before the merge;
* `Walked`, `Walked.rows_mergeTask`, `Walked.noted_mergeTask` — one task further;
* `walk_spec` — the walk computes `merged` and notes every copy that loses its issue;
* `Outcome`, `outcome` — the five things that can happen to a row.
-/

namespace Mullion
namespace Merge

/-! ## The walk, row by row -/

section Walk

variable (db : Db) (fromId toId now : Nat)

/-- The live task of the walked ones that takes over the issue of a survivor's row. -/
def replacement (walked : List Task) (a : Task) : Option Task :=
  walked.find? (fun t => isLive t && t.issueNumber.isSome && decide (t.issueNumber = a.issueNumber))

/-- The row of `a` when the tasks `walked` of the duplicate have been merged. -/
def merged (walked : List Task) (a : Task) : Task :=
  if a ∈ walked then
    match copyOf db.tasks toId a.issueNumber with
    | none => moveTask toId a
    | some _ =>
      if isLive a then moveTask toId a
      else supersedeMoved toId a now (supersededMergeReason fromId) a
  else if a.projectId = toId then
    match replacement walked a with
    | some t => supersede a now (replacedByMergeReason t.id fromId) a
    | none => a
  else a

/-- The index of tasks by project and issue number. -/
def issueKey (t : Task) : Option (Nat × Nat) := t.issueNumber.map fun n => (t.projectId, n)

variable {db fromId toId now}

theorem merged_id (walked : List Task) (a : Task) :
    (merged db fromId toId now walked a).id = a.id := by
  unfold merged
  split
  · split
    · rfl
    · split
      · rfl
      · simp
  · split
    · split
      · simp
      · rfl
    · rfl

theorem issueNumber_supersede (copy : Task) (now : Nat) (reason : String) (row : Task) :
    (supersede copy now reason row).issueNumber = none := by
  unfold supersede
  split <;> rfl

theorem projectId_supersede (copy : Task) (now : Nat) (reason : String) (row : Task) :
    (supersede copy now reason row).projectId = row.projectId := by
  unfold supersede
  split <;> rfl

theorem issueNumber_supersedeMoved (copy : Task) (now : Nat) (reason : String) (row : Task) :
    (supersedeMoved toId copy now reason row).issueNumber = none :=
  issueNumber_supersede copy now reason row

/-- The row found for an issue is the survivor's, and has that issue. -/
theorem copyOf_some {tasks : Table Task Task.id} {issue : Option Nat} {c : Task}
    (h : copyOf tasks toId issue = some c) :
    c ∈ tasks.rows ∧ c.projectId = toId ∧ c.issueNumber = issue ∧ issue ≠ none := by
  cases issue with
  | none => cases h
  | some n =>
    have hmem := List.mem_of_find?_eq_some h
    have hc := List.find?_some h
    simp only [Bool.and_eq_true, decide_eq_true_eq] at hc
    exact ⟨hmem, hc.1, hc.2, by simp⟩

/-- A row of the survivor with the issue is found. -/
theorem copyOf_of_mem {tasks : Table Task Task.id} {c : Task} (hc : c ∈ tasks.rows)
    (hp : c.projectId = toId) (hn : c.issueNumber ≠ none) :
    ∃ c', copyOf tasks toId c.issueNumber = some c' := by
  obtain ⟨n, hn⟩ := Option.ne_none_iff_exists'.1 hn
  rw [hn, copyOf, ← Option.isSome_iff_exists, List.find?_isSome]
  exact ⟨c, hc, by simp [hp, hn]⟩

/-- A search through rewritten rows finds what it found before, if the rewriting changes
no row that is searched for and makes no row one. -/
theorem find?_map_of_fixed {α : Type} {rows : List α} {q : α → Bool} {f : α → α}
    (h : ∀ a ∈ rows, q (f a) = q a ∧ (q a = true → f a = a)) :
    (rows.map f).find? q = rows.find? q := by
  induction rows with
  | nil => rfl
  | cons a rows ih =>
    obtain ⟨hq, hf⟩ := h a List.mem_cons_self
    have ih := ih fun b hb => h b (List.mem_cons_of_mem _ hb)
    cases ha : q a with
    | true =>
      rw [List.map_cons, hf ha, List.find?_cons_of_pos ha, List.find?_cons_of_pos ha]
    | false =>
      rw [List.map_cons, List.find?_cons_of_neg (by simp [hq, ha]),
        List.find?_cons_of_neg (by simp [ha]), ih]

/-- What holds of the walked tasks and of the next one. -/
structure Walked (db : Db) (fromId toId : Nat) (walked : List Task) (t : Task) : Prop where
  ne : fromId ≠ toId
  unique : db.tasks.UniqueOn issueKey
  walked_mem : ∀ a ∈ walked, a ∈ db.tasks.rows ∧ a.projectId = fromId
  mem : t ∈ db.tasks.rows
  project : t.projectId = fromId
  fresh : t ∉ walked

variable {walked : List Task} {t : Task}

/-- No walked task has the issue of the next one. -/
theorem Walked.issue_ne (h : Walked db fromId toId walked t) {a : Task} (ha : a ∈ walked)
    (hn : t.issueNumber ≠ none) : a.issueNumber ≠ t.issueNumber := by
  intro heq
  obtain ⟨hmem, hproj⟩ := h.walked_mem a ha
  have hkey : issueKey a = issueKey t := by simp only [issueKey, heq, hproj, h.project]
  have : a = t := h.unique a hmem t h.mem hkey (by simp [issueKey, heq, hn])
  exact h.fresh (this ▸ ha)

/-- A row of the survivor with the issue of the next task was left alone so far. -/
theorem Walked.merged_eq (h : Walked db fromId toId walked t) {a : Task} (hp : a.projectId = toId)
    (hn : a.issueNumber = t.issueNumber) : merged db fromId toId now walked a = a := by
  have hnot : a ∉ walked := fun ha => h.ne ((h.walked_mem a ha).2.symm.trans hp)
  have hnone : replacement walked a = none := by
    unfold replacement
    rw [List.find?_eq_none]
    intro b hb hlive
    simp only [Bool.and_eq_true, decide_eq_true_eq] at hlive
    have hsome : t.issueNumber ≠ none := by
      rw [← hn, ← hlive.2]
      exact Option.isSome_iff_ne_none.1 hlive.1.2
    exact h.issue_ne hb hsome (hlive.2.trans hn)
  rw [merged, if_neg hnot, if_pos hp, hnone]

/-- The survivor's copy of the next task's issue is the one it had before. -/
theorem Walked.copyOf_eq (h : Walked db fromId toId walked t) {tasks : Table Task Task.id}
    (hrows : tasks.rows = db.tasks.rows.map (merged db fromId toId now walked)) :
    copyOf tasks toId t.issueNumber = copyOf db.tasks toId t.issueNumber := by
  cases hn : t.issueNumber with
  | none => rfl
  | some n =>
    unfold copyOf
    rw [hrows]
    refine find?_map_of_fixed fun a ha => ?_
    by_cases hw : a ∈ walked
    · -- a walked task has another issue, or none
      have hq : (decide (a.projectId = toId) && decide (a.issueNumber = some n)) = false := by
        have : a.projectId ≠ toId := fun hp => h.ne ((h.walked_mem a hw).2.symm.trans hp)
        simp [this]
      have hissue : a.issueNumber ≠ some n := by
        rw [← hn]
        exact h.issue_ne hw (by simp [hn])
      refine ⟨?_, fun hqa => absurd hqa (by simp [hq])⟩
      rw [hq, Bool.and_eq_false_iff]
      refine Or.inr ?_
      rw [merged, if_pos hw]
      split
      · simp [moveTask, hissue]
      · split
        · simp [moveTask, hissue]
        · simp [supersedeMoved, moveTask, issueNumber_supersede]
    · by_cases hp : a.projectId = toId
      · by_cases hi : a.issueNumber = some n
        · rw [h.merged_eq hp (hi.trans hn.symm)]
          exact ⟨rfl, fun _ => rfl⟩
        · -- another issue of the survivor, superseded or not
          refine ⟨?_, fun hqa => absurd hqa (by simp [hi])⟩
          have hissue : (merged db fromId toId now walked a).issueNumber ≠ some n := by
            rw [merged, if_neg hw, if_pos hp]
            split
            · rw [issueNumber_supersede]
              simp
            · exact hi
          simp [hi, hissue]
      · rw [merged, if_neg hw, if_neg hp]
        exact ⟨rfl, fun _ => rfl⟩

/-- Walked before or not, another row looks at the next task only by its issue. -/
theorem Walked.merged_of_ne (h : Walked db fromId toId walked t) {a : Task} (hne : a ≠ t)
    (hother : isLive t = true → a.projectId = toId → t.issueNumber ≠ none →
      t.issueNumber ≠ a.issueNumber) :
    merged db fromId toId now (walked ++ [t]) a = merged db fromId toId now walked a := by
  have hmem : a ∈ walked ++ [t] ↔ a ∈ walked := by simp [hne]
  unfold merged
  by_cases hw : a ∈ walked
  · rw [if_pos (hmem.2 hw), if_pos hw]
  · rw [if_neg (fun hw' => hw (hmem.1 hw')), if_neg hw]
    by_cases hp : a.projectId = toId
    · rw [if_pos hp, if_pos hp]
      have hrep : replacement (walked ++ [t]) a = replacement walked a := by
        have hlast : [t].find? (fun t => isLive t && t.issueNumber.isSome &&
            decide (t.issueNumber = a.issueNumber)) = none := by
          rw [List.find?_eq_none]
          intro b hb hlive
          obtain rfl := List.mem_singleton.1 hb
          simp only [Bool.and_eq_true, decide_eq_true_eq, Option.isSome_iff_ne_none] at hlive
          exact hother hlive.1.1 hp hlive.1.2 hlive.2
        rw [replacement, replacement, List.find?_append, hlast, Option.or_none]
      rw [hrep]
    · rw [if_neg hp, if_neg hp]

/-- The next task itself. -/
theorem Walked.merged_self (h : Walked db fromId toId walked t) :
    merged db fromId toId now walked t = t := by
  have hp : t.projectId ≠ toId := fun hp => h.ne (h.project.symm.trans hp)
  rw [merged, if_neg h.fresh, if_neg hp]

/-- The copy that the next task replaces. -/
theorem Walked.merged_copy (h : Walked db fromId toId walked t) {c : Task}
    (hc : copyOf db.tasks toId t.issueNumber = some c) (hlive : isLive t = true) :
    merged db fromId toId now (walked ++ [t]) c =
      supersede c now (replacedByMergeReason t.id fromId) c := by
  obtain ⟨hmem, hp, hi, hsome⟩ := copyOf_some hc
  have hct : c ≠ t := by
    rintro rfl
    exact h.ne (h.project.symm.trans hp)
  have hnot : c ∉ walked ++ [t] := by
    intro hw
    rcases List.mem_append.1 hw with hw | hw
    · exact h.ne ((h.walked_mem c hw).2.symm.trans hp)
    · exact hct (List.mem_singleton.1 hw)
  have hrep : replacement (walked ++ [t]) c = some t := by
    have hfirst : replacement walked c = none := by
      unfold replacement
      rw [List.find?_eq_none]
      intro b hb hb'
      simp only [Bool.and_eq_true, decide_eq_true_eq] at hb'
      exact h.issue_ne hb hsome (hb'.2.trans hi)
    have hlast : [t].find? (fun t => isLive t && t.issueNumber.isSome &&
        decide (t.issueNumber = c.issueNumber)) = some t := by
      rw [List.find?_cons_of_pos]
      simp [hlive, hi, Option.isSome_iff_ne_none, hsome]
    unfold replacement at hfirst ⊢
    rw [List.find?_append, hfirst, hlast, Option.none_or]
  rw [merged, if_neg hnot, if_pos hp, hrep]

/-- The rows after a write of one row. -/
theorem rows_update_map {tasks : Table Task Task.id} {f : Task → Task} {k : Nat} {g : Task → Task}
    (hg : ∀ a, (g a).id = a.id) (hf : ∀ a, (f a).id = a.id) {rows : List Task}
    (hrows : tasks.rows = rows.map f) :
    (tasks.update k g hg).rows = rows.map (fun a => if a.id = k then g (f a) else f a) := by
  simp only [Table.update, Table.updateWhere, hrows, List.map_map]
  refine List.map_congr_left fun a _ => ?_
  simp [hf]

/-- **One task of the duplicate.** The walk computes `merged` one task further. -/
theorem Walked.rows_mergeTask (h : Walked db fromId toId walked t) {m : TaskMerge}
    (hrows : m.tasks.rows = db.tasks.rows.map (merged db fromId toId now walked)) :
    (mergeTask fromId toId now m t).tasks.rows =
      db.tasks.rows.map (merged db fromId toId now (walked ++ [t])) := by
  have hid : ∀ a ∈ db.tasks.rows, a.id = t.id → a = t := by
    intro a ha heq
    have := Table.get_of_mem ha
    rw [heq, Table.get_of_mem h.mem] at this
    exact (Option.some.inj this).symm
  have hcopy := h.copyOf_eq hrows
  have hself : t ∈ walked ++ [t] := List.mem_append_right _ List.mem_cons_self
  unfold mergeTask
  rw [hcopy]
  cases hc : copyOf db.tasks toId t.issueNumber with
  | none =>
    simp only
    refine (rows_update_map (moveTask_id toId) (merged_id walked) hrows).trans ?_
    refine List.map_congr_left fun a ha => ?_
    by_cases hat : a.id = t.id
    · rw [if_pos hat, hid a ha hat, h.merged_self, merged, if_pos hself, hc]
    · have hne : a ≠ t := fun heq => hat (heq ▸ rfl)
      rw [if_neg hat, h.merged_of_ne hne]
      intro _ hp hn heq
      -- the survivor does not track the issue
      obtain ⟨c, hc'⟩ := copyOf_of_mem ha hp (heq ▸ hn)
      rw [← heq, hc] at hc'
      cases hc'
  | some c =>
    obtain ⟨hmem, hp, hi, hsome⟩ := copyOf_some hc
    have hct : c.id ≠ t.id := by
      intro heq
      rw [hid c hmem heq] at hp
      exact h.ne (h.project.symm.trans hp)
    have hcid : ∀ a ∈ db.tasks.rows, a.id = c.id → a = c := by
      intro a ha heq
      have := Table.get_of_mem ha
      rw [heq, Table.get_of_mem hmem] at this
      exact (Option.some.inj this).symm
    simp only
    cases hlive : isLive t with
    | true =>
      simp only [if_true]
      have hfirst := rows_update_map (k := c.id)
        (supersede_id c now (replacedByMergeReason t.id fromId)) (merged_id walked) hrows
      refine (rows_update_map (moveTask_id toId) ?_ hfirst).trans ?_
      · intro a
        split
        · rw [supersede_id, merged_id]
        · exact merged_id walked a
      · refine List.map_congr_left fun a ha => ?_
        by_cases hat : a.id = t.id
        · rw [if_pos hat, hid a ha hat, if_neg (Ne.symm hct), h.merged_self, merged, if_pos hself, hc]
          simp only [hlive, if_true]
        · have hne : a ≠ t := fun heq => hat (heq ▸ rfl)
          rw [if_neg hat]
          by_cases hac : a.id = c.id
          · rw [if_pos hac, hcid a ha hac, h.merged_eq hp hi, h.merged_copy hc hlive]
          · rw [if_neg hac, h.merged_of_ne hne]
            intro _ hpa hn heq
            have hkey : issueKey a = issueKey c := by simp only [issueKey, hpa, hp, ← heq, hi]
            refine hac (congrArg Task.id (h.unique a ha c hmem hkey ?_))
            simp [issueKey, ← heq, hn]
    | false =>
      simp only [Bool.false_eq_true, if_false]
      refine (rows_update_map (supersedeMoved_id toId t now _) (merged_id walked) hrows).trans ?_
      refine List.map_congr_left fun a ha => ?_
      by_cases hat : a.id = t.id
      · rw [if_pos hat, hid a ha hat, h.merged_self, merged, if_pos hself, hc]
        simp only [hlive, Bool.false_eq_true, if_false]
      · have hne : a ≠ t := fun heq => hat (heq ▸ rfl)
        rw [if_neg hat, h.merged_of_ne hne]
        intro hlive'
        rw [hlive] at hlive'
        cases hlive'

theorem mem_noteSuperseded {copies : List Task} {copy a : Task} :
    a ∈ noteSuperseded copies copy ↔ a ∈ copies ∨ (a = copy ∧ needsStop copy = true) := by
  unfold noteSuperseded
  cases hn : needsStop copy <;> simp

/-- A row lost its issue in the walk. -/
def LostIssue (db : Db) (fromId toId now : Nat) (walked : List Task) (a : Task) : Prop :=
  a.issueNumber ≠ none ∧ (merged db fromId toId now walked a).issueNumber = none

/-- **One task of the duplicate.** Every copy that loses its issue is noted. -/
theorem Walked.noted_mergeTask (h : Walked db fromId toId walked t) {m : TaskMerge}
    (hrows : m.tasks.rows = db.tasks.rows.map (merged db fromId toId now walked))
    (hnoted : ∀ a ∈ db.tasks.rows, LostIssue db fromId toId now walked a → needsStop a = true →
      a ∈ m.supersededLive) :
    ∀ a ∈ db.tasks.rows, LostIssue db fromId toId now (walked ++ [t]) a → needsStop a = true →
      a ∈ (mergeTask fromId toId now m t).supersededLive := by
  intro a ha hlost hstop
  have hself : t ∈ walked ++ [t] := List.mem_append_right _ List.mem_cons_self
  unfold mergeTask
  rw [h.copyOf_eq hrows]
  cases hc : copyOf db.tasks toId t.issueNumber with
  | none =>
    by_cases hat : a = t
    · -- the task moves with its issue
      obtain ⟨hn, hlost⟩ := hlost
      rw [hat, merged, if_pos hself, hc] at hlost
      exact absurd hlost (by rw [← hat]; exact hn)
    · refine hnoted a ha ?_ hstop
      unfold LostIssue at hlost ⊢
      rwa [h.merged_of_ne hat ?_] at hlost
      intro _ hp hn heq
      obtain ⟨c, hc'⟩ := copyOf_of_mem ha hp (heq ▸ hn)
      rw [← heq, hc] at hc'
      cases hc'
  | some c =>
    obtain ⟨hmem, hp, hi, hsome⟩ := copyOf_some hc
    simp only
    cases hlive : isLive t with
    | true =>
      simp only [if_true]
      rw [mem_noteSuperseded]
      by_cases hac : a = c
      · exact Or.inr ⟨hac, hac ▸ hstop⟩
      · refine Or.inl ?_
        by_cases hat : a = t
        · obtain ⟨hn, hlost⟩ := hlost
          rw [hat, merged, if_pos hself, hc] at hlost
          simp only [hlive, if_true] at hlost
          exact absurd hlost (by rw [← hat]; exact hn)
        · refine hnoted a ha ?_ hstop
          unfold LostIssue at hlost ⊢
          rwa [h.merged_of_ne hat ?_] at hlost
          intro _ hpa hn heq
          have hkey : issueKey a = issueKey c := by simp only [issueKey, hpa, hp, ← heq, hi]
          exact hac (h.unique a ha c hmem hkey (by simp [issueKey, ← heq, hn]))
    | false =>
      simp only [Bool.false_eq_true, if_false]
      rw [mem_noteSuperseded]
      by_cases hat : a = t
      · exact Or.inr ⟨hat, hat ▸ hstop⟩
      · refine Or.inl (hnoted a ha ?_ hstop)
        unfold LostIssue at hlost ⊢
        rwa [h.merged_of_ne hat ?_] at hlost
        intro hlive'
        rw [hlive] at hlive'
        cases hlive'

/-- **The walk.** It rewrites every row by `merged`, and notes every copy that loses its
issue. -/
theorem walk_spec (now : Nat) (hne : fromId ≠ toId) (hunique : db.tasks.UniqueOn issueKey) :
    (mergeTasks db fromId toId now).tasks.rows =
        db.tasks.rows.map (merged db fromId toId now (duplicateTasks db fromId)) ∧
      ∀ a ∈ db.tasks.rows, LostIssue db fromId toId now (duplicateTasks db fromId) a →
        needsStop a = true → a ∈ (mergeTasks db fromId toId now).supersededLive := by
  -- by induction on the tasks that are left to walk
  have hwalk : ∀ (rest walked : List Task) (m : TaskMerge), walked ++ rest = duplicateTasks db fromId →
      m.tasks.rows = db.tasks.rows.map (merged db fromId toId now walked) →
      (∀ a ∈ db.tasks.rows, LostIssue db fromId toId now walked a → needsStop a = true →
        a ∈ m.supersededLive) →
      (rest.foldl (mergeTask fromId toId now) m).tasks.rows =
          db.tasks.rows.map (merged db fromId toId now (duplicateTasks db fromId)) ∧
        ∀ a ∈ db.tasks.rows, LostIssue db fromId toId now (duplicateTasks db fromId) a →
          needsStop a = true → a ∈ (rest.foldl (mergeTask fromId toId now) m).supersededLive := by
    intro rest
    induction rest with
    | nil =>
      intro walked m hsplit hrows hnoted
      rw [List.append_nil] at hsplit
      rw [List.foldl_nil, ← hsplit]
      exact ⟨hrows, hnoted⟩
    | cons t rest ih =>
      intro walked m hsplit hrows hnoted
      have hmem : ∀ a ∈ walked ++ t :: rest, a ∈ db.tasks.rows ∧ a.projectId = fromId := by
        intro a ha
        rw [hsplit] at ha
        simpa [duplicateTasks] using ha
      have hfresh : t ∉ walked := by
        have hnodup : (walked ++ t :: rest).Nodup := by
          rw [hsplit]
          exact List.Nodup.filter _ (List.Nodup.of_map _ db.tasks.nodup)
        intro ht
        exact (List.disjoint_of_nodup_append hnodup) ht List.mem_cons_self
      have h : Walked db fromId toId walked t :=
        { ne := hne
          unique := hunique
          walked_mem := fun a ha => hmem a (List.mem_append_left _ ha)
          mem := (hmem t (List.mem_append_right _ List.mem_cons_self)).1
          project := (hmem t (List.mem_append_right _ List.mem_cons_self)).2
          fresh := hfresh }
      rw [List.foldl_cons]
      exact ih (walked ++ [t]) _ (by rw [List.append_assoc]; exact hsplit) (h.rows_mergeTask hrows)
        (h.noted_mergeTask hrows hnoted)
  have hstart : ∀ a, merged db fromId toId now [] a = a := by
    intro a
    unfold merged replacement
    simp
  refine hwalk (duplicateTasks db fromId) [] _ rfl ?_ ?_
  · simp only
    rw [List.map_congr_left (g := id) fun a _ => hstart a, List.map_id]
  · rintro a - ⟨hn, hlost⟩ -
    rw [hstart] at hlost
    exact absurd hlost hn

end Walk

/-! ## What becomes of a row -/

/-- What becomes of a task row in a merge. -/
inductive Outcome (db : Db) (fromId toId now : Nat) (a : Task) : Task → Prop
  /-- A task of the duplicate moves. -/
  | moved (hp : a.projectId = fromId)
      (hclash : isLive a = true ∨ copyOf db.tasks toId a.issueNumber = none) :
      Outcome db fromId toId now a (moveTask toId a)
  /-- A task of the duplicate is superseded by the survivor's copy. -/
  | superseded (c : Task) (hp : a.projectId = fromId) (hlive : isLive a = false)
      (hclash : copyOf db.tasks toId a.issueNumber = some c) :
      Outcome db fromId toId now a (supersedeMoved toId a now (supersededMergeReason fromId) a)
  /-- A task of the survivor is replaced by a live one of the duplicate. -/
  | replaced (t : Task) (hp : a.projectId = toId) (ht : t ∈ db.tasks.rows)
      (htp : t.projectId = fromId) (hlive : isLive t = true) (hn : t.issueNumber ≠ none)
      (hi : t.issueNumber = a.issueNumber) :
      Outcome db fromId toId now a (supersede a now (replacedByMergeReason t.id fromId) a)
  /-- A task of the survivor stays. -/
  | stays (hp : a.projectId = toId)
      (hfree : ∀ t ∈ db.tasks.rows, t.projectId = fromId → isLive t = true → t.issueNumber ≠ none →
        t.issueNumber ≠ a.issueNumber) : Outcome db fromId toId now a a
  /-- A task of another project. -/
  | other (hp : a.projectId ≠ fromId) (hp' : a.projectId ≠ toId) : Outcome db fromId toId now a a

theorem mem_duplicateTasks {db : Db} {fromId : Nat} {a : Task} :
    a ∈ duplicateTasks db fromId ↔ a ∈ db.tasks.rows ∧ a.projectId = fromId := by
  simp [duplicateTasks]

/-- The row after the merge. -/
def mergedRow (db : Db) (fromId toId now : Nat) (a : Task) : Task :=
  merged db fromId toId now (duplicateTasks db fromId) a

theorem outcome {db : Db} (fromId toId now : Nat) {a : Task}
    (ha : a ∈ db.tasks.rows) : Outcome db fromId toId now a (mergedRow db fromId toId now a) := by
  unfold mergedRow merged
  split
  · rename_i hmem
    have hp := (mem_duplicateTasks.1 hmem).2
    split
    · rename_i hc
      exact .moved hp (Or.inr hc)
    · rename_i c hc
      split
      · rename_i hlive
        exact .moved hp (Or.inl hlive)
      · rename_i hlive
        exact .superseded c hp (by simpa using hlive) hc
  · rename_i hmem
    have hp : a.projectId ≠ fromId := fun hp => hmem (mem_duplicateTasks.2 ⟨ha, hp⟩)
    split
    · rename_i hto
      split
      · rename_i t ht
        have hmem := mem_duplicateTasks.1 (List.mem_of_find?_eq_some ht)
        have hcond := List.find?_some ht
        simp only [Bool.and_eq_true, decide_eq_true_eq, Option.isSome_iff_ne_none] at hcond
        exact .replaced t hto hmem.1 hmem.2 hcond.1.1 hcond.1.2 hcond.2
      · rename_i hnone
        refine .stays hto fun t ht htp hlive hn heq => ?_
        have := List.find?_eq_none.1 hnone t (mem_duplicateTasks.2 ⟨ht, htp⟩)
        refine this ?_
        rw [← heq]
        simp [hlive, Option.isSome_iff_ne_none, hn]
    · rename_i hto
      exact .other hp hto

namespace Outcome

variable {db : Db} {fromId toId now : Nat} {a a' : Task}

/-- What a merge leaves alone in every task row. -/
theorem frame (h : Outcome db fromId toId now a a') :
    a'.id = a.id ∧ a'.sessionId = a.sessionId ∧ a'.reviewSessionId = a.reviewSessionId ∧
      a'.worktreePath = a.worktreePath ∧ a'.branchName = a.branchName := by
  cases h with
  | moved => exact ⟨rfl, rfl, rfl, rfl, rfl⟩
  | superseded c =>
    unfold supersedeMoved supersede
    split <;> exact ⟨rfl, rfl, rfl, rfl, rfl⟩
  | replaced t =>
    unfold supersede
    split <;> exact ⟨rfl, rfl, rfl, rfl, rfl⟩
  | stays => exact ⟨rfl, rfl, rfl, rfl, rfl⟩
  | other => exact ⟨rfl, rfl, rfl, rfl, rfl⟩

/-- Where a row is after the merge. -/
theorem project (h : Outcome db fromId toId now a a') :
    a'.projectId = if a.projectId = fromId then toId else a.projectId := by
  cases h with
  | moved hp => rw [if_pos hp]; rfl
  | superseded c hp => rw [if_pos hp]; rfl
  | replaced t hp ht htp =>
    rw [projectId_supersede]
    split
    · rename_i hfrom
      rw [hp]
    · rfl
  | stays hp =>
    split
    · rename_i hfrom
      rw [hp]
    · rfl
  | other hp => rw [if_neg hp]

/-- A row that keeps its issue is moved or left alone. -/
theorem of_issue (h : Outcome db fromId toId now a a') (hn : a'.issueNumber ≠ none) :
    a'.status = a.status ∧ a'.supersededAt = a.supersededAt ∧ a'.issueNumber = a.issueNumber := by
  cases h with
  | moved => exact ⟨rfl, rfl, rfl⟩
  | superseded c => exact absurd (issueNumber_supersedeMoved a now _ a) hn
  | replaced t => exact absurd (issueNumber_supersede a now _ a) hn
  | stays => exact ⟨rfl, rfl, rfl⟩
  | other => exact ⟨rfl, rfl, rfl⟩

end Outcome

end Merge
end Mullion
