import Mathlib.Data.List.Basic
import Mathlib.Data.List.Count
import Mathlib.Data.List.Nodup
import Mathlib.Tactic

/-!
# Tables with a primary key

A table is a list of rows whose keys are distinct; that they are is a field of
the table, so no operation can break it.

* `Table.get` reads a row by its key;
* `Table.update` rewrites the row of one key, `Table.updateWhere` every row that
  meets a condition; neither changes a key;
* `Table.insert` adds a row whose key is free and `Table.deleteWhere` removes
  rows;
* `Table.UniqueOn f` — no two rows share a value of the index `f`
  (`UniqueOn.deleteWhere`, `UniqueOn.updateWhere`);
* `Table.SameOff k` — two tables have the same keys and differ at most in the row
  of `k`; the number of rows that meet a condition then changes by that row only
  (`SameOff.count_le`, `SameOff.count_eq`).
-/

/-- Rows with distinct keys. -/
structure Table (α : Type*) {κ : Type*} (key : α → κ) where
  rows : List α
  nodup : (rows.map key).Nodup

namespace Table

variable {α κ : Type*} {key : α → κ}

/-- The empty table. -/
def empty : Table α key := ⟨[], List.nodup_nil⟩

/-- The keys of the table, in row order. -/
def keys (t : Table α key) : List κ := t.rows.map key

/-- The number of rows that meet a condition. -/
def count (t : Table α key) (p : α → Bool) : ℕ := t.rows.countP p

section Get

variable [DecidableEq κ]

/-- The row of a key. -/
def get (t : Table α key) (k : κ) : Option α := t.rows.find? (fun a => key a = k)

theorem get_key {t : Table α key} {k : κ} {a : α} (h : t.get k = some a) : key a = k := by
  simpa using List.find?_some h

theorem get_mem {t : Table α key} {k : κ} {a : α} (h : t.get k = some a) : a ∈ t.rows :=
  List.mem_of_find?_eq_some h

/-- A row of the table is what its key reads. -/
theorem get_of_mem {t : Table α key} {a : α} (h : a ∈ t.rows) : t.get (key a) = some a := by
  obtain ⟨rows, hnodup⟩ := t
  unfold get
  induction rows with
  | nil => cases h
  | cons r rows ih =>
    rw [List.map_cons, List.nodup_cons] at hnodup
    rcases List.mem_cons.1 h with rfl | h
    · simp
    · have hne : key r ≠ key a := fun heq => hnodup.1 (heq ▸ List.mem_map_of_mem h)
      rw [List.find?_cons_of_neg (by simpa using hne)]
      exact ih hnodup.2 h

theorem mem_keys_iff {t : Table α key} {k : κ} : k ∈ t.keys ↔ ∃ a, t.get k = some a := by
  constructor
  · intro h
    obtain ⟨a, ha, rfl⟩ := List.mem_map.1 h
    exact ⟨a, get_of_mem ha⟩
  · rintro ⟨a, ha⟩
    exact List.mem_map.2 ⟨a, get_mem ha, get_key ha⟩

theorem get_eq_none_iff {t : Table α key} {k : κ} : t.get k = none ↔ k ∉ t.keys := by
  rw [mem_keys_iff]
  cases t.get k <;> simp

end Get

/-! ## Updates -/

/-- Rewrite every row that meets a condition. -/
def updateWhere (t : Table α key) (p : α → Bool) (f : α → α) (hf : ∀ a, key (f a) = key a) :
    Table α key where
  rows := t.rows.map (fun a => if p a then f a else a)
  nodup := by
    have hkeys : (t.rows.map (fun a => if p a then f a else a)).map key = t.rows.map key := by
      rw [List.map_map]
      refine List.map_congr_left fun a _ => ?_
      by_cases hp : p a <;> simp [hp, hf]
    rw [hkeys]
    exact t.nodup

@[simp] theorem keys_updateWhere (t : Table α key) (p : α → Bool) (f : α → α)
    (hf : ∀ a, key (f a) = key a) : (t.updateWhere p f hf).keys = t.keys := by
  simp only [keys, updateWhere, List.map_map]
  refine List.map_congr_left fun a _ => ?_
  by_cases hp : p a <;> simp [hp, hf]

/-- Remove every row that meets a condition. -/
def deleteWhere (t : Table α key) (p : α → Bool) : Table α key where
  rows := t.rows.filter (fun a => !p a)
  nodup := List.Nodup.sublist ((List.filter_sublist).map _) t.nodup

theorem mem_deleteWhere {t : Table α key} {p : α → Bool} {a : α} :
    a ∈ (t.deleteWhere p).rows ↔ a ∈ t.rows ∧ p a = false := by
  simp [deleteWhere]

theorem keys_deleteWhere_subset (t : Table α key) (p : α → Bool) :
    (t.deleteWhere p).keys ⊆ t.keys :=
  List.map_subset _ (List.filter_subset_self _)

/-- Nothing to remove. -/
theorem deleteWhere_eq_self {t : Table α key} {p : α → Bool} (h : ∀ a ∈ t.rows, p a = false) :
    t.deleteWhere p = t := by
  have hrows : t.rows.filter (fun a => !p a) = t.rows :=
    List.filter_eq_self.2 fun a ha => by simp [h a ha]
  obtain ⟨rows, hnodup⟩ := t
  simp only [deleteWhere, mk.injEq]
  exact hrows

section Update

variable [DecidableEq κ]

@[simp] theorem get_updateWhere (t : Table α key) (p : α → Bool) (f : α → α)
    (hf : ∀ a, key (f a) = key a) (k : κ) :
    (t.updateWhere p f hf).get k = (t.get k).map (fun a => if p a then f a else a) := by
  simp only [get, updateWhere, List.find?_map]
  congr 2
  funext a
  by_cases hp : p a <;> simp [hp, hf]

/-- Rewrite the row of one key. -/
def update (t : Table α key) (k : κ) (f : α → α) (hf : ∀ a, key (f a) = key a) : Table α key :=
  t.updateWhere (fun a => key a = k) f hf

@[simp] theorem keys_update (t : Table α key) (k : κ) (f : α → α) (hf : ∀ a, key (f a) = key a) :
    (t.update k f hf).keys = t.keys := keys_updateWhere t _ f hf

theorem get_update (t : Table α key) (k k' : κ) (f : α → α) (hf : ∀ a, key (f a) = key a) :
    (t.update k f hf).get k' = if k' = k then (t.get k').map f else t.get k' := by
  rw [update, get_updateWhere]
  cases h : t.get k' with
  | none => simp
  | some a =>
    have hk := get_key h
    by_cases hkk : k' = k
    · simp [hk, hkk]
    · simp [hk, hkk]

@[simp] theorem get_update_self (t : Table α key) (k : κ) (f : α → α)
    (hf : ∀ a, key (f a) = key a) : (t.update k f hf).get k = (t.get k).map f := by
  rw [get_update, if_pos rfl]

/-- Rewrite the row of one key if it passes a guard. -/
def updateIf (t : Table α key) (k : κ) (guard : α → Bool) (f : α → α)
    (hf : ∀ a, key (f a) = key a) : Table α key :=
  t.update k (fun a => if guard a then f a else a) fun a => by
    by_cases h : guard a <;> simp [h, hf]

@[simp] theorem keys_updateIf (t : Table α key) (k : κ) (guard : α → Bool) (f : α → α)
    (hf : ∀ a, key (f a) = key a) : (t.updateIf k guard f hf).keys = t.keys :=
  keys_update t k _ _

theorem get_updateIf (t : Table α key) (k : κ) (guard : α → Bool) (f : α → α)
    (hf : ∀ a, key (f a) = key a) :
    (t.updateIf k guard f hf).get k = (t.get k).map (fun a => if guard a then f a else a) :=
  get_update_self t k _ _

/-- Add a row; a key that is taken is refused. -/
def insert (t : Table α key) (a : α) : Table α key :=
  if h : key a ∈ t.keys then t
  else
    { rows := t.rows ++ [a]
      nodup := by
        rw [List.map_append, List.map_singleton, ← List.concat_eq_append]
        exact List.Nodup.concat h t.nodup }

theorem keys_insert {t : Table α key} {a : α} (h : key a ∉ t.keys) :
    (t.insert a).keys = t.keys ++ [key a] := by
  unfold insert
  rw [dif_neg h, keys, List.map_append]
  rfl

theorem mem_keys_insert {t : Table α key} {a : α} {k : κ} :
    k ∈ (t.insert a).keys ↔ k ∈ t.keys ∨ k = key a := by
  unfold insert
  split
  · rename_i h
    constructor
    · exact Or.inl
    · rintro (hk | rfl)
      · exact hk
      · exact h
  · simp [keys]

theorem get_insert {t : Table α key} {a : α} (h : key a ∉ t.keys) (k : κ) :
    (t.insert a).get k = if k = key a then some a else t.get k := by
  unfold insert
  rw [dif_neg h]
  unfold get
  rw [List.find?_append]
  by_cases hk : k = key a
  · have hnone : t.rows.find? (fun b => key b = k) = none := by
      have := get_eq_none_iff.2 h
      rw [← hk] at this
      exact this
    rw [hnone]
    simp [hk]
  · have hone : [a].find? (fun b => decide (key b = k)) = none := by
      simp [Ne.symm hk]
    rw [hone, if_neg hk, Option.or_none]

/-! ## Removed rows -/

theorem get_deleteWhere (t : Table α key) (p : α → Bool) (k : κ) :
    (t.deleteWhere p).get k = (t.get k).filter (fun a => !p a) := by
  have hsub := keys_deleteWhere_subset t p
  cases h : t.get k with
  | none =>
    rw [get_eq_none_iff] at h
    rw [Option.filter_none, get_eq_none_iff]
    exact fun hk => h (hsub hk)
  | some a =>
    have hmem := get_mem h
    have hkey := get_key h
    cases hp : p a with
    | false =>
      rw [Option.filter_some_pos (by simp [hp]), ← hkey]
      exact get_of_mem (mem_deleteWhere.2 ⟨hmem, hp⟩)
    | true =>
      rw [Option.filter_some_neg (by simp [hp]), get_eq_none_iff, mem_keys_iff]
      rintro ⟨b, hb⟩
      obtain ⟨hbt, hbp⟩ := mem_deleteWhere.1 (get_mem hb)
      have hba : b = a := by
        have := get_of_mem hbt
        rw [get_key hb, h] at this
        exact (Option.some.inj this).symm
      rw [hba, hp] at hbp
      cases hbp

/-! ## Changes of one row -/

/-- The two tables have the same keys and agree off the row of `k`. -/
structure SameOff (k : κ) (t t' : Table α key) : Prop where
  keys : t'.keys = t.keys
  get : ∀ k', k' ≠ k → t'.get k' = t.get k'

theorem sameOff_update (t : Table α key) (k : κ) (f : α → α) (hf : ∀ a, key (f a) = key a) :
    SameOff k t (t.update k f hf) :=
  ⟨keys_update t k f hf, fun k' hk => by rw [get_update, if_neg hk]⟩

theorem sameOff_updateIf (t : Table α key) (k : κ) (guard : α → Bool) (f : α → α)
    (hf : ∀ a, key (f a) = key a) : SameOff k t (t.updateIf k guard f hf) :=
  sameOff_update t k _ _

/-- Counting the rows of one key: none or one. -/
theorem count_eq_count_off (t : Table α key) (p : α → Bool) (k : κ) :
    t.count p = t.count (fun a => p a && decide (key a ≠ k)) + ((t.get k).toList.countP p) := by
  obtain ⟨rows, hnodup⟩ := t
  unfold count get
  simp only
  induction rows with
  | nil => rfl
  | cons r rows ih =>
    rw [List.map_cons, List.nodup_cons] at hnodup
    by_cases hr : key r = k
    · have hoff : rows.find? (fun a => decide (key a = k)) = none := by
        rw [List.find?_eq_none]
        intro a ha
        have : key a ≠ k := fun heq => hnodup.1 (hr.trans heq.symm ▸ List.mem_map_of_mem ha)
        simpa using this
      have ih := ih hnodup.2
      rw [hoff] at ih
      rw [List.find?_cons_of_pos (by simpa using hr), List.countP_cons, List.countP_cons, ih]
      simp [hr, List.countP_cons]
    · rw [List.find?_cons_of_neg (by simpa using hr), List.countP_cons, List.countP_cons,
        ih hnodup.2]
      simp only [hr, ne_eq, not_false_eq_true, decide_true, Bool.and_true]
      omega

theorem count_off_eq {k : κ} {t t' : Table α key} (h : SameOff k t t') (p : α → Bool) :
    t'.count (fun a => p a && decide (key a ≠ k)) =
      t.count (fun a => p a && decide (key a ≠ k)) := by
  -- row by row: the two lists have the same keys in the same order
  have hrow : ∀ (rows rows' : List α), rows'.map key = rows.map key →
      (∀ a ∈ rows, ∀ a' ∈ rows', key a = key a' → key a ≠ k → a = a') →
      rows'.countP (fun a => p a && decide (key a ≠ k)) =
        rows.countP (fun a => p a && decide (key a ≠ k)) := by
    intro rows
    induction rows with
    | nil =>
      intro rows' hk _
      rw [List.map_nil, List.map_eq_nil_iff] at hk
      rw [hk]
    | cons r rows ih =>
      intro rows' hk hsame
      cases rows' with
      | nil => cases hk
      | cons r' rows' =>
        rw [List.map_cons, List.map_cons, List.cons.injEq] at hk
        rw [List.countP_cons, List.countP_cons, ih rows' hk.2 (fun a ha a' ha' =>
          hsame a (List.mem_cons_of_mem _ ha) a' (List.mem_cons_of_mem _ ha'))]
        by_cases hr : key r = k
        · simp [hr, hk.1]
        · rw [hsame r List.mem_cons_self r' List.mem_cons_self hk.1.symm hr]
  refine hrow t.rows t'.rows h.keys fun a ha a' ha' hkey hne => ?_
  have hget := h.get (key a) hne
  rw [get_of_mem ha, hkey, get_of_mem ha'] at hget
  exact (Option.some.inj hget).symm

/-- Only the row of `k` counts for the difference. -/
theorem SameOff.count_eq {k : κ} {t t' : Table α key} (h : SameOff k t t') (p : α → Bool) :
    t'.count p + ((t.get k).toList.countP p) = t.count p + ((t'.get k).toList.countP p) := by
  rw [count_eq_count_off t p k, count_eq_count_off t' p k, count_off_eq h]
  omega

/-- If the row of `k` does not start to meet the condition, the count does not
grow. -/
theorem SameOff.count_le {k : κ} {t t' : Table α key} (h : SameOff k t t') (p : α → Bool)
    (hrow : ∀ a', t'.get k = some a' → p a' → ∃ a, t.get k = some a ∧ p a) :
    t'.count p ≤ t.count p := by
  have hcount := h.count_eq p
  cases h' : t'.get k with
  | none =>
    rw [h'] at hcount
    simp only [Option.toList_none, List.countP_nil] at hcount
    omega
  | some a' =>
    by_cases hp : p a'
    · obtain ⟨a, ha, hpa⟩ := hrow a' h' hp
      rw [h', ha] at hcount
      simp only [Option.toList_some, List.countP_singleton, hp, hpa, if_true] at hcount
      omega
    · rw [h'] at hcount
      simp only [Option.toList_some, List.countP_singleton, hp] at hcount
      simp at hcount
      omega

/-- If the row of `k` starts to meet the condition, the count grows by one. -/
theorem SameOff.count_succ {k : κ} {t t' : Table α key} (h : SameOff k t t') (p : α → Bool)
    {a a' : α} (ha : t.get k = some a) (ha' : t'.get k = some a') (hp : ¬ p a) (hp' : p a') :
    t'.count p = t.count p + 1 := by
  have hcount := h.count_eq p
  rw [ha, ha'] at hcount
  simp only [Option.toList_some, List.countP_singleton, hp'] at hcount
  simp [hp] at hcount
  omega

end Update

/-! ## Unique indexes -/

/-- A unique index: two rows with the same value of `f` are one row; `none` is no
value. -/
def UniqueOn {ι : Type*} (t : Table α key) (f : α → Option ι) : Prop :=
  ∀ a ∈ t.rows, ∀ b ∈ t.rows, f a = f b → f a ≠ none → a = b

theorem UniqueOn.deleteWhere {ι : Type*} {t : Table α key} {f : α → Option ι} (h : t.UniqueOn f)
    (p : α → Bool) : (t.deleteWhere p).UniqueOn f :=
  fun a ha b hb => h a (mem_deleteWhere.1 ha).1 b (mem_deleteWhere.1 hb).1

/-- Rewritten rows keep a unique index if they collide among each other only where they
did before, and never with a row that stays. -/
theorem UniqueOn.updateWhere {ι : Type*} {t : Table α key} {f : α → Option ι} (h : t.UniqueOn f)
    (p : α → Bool) (g : α → α) (hg : ∀ a, key (g a) = key a)
    (hmoved : ∀ a ∈ t.rows, ∀ b ∈ t.rows, p a → p b → f (g a) = f (g b) → f (g a) ≠ none →
      f a = f b ∧ f a ≠ none)
    (hstays : ∀ a ∈ t.rows, ∀ b ∈ t.rows, p a → ¬ p b → f (g a) ≠ none → f (g a) ≠ f b) :
    (t.updateWhere p g hg).UniqueOn f := by
  intro a' ha' b' hb' heq hne
  obtain ⟨a, ha, rfl⟩ := List.mem_map.1 ha'
  obtain ⟨b, hb, rfl⟩ := List.mem_map.1 hb'
  by_cases hpa : p a
  · by_cases hpb : p b
    · simp only [hpa, hpb, if_true] at heq hne ⊢
      obtain ⟨hf, hfn⟩ := hmoved a ha b hb hpa hpb heq hne
      rw [h a ha b hb hf hfn]
    · simp only [hpa, hpb, if_true] at heq hne
      exact absurd heq (hstays a ha b hb hpa hpb hne)
  · by_cases hpb : p b
    · simp only [hpa, hpb, if_true] at heq hne
      rw [heq] at hne
      exact absurd heq.symm (hstays b hb a ha hpb hpa hne)
    · simp only [hpa, hpb] at heq hne ⊢
      exact h a ha b hb heq hne

end Table
