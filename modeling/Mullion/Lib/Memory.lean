import Mathlib.Data.List.Basic
import Mathlib.Data.Set.Insert

/-!
# Buffers in memory

Blocks of symbols that are allocated once and then written in place.

* `Heap` — the blocks, each under the number of its allocation;
* `Heap.alloc`, `Heap.copy` — a new block, and symbols written over a block as far as they fit;
* `View` — a part of a block;
* `Heap.Keeps` — nothing but the blocks of a set has changed, so a view of another block still
  shows what it showed (`View.read_keeps`).
-/

namespace Memory

variable {α : Type*}

/-! ## Writing over a list -/

/-- `symbols` over `content` from `offset` on, as far as they fit. -/
def overwrite (content : List α) (offset : Nat) (symbols : List α) : List α :=
  content.take offset ++ symbols.take (content.length - offset) ++
    content.drop (offset + symbols.length)

theorem length_overwrite {content symbols : List α} {offset : Nat} (h : offset ≤ content.length) :
    (overwrite content offset symbols).length = content.length := by
  simp only [overwrite, List.length_append, List.length_take, List.length_drop]
  omega

/-- What was written, behind what was there. -/
theorem take_overwrite (content symbols : List α) {offset : Nat}
    (h : offset + symbols.length ≤ content.length) :
    (overwrite content offset symbols).take (offset + symbols.length) =
      content.take offset ++ symbols := by
  have hfit : symbols.take (content.length - offset) = symbols :=
    List.take_of_length_le (by omega)
  have hlength : (content.take offset ++ symbols).length = offset + symbols.length := by
    rw [List.length_append, List.length_take]
    omega
  rw [overwrite, hfit, List.take_left' hlength]

/-- A block that was not written yet: `junk` is what is found there. -/
def unwritten (junk : Nat → Nat → α) (id size : Nat) : List α := (List.range size).map (junk id)

@[simp] theorem length_unwritten (junk : Nat → Nat → α) (id size : Nat) :
    (unwritten junk id size).length = size := by
  rw [unwritten, List.length_map, List.length_range]

/-! ## The heap -/

/-- Blocks, by the number of their allocation. -/
structure Heap (α : Type*) where
  blocks : List (List α)

namespace Heap

variable (h : Heap α)

def block (id : Nat) : List α := h.blocks[id]?.getD []

/-- The number of the next allocation. -/
def fresh : Nat := h.blocks.length

def alloc (content : List α) : Heap α := ⟨h.blocks ++ [content]⟩

/-- Symbols written over a block. -/
def copy (id offset : Nat) (symbols : List α) : Heap α :=
  ⟨h.blocks.modify id (overwrite · offset symbols)⟩

@[simp] theorem fresh_alloc (content : List α) : (h.alloc content).fresh = h.fresh + 1 :=
  List.length_append

@[simp] theorem fresh_copy (id offset : Nat) (symbols : List α) :
    (h.copy id offset symbols).fresh = h.fresh := List.length_modify _ _ _

variable {h}

@[simp] theorem block_alloc_fresh (content : List α) : (h.alloc content).block h.fresh = content := by
  rw [block, alloc, fresh, List.getElem?_append_right le_rfl, Nat.sub_self]
  rfl

theorem block_alloc {id : Nat} (hid : id < h.fresh) (content : List α) :
    (h.alloc content).block id = h.block id := by
  rw [block, alloc, List.getElem?_append_left hid, block]

theorem block_copy_of_ne {id other : Nat} (hne : other ≠ id) (offset : Nat) (symbols : List α) :
    (h.copy id offset symbols).block other = h.block other := by
  rw [block, copy, List.getElem?_modify_ne _ _ (Ne.symm hne), block]

theorem block_copy {id : Nat} (hid : id < h.fresh) (offset : Nat) (symbols : List α) :
    (h.copy id offset symbols).block id = overwrite (h.block id) offset symbols := by
  have hget : h.blocks[id]? = some (h.blocks.get ⟨id, hid⟩) := List.getElem?_eq_getElem hid
  rw [block, copy, List.getElem?_modify_eq, block, hget]
  rfl

/-! ## What is kept -/

/-- Nothing but the blocks in `s` has changed. -/
structure Keeps (s : Set Nat) (h h' : Heap α) : Prop where
  grows : h.fresh ≤ h'.fresh
  same : ∀ id, id < h.fresh → id ∉ s → h'.block id = h.block id

namespace Keeps

variable {s t : Set Nat} {h' h'' : Heap α}

theorem refl (s : Set Nat) (h : Heap α) : Keeps s h h := ⟨le_rfl, fun _ _ _ => rfl⟩

theorem trans (h₁ : Keeps s h h') (h₂ : Keeps s h' h'') : Keeps s h h'' where
  grows := h₁.grows.trans h₂.grows
  same id hid hs := (h₂.same id (hid.trans_le h₁.grows) hs).trans (h₁.same id hid hs)

theorem alloc (hk : Keeps s h h') (content : List α) : Keeps s h (h'.alloc content) where
  grows := by
    rw [fresh_alloc]
    exact hk.grows.trans (Nat.le_succ _)
  same id hid hs := (block_alloc (hid.trans_le hk.grows) content).trans (hk.same id hid hs)

/-- A write to a block that is new, or in the set. -/
theorem copy (hk : Keeps s h h') {id : Nat} (hid : h.fresh ≤ id ∨ id ∈ s) (offset : Nat)
    (symbols : List α) : Keeps s h (h'.copy id offset symbols) where
  grows := by
    rw [fresh_copy]
    exact hk.grows
  same other hother hs := by
    have hne : other ≠ id := by
      rintro rfl
      exact hid.elim (fun h => absurd hother (by omega)) hs
    rw [block_copy_of_ne hne, hk.same other hother hs]

/-- A block that is new now was new before. -/
theorem trans_fresh {a b : Nat} (h₁ : Keeps {a} h h') (h₂ : Keeps {b} h' h'')
    (hb : b = a ∨ h.fresh ≤ b) : Keeps {a} h h'' where
  grows := h₁.grows.trans h₂.grows
  same id hid hs := by
    refine (h₂.same id (hid.trans_le h₁.grows) ?_).trans (h₁.same id hid hs)
    rintro rfl
    exact hb.elim hs fun h => absurd hid (by omega)

end Keeps
end Heap

/-! ## Views -/

/-- A part of a block. -/
structure View where
  id : Nat
  start : Nat
  length : Nat
  deriving DecidableEq, Repr

namespace View

/-- What a view shows. -/
def read (h : Heap α) (v : View) : List α := ((h.block v.id).drop v.start).take v.length

/-- A view shows the same as long as its block is kept. -/
theorem read_keeps {s : Set Nat} {h h' : Heap α} (hk : h.Keeps s h') {v : View}
    (hv : v.id < h.fresh) (hs : v.id ∉ s) : v.read h' = v.read h := by
  rw [read, read, hk.same v.id hv hs]

end View
end Memory
