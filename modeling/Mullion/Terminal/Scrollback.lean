import Mathlib.Data.List.Basic
import Mathlib.Data.List.Induction
import Mathlib.Data.Nat.Basic
import Mathlib.Order.Basic

/-!
# The scrollback ring

`scrollback-buffer.ts`: the output of a session in slabs, oldest first, evicted slab by slab
once they hold more than `SCROLLBACK_MAX_BYTES`. The list `slabs` stands for `slabs[head..]`,
so the compaction of the array has no counterpart here.

* `contents_push` — what is buffered after a push is the end of what was buffered and the new
  chunk, so eviction only ever cuts off the front;
* `WellFormed.push` — the byte count is kept;
* `WellFormed.push_bounded` — the ring keeps its bound, but for one slab that is never evicted.
-/

namespace Mullion
namespace Terminal

def scrollbackMaxBytes : Nat := 1024 * 1024
def coalesceMaxBytes : Nat := 16 * 1024
def slabBytes : Nat := 64 * 1024

/-- `ScrollbackBuffer`. -/
structure ScrollbackBuffer where
  slabs : List (List UInt8)
  tailBuf : Option (List UInt8)
  totalBytes : Nat
  bytesEverPushed : Nat
  deriving DecidableEq, Repr

namespace ScrollbackBuffer

def empty : ScrollbackBuffer := ⟨[], none, 0, 0⟩

variable (b : ScrollbackBuffer)

/-- `tailBuf.subarray(0, tailLen)`. -/
def tail : List UInt8 := b.tailBuf.getD []

def commitTail : ScrollbackBuffer :=
  { b with slabs := if b.tail = [] then b.slabs else b.slabs ++ [b.tail], tailBuf := none }

/-- The loop of `evict`: what is left of the slabs and of the byte count. -/
def evictSlabs (tailLen : Nat) : List (List UInt8) → Nat → List (List UInt8) × Nat
  | [], total => ([], total)
  | slab :: rest, total =>
    if total ≤ scrollbackMaxBytes then (slab :: rest, total)
    else if tailLen = 0 ∧ rest = [] then (slab :: rest, total)
    else evictSlabs tailLen rest (total - slab.length)

def evict : ScrollbackBuffer :=
  { b with
    slabs := (evictSlabs b.tail.length b.slabs b.totalBytes).1
    totalBytes := (evictSlabs b.tail.length b.slabs b.totalBytes).2 }

/-- Put a chunk where it belongs: a large one is a slab of its own. -/
def append (chunk : List UInt8) : ScrollbackBuffer :=
  if coalesceMaxBytes ≤ chunk.length then
    { b.commitTail with slabs := b.commitTail.slabs ++ [chunk] }
  else if 0 < chunk.length then
    if b.tailBuf = none ∨ slabBytes < b.tail.length + chunk.length then
      { b.commitTail with tailBuf := some chunk }
    else { b with tailBuf := some (b.tail ++ chunk) }
  else b

def push (chunk : List UInt8) : ScrollbackBuffer :=
  { b.append chunk with
    totalBytes := b.totalBytes + chunk.length
    bytesEverPushed := b.bytesEverPushed + chunk.length }.evict

/-- Everything buffered, oldest first. -/
def contents : List UInt8 := b.slabs.flatten ++ b.tail

def toBuffer (preamble : List UInt8) : List UInt8 := preamble ++ b.contents

/-! ## Eviction cuts off the front -/

theorem evictSlabs_suffix (tailLen : Nat) (slabs : List (List UInt8)) (total : Nat) :
    (evictSlabs tailLen slabs total).1 <:+ slabs := by
  induction slabs generalizing total with
  | nil => exact List.suffix_refl _
  | cons slab rest ih =>
    rw [evictSlabs]
    split_ifs
    · exact List.suffix_refl _
    · exact List.suffix_refl _
    · exact (ih _).trans (List.suffix_cons slab rest)

@[simp] theorem evict_tail : b.evict.tail = b.tail := rfl

theorem contents_evict : b.evict.contents <:+ b.contents := by
  obtain ⟨front, hfront⟩ := evictSlabs_suffix b.tail.length b.slabs b.totalBytes
  refine ⟨front.flatten, ?_⟩
  rw [contents, contents, ← hfront, List.flatten_append, List.append_assoc, evict_tail]
  rfl

@[simp] theorem contents_commitTail : b.commitTail.contents = b.contents := by
  rw [contents, contents, commitTail]
  by_cases h : b.tail = []
  · rw [if_pos h, h]
    rfl
  · rw [if_neg h, List.flatten_append, List.append_assoc]
    simp [tail]

theorem contents_append (chunk : List UInt8) : (b.append chunk).contents = b.contents ++ chunk := by
  have hcommit := b.contents_commitTail
  rw [append]
  split_ifs with hlarge hsome hslab
  · rw [← hcommit]
    simp [contents, commitTail, tail]
  · rw [← hcommit]
    simp [contents, commitTail, tail]
  · simp [contents, tail]
  · have : chunk = [] := List.length_eq_zero_iff.1 (by omega)
    rw [this, List.append_nil]

theorem append_totalBytes (chunk : List UInt8) : (b.append chunk).totalBytes = b.totalBytes := by
  rw [append]
  split_ifs <;> rfl

theorem append_bytesEverPushed (chunk : List UInt8) :
    (b.append chunk).bytesEverPushed = b.bytesEverPushed := by
  rw [append]
  split_ifs <;> rfl

/-- **A push.** What is buffered afterwards is the end of what was buffered and the chunk. -/
theorem contents_push (chunk : List UInt8) :
    (b.push chunk).contents <:+ b.contents ++ chunk := by
  rw [← b.contents_append chunk]
  exact contents_evict _

/-! ## The byte count -/

/-- The byte count is that of what is buffered. -/
def WellFormed : Prop := b.totalBytes = b.contents.length

variable {b}

theorem evictSlabs_total (tailLen : Nat) (slabs : List (List UInt8)) (total : Nat)
    (h : total = slabs.flatten.length + tailLen) :
    (evictSlabs tailLen slabs total).2 =
      (evictSlabs tailLen slabs total).1.flatten.length + tailLen := by
  induction slabs generalizing total with
  | nil => exact h
  | cons slab rest ih =>
    rw [evictSlabs]
    split_ifs
    · exact h
    · exact h
    · apply ih
      rw [h, List.flatten_cons, List.length_append]
      omega

theorem evictSlabs_bounded (tailLen : Nat) (slabs : List (List UInt8)) (total : Nat) :
    (evictSlabs tailLen slabs total).2 ≤ scrollbackMaxBytes ∨
      (evictSlabs tailLen slabs total).1 = [] ∨
      tailLen = 0 ∧ ∃ slab, (evictSlabs tailLen slabs total).1 = [slab] := by
  induction slabs generalizing total with
  | nil => exact Or.inr (Or.inl rfl)
  | cons slab rest ih =>
    rw [evictSlabs]
    split_ifs with hle hlast
    · exact Or.inl hle
    · obtain ⟨htail, rfl⟩ := hlast
      exact Or.inr (Or.inr ⟨htail, slab, rfl⟩)
    · exact ih _

theorem WellFormed.evict (h : b.WellFormed) : b.evict.WellFormed := by
  rw [WellFormed, contents, List.length_append] at h ⊢
  exact evictSlabs_total _ _ _ h

/-- A push keeps the byte count. -/
theorem WellFormed.push (h : b.WellFormed) (chunk : List UInt8) : (b.push chunk).WellFormed := by
  apply WellFormed.evict
  have hcontents := b.contents_append chunk
  have htotal : b.totalBytes = b.contents.length := h
  change b.totalBytes + chunk.length = (b.append chunk).contents.length
  rw [hcontents, List.length_append, htotal]

/-- **The bound.** After a push at most `SCROLLBACK_MAX_BYTES` are buffered, or all that is
buffered is the newest slab. -/
theorem WellFormed.push_bounded (h : b.WellFormed) (chunk : List UInt8) :
    (b.push chunk).contents.length ≤ scrollbackMaxBytes ∨
      (b.push chunk).slabs = [] ∨
      (b.push chunk).tail = [] ∧ ∃ slab, (b.push chunk).slabs = [slab] := by
  have hcount : (b.push chunk).totalBytes = (b.push chunk).contents.length := h.push chunk
  rw [← hcount]
  refine (evictSlabs_bounded _ _ _).imp_right (Or.imp_right ?_)
  rintro ⟨htail, hslab⟩
  exact ⟨List.length_eq_zero_iff.1 htail, hslab⟩

/-! ## What is buffered of the output -/

/-- The chunk is the newest one that is not empty. -/
def IsNewest (chunks : List (List UInt8)) (chunk : List UInt8) : Prop :=
  ∃ before empties, chunks = before ++ chunk :: empties ∧ ∀ e ∈ empties, e = []

/-- The ring holds the newest of the output. -/
structure Newest (chunks : List (List UInt8)) (b : ScrollbackBuffer) : Prop where
  contents : b.contents <:+ chunks.flatten
  count : b.WellFormed
  ever : b.bytesEverPushed = chunks.flatten.length
  slabs : ∀ slab ∈ b.slabs, slab ≠ []
  opened : ∀ t, b.tailBuf = some t → t ≠ [] ∧ t.length ≤ slabBytes
  closed : b.tailBuf = none → b.slabs = [] ∧ (∀ c ∈ chunks, c = []) ∨
    ∃ front slab, b.slabs = front ++ [slab] ∧ IsNewest chunks slab ∧ coalesceMaxBytes ≤ slab.length
  bounded : b.contents.length ≤ scrollbackMaxBytes ∨ b.tailBuf = none ∧ ∃ slab, b.slabs = [slab]

variable {chunks : List (List UInt8)}

/-- Without a tail the newest slab is not evicted. -/
theorem evictSlabs_concat (front : List (List UInt8)) (slab : List UInt8) (total : Nat) :
    ∃ left, (evictSlabs 0 (front ++ [slab]) total).1 = left ++ [slab] := by
  induction front generalizing total with
  | nil =>
    rw [List.nil_append, evictSlabs]
    split_ifs with _ hlast
    · exact ⟨[], rfl⟩
    · exact ⟨[], rfl⟩
    · exact absurd ⟨rfl, rfl⟩ hlast
  | cons first front ih =>
    rw [List.cons_append, evictSlabs]
    split_ifs
    · exact ⟨first :: front, rfl⟩
    · exact ⟨first :: front, rfl⟩
    · exact ih _

theorem IsNewest.push_empty {chunk : List UInt8} (h : IsNewest chunks chunk) :
    IsNewest (chunks ++ [[]]) chunk := by
  obtain ⟨before, empties, rfl, hempties⟩ := h
  refine ⟨before, empties ++ [[]], by rw [List.append_assoc, List.cons_append], fun e he => ?_⟩
  rcases List.mem_append.1 he with he | he
  · exact hempties e he
  · exact List.mem_singleton.1 he

theorem mem_commitTail (b : ScrollbackBuffer) {slab : List UInt8} (h : slab ∈ b.commitTail.slabs)
    (hslabs : ∀ slab ∈ b.slabs, slab ≠ []) : slab ≠ [] := by
  rw [commitTail] at h
  simp only [] at h
  split_ifs at h with hnil
  · exact hslabs slab h
  · rcases List.mem_append.1 h with h | h
    · exact hslabs slab h
    · rw [List.mem_singleton.1 h]
      exact hnil

/-- Storing a chunk, as far as the slabs and the tail go. -/
theorem Newest.append (hb : Newest chunks b) (chunk : List UInt8) :
    (∀ slab ∈ (b.append chunk).slabs, slab ≠ []) ∧
    (∀ t, (b.append chunk).tailBuf = some t → t ≠ [] ∧ t.length ≤ slabBytes) ∧
    ((b.append chunk).tailBuf = none →
      (b.append chunk).slabs = [] ∧ (∀ c ∈ chunks ++ [chunk], c = []) ∨
      ∃ front slab, (b.append chunk).slabs = front ++ [slab] ∧ IsNewest (chunks ++ [chunk]) slab ∧
        coalesceMaxBytes ≤ slab.length) := by
  have hslab : coalesceMaxBytes ≤ slabBytes := by decide
  have hcoalesce : 0 < coalesceMaxBytes := by decide
  rw [ScrollbackBuffer.append]
  split_ifs with hlarge hpos hnew
  · refine ⟨fun slab hmem => ?_, nofun, fun _ => Or.inr ⟨_, chunk, rfl, ?_, hlarge⟩⟩
    · rcases List.mem_append.1 hmem with hmem | hmem
      · exact b.mem_commitTail hmem hb.slabs
      · rw [List.mem_singleton.1 hmem]
        exact List.ne_nil_of_length_pos (lt_of_lt_of_le hcoalesce hlarge)
    · exact ⟨chunks, [], rfl, nofun⟩
  · refine ⟨fun slab hmem => b.mem_commitTail hmem hb.slabs, fun t ht => ?_, nofun⟩
    obtain rfl := Option.some.inj ht
    exact ⟨List.ne_nil_of_length_pos hpos, by omega⟩
  · refine ⟨hb.slabs, fun t ht => ?_, nofun⟩
    obtain rfl := Option.some.inj ht
    rw [not_or, not_lt] at hnew
    refine ⟨fun hnil => ?_, ?_⟩
    · rw [(List.append_eq_nil_iff.1 hnil).2] at hpos
      exact absurd hpos (lt_irrefl 0)
    · rw [List.length_append]
      exact hnew.2
  · obtain rfl : chunk = [] := List.length_eq_zero_iff.1 (by omega)
    refine ⟨hb.slabs, hb.opened, fun hnone => (hb.closed hnone).imp ?_ ?_⟩
    · rintro ⟨hslabs, hall⟩
      refine ⟨hslabs, fun c hc => ?_⟩
      rcases List.mem_append.1 hc with hc | hc
      · exact hall c hc
      · exact List.mem_singleton.1 hc
    · rintro ⟨front, slab, hslabs, hnewest, hlen⟩
      exact ⟨front, slab, hslabs, hnewest.push_empty, hlen⟩

/-- A push. -/
theorem Newest.push (hb : Newest chunks b) (chunk : List UInt8) :
    Newest (chunks ++ [chunk]) (b.push chunk) := by
  obtain ⟨hslabs, hopened, hclosed⟩ := hb.append chunk
  have hbounded := hb.count.push_bounded chunk
  have htail : (b.push chunk).tailBuf = (b.append chunk).tailBuf := rfl
  have hsuffix : (b.push chunk).slabs <:+ (b.append chunk).slabs := evictSlabs_suffix _ _ _
  have hflatten : (chunks ++ [chunk]).flatten = chunks.flatten ++ chunk := by
    rw [List.flatten_append, List.flatten_singleton]
  have hclosed' : (b.push chunk).tailBuf = none →
      (b.push chunk).slabs = [] ∧ (∀ c ∈ chunks ++ [chunk], c = []) ∨
      ∃ front slab, (b.push chunk).slabs = front ++ [slab] ∧ IsNewest (chunks ++ [chunk]) slab ∧
        coalesceMaxBytes ≤ slab.length := by
    intro hnone
    rcases hclosed hnone with ⟨hnil, hall⟩ | ⟨front, slab, hfront, hnewest, hlen⟩
    · rw [hnil] at hsuffix
      exact Or.inl ⟨List.suffix_nil.1 hsuffix, hall⟩
    · have hzero : (b.append chunk).tail.length = 0 := by
        rw [ScrollbackBuffer.tail, ← htail, hnone]
        rfl
      obtain ⟨left, hleft⟩ := evictSlabs_concat front slab (b.totalBytes + chunk.length)
      refine Or.inr ⟨left, slab, ?_, hnewest, hlen⟩
      change (evictSlabs (b.append chunk).tail.length (b.append chunk).slabs _).1 = _
      rw [hzero, hfront, hleft]
  refine
    { contents := ?_
      count := hb.count.push chunk
      ever := ?_
      slabs := fun slab hmem => hslabs slab (hsuffix.subset hmem)
      opened := hopened
      closed := hclosed'
      bounded := ?_ }
  · obtain ⟨gone, hgone⟩ := hb.contents
    rw [hflatten, ← hgone, List.append_assoc]
    exact (b.contents_push chunk).trans (List.suffix_append _ _)
  · change b.bytesEverPushed + chunk.length = _
    rw [hb.ever, hflatten, List.length_append]
  · rcases hbounded with hle | hnil | ⟨hnil, hone⟩
    · exact Or.inl hle
    · -- only the tail is left
      left
      rw [ScrollbackBuffer.contents, hnil, List.flatten_nil, List.nil_append,
        ScrollbackBuffer.tail]
      cases ht : (b.push chunk).tailBuf with
      | none => exact Nat.zero_le _
      | some t =>
        have hlen := (hopened t ht).2
        have : slabBytes ≤ scrollbackMaxBytes := by decide
        exact le_trans hlen this
    · refine Or.inr ⟨?_, hone⟩
      cases ht : (b.push chunk).tailBuf with
      | none => rfl
      | some t =>
        rw [ScrollbackBuffer.tail, ht, Option.getD_some] at hnil
        exact absurd hnil (hopened t ht).1

theorem newest_empty : Newest [] empty where
  contents := List.suffix_refl _
  count := rfl
  ever := rfl
  slabs := nofun
  opened := nofun
  closed _ := Or.inl ⟨rfl, nofun⟩
  bounded := Or.inl (Nat.zero_le _)

/-- All pushes. -/
theorem newest_foldl (chunks : List (List UInt8)) :
    Newest chunks (chunks.foldl ScrollbackBuffer.push empty) := by
  induction chunks using List.reverseRecOn with
  | nil => exact newest_empty
  | append_singleton chunks chunk ih =>
    rw [List.foldl_append]
    exact ih.push chunk

/-- The ring is empty only if nothing was pushed. -/
theorem Newest.eq_nil (hb : Newest chunks b) (hnil : b.contents = []) : ∀ c ∈ chunks, c = [] := by
  obtain ⟨hslabs, htail⟩ := List.append_eq_nil_iff.1 hnil
  cases ht : b.tailBuf with
  | some t =>
    rw [ScrollbackBuffer.tail, ht, Option.getD_some] at htail
    exact absurd htail (hb.opened t ht).1
  | none =>
    rcases hb.closed ht with ⟨-, hall⟩ | ⟨front, slab, hfront, -, -⟩
    · exact hall
    · have hmem : slab ∈ b.slabs := by
        rw [hfront]
        exact List.mem_append_right _ List.mem_cons_self
      exact absurd (List.flatten_eq_nil_iff.1 hslabs slab hmem) (hb.slabs slab hmem)

/-- More than the bound is only buffered where it is one chunk. -/
theorem Newest.bound (hb : Newest chunks b) : b.contents.length ≤ scrollbackMaxBytes ∨
    IsNewest chunks b.contents ∧ coalesceMaxBytes ≤ b.contents.length := by
  refine hb.bounded.imp_right ?_
  rintro ⟨hnone, slab, hone⟩
  have hcontents : b.contents = slab := by
    rw [ScrollbackBuffer.contents, ScrollbackBuffer.tail, hnone, hone, List.flatten_singleton,
      Option.getD_none, List.append_nil]
  rcases hb.closed hnone with ⟨hnil, -⟩ | ⟨front, newest, hfront, hnewest, hlen⟩
  · rw [hone] at hnil
    cases hnil
  · have hlast := congrArg List.getLast? (hone.symm.trans hfront)
    rw [List.getLast?_singleton, List.getLast?_concat] at hlast
    obtain rfl := Option.some.inj hlast
    rw [hcontents]
    exact ⟨hnewest, hlen⟩

end ScrollbackBuffer
end Terminal
end Mullion
