import Mullion.Lib.Memory
import Mullion.Terminal.Scrollback

/-!
# The scrollback ring in memory

`ScrollbackBuffer` (`scrollback-buffer.ts`) as it is stored: an array of views of which the first
`head` are evicted, and a block that the next small chunks are copied into. What is read from it
should be the end of what was pushed, and no push should change what was returned before. What the
blocks of `allocUnsafe` hold is a parameter.

`Terminal/Scrollback` has the same ring as a list of byte lists, where the first is easy. So the
memory is shown to store that ring: `Stores` has the views that are not evicted read as its slabs,
the block that is written to as its tail, and no view in that block beyond what is written, so that
a write changes no view. Each part of a push keeps this (`Stores.write`, `Stores.evict` and so on),
hence the push (`Stores.push`), hence all pushes (`Stores.pushAll`). `ring_exact` has what the
methods return in terms of the chunks that were pushed.
-/

namespace Mullion
namespace Terminal

open Memory

/-- `COMPACT_MIN_HEAD`. -/
def compactMinHead : Nat := 32

/-- The fields of `ScrollbackBuffer`; `tailBuf` is a block. -/
structure Ring where
  slabs : List (Option View) := []
  head : Nat := 0
  tailBuf : Option Nat := none
  tailLen : Nat := 0
  totalBytes : Nat := 0
  bytesEverPushed : Nat := 0
  deriving DecidableEq, Repr

namespace Ring

/-! ## The methods -/

/-- `commitTail`. -/
def commitTail (r : Ring) : Ring :=
  { r with
    slabs :=
      match r.tailBuf with
      | some tail => if 0 < r.tailLen then r.slabs ++ [some ⟨tail, 0, r.tailLen⟩] else r.slabs
      | none => r.slabs
    tailBuf := none
    tailLen := 0 }

/-- The loop of `evict`, for at most `n` slabs. -/
def evictLoop : Nat → Ring → Ring
  | 0, r => r
  | n + 1, r =>
    if scrollbackMaxBytes < r.totalBytes ∧ r.head < r.slabs.length then
      if r.tailLen = 0 ∧ r.head = r.slabs.length - 1 then r
      else
        let dropped := r.slabs[r.head]?.join
        evictLoop n
          { r with
            slabs := r.slabs.set r.head none
            head := r.head + 1
            totalBytes := r.totalBytes - (dropped.map View.length).getD 0 }
    else r

/-- The end of `evict`. -/
def compact (r : Ring) : Ring :=
  if compactMinHead ≤ r.head ∧ r.slabs.length ≤ r.head * 2 then
    { r with
      slabs := r.slabs.drop r.head
      head := 0 }
  else r

/-- `evict`. -/
def evict (r : Ring) : Ring := (evictLoop r.slabs.length r).compact

section Push

-- `junk` is what is found in the blocks of `allocUnsafe`
variable (junk : Nat → Nat → UInt8)

/-- The block for a small chunk: that of the tail, or a new one. -/
def openTail (h : Heap UInt8) (r : Ring) (length : Nat) : Heap UInt8 × Ring × Nat :=
  match r.tailBuf with
  | some tail =>
    if slabBytes < r.tailLen + length then
      (h.alloc (unwritten junk h.fresh slabBytes),
        { r.commitTail with tailBuf := some h.fresh }, h.fresh)
    else (h, r, tail)
  | none =>
    (h.alloc (unwritten junk h.fresh slabBytes),
      { r.commitTail with tailBuf := some h.fresh }, h.fresh)

/-- The part of `push` that stores the chunk. -/
def store (h : Heap UInt8) (r : Ring) (chunk : View) : Heap UInt8 × Ring :=
  if coalesceMaxBytes ≤ chunk.length then
    (h, { r.commitTail with slabs := r.commitTail.slabs ++ [some chunk] })
  else if 0 < chunk.length then
    let (h, r, tail) := openTail junk h r chunk.length
    (h.copy tail r.tailLen (chunk.read h), { r with tailLen := r.tailLen + chunk.length })
  else (h, r)

/-- `push`. -/
def push (h : Heap UInt8) (r : Ring) (chunk : View) : Heap UInt8 × Ring :=
  let (h, r) := store junk h r chunk
  (h, Ring.evict
    { r with
      totalBytes := r.totalBytes + chunk.length
      bytesEverPushed := r.bytesEverPushed + chunk.length })

/-- The chunks of a session, each in a block of its own. -/
def pushAll : Heap UInt8 → Ring → List (List UInt8) → Heap UInt8 × Ring
  | h, r, [] => (h, r)
  | h, r, chunk :: chunks =>
    let (h, r) := push junk (h.alloc chunk) r ⟨h.fresh, 0, chunk.length⟩
    pushAll h r chunks

end Push

/-- `views`; `none` where a slab is `undefined`. -/
def views (r : Ring) : Option (List View) := do
  let committed ← (r.slabs.drop r.head).mapM id
  match r.tailBuf with
  | some tail => return if 0 < r.tailLen then committed ++ [⟨tail, 0, r.tailLen⟩] else committed
  | none => return committed

/-- `toBuffer`; `none` where it throws. -/
def toBuffer (h : Heap UInt8) (r : Ring) (preamble : List UInt8) : Option (List UInt8) :=
  r.views.map fun views => preamble ++ (views.map (View.read h)).flatten

/-- The loop of `tail`, over the views from the newest on: what is collected, oldest first, and
its length. -/
def collect (maxBytes : Nat) : List View → List View → Nat → List View × Nat
  | [], collected, total => (collected, total)
  | view :: older, collected, total =>
    if total < maxBytes then collect maxBytes older (view :: collected) (total + view.length)
    else (collected, total)

/-- `tail`; `none` where it throws. -/
def tail (h : Heap UInt8) (r : Ring) (maxBytes : Nat) : Option (List UInt8) :=
  r.views.map fun views =>
    let (collected, total) := collect maxBytes views.reverse [] 0
    let result := (collected.map (View.read h)).flatten
    if maxBytes < total then result.drop (total - maxBytes) else result

/-- `totalBufferedBytes`. -/
def totalBufferedBytes (r : Ring) : Nat := r.totalBytes

/-- `totalBytesEverPushed`. -/
def totalBytesEverPushed (r : Ring) : Nat := r.bytesEverPushed

/-! ## What is stored -/

/-- The ring in memory stores `b`. -/
structure Stores (h : Heap UInt8) (r : Ring) (b : ScrollbackBuffer) (live : List View) : Prop where
  head : r.head ≤ r.slabs.length
  slabs : r.slabs.drop r.head = live.map some
  read : live.map (View.read h) = b.slabs
  allocated : ∀ v ∈ live, v.id < h.fresh ∧ r.tailBuf ≠ some v.id
  length : ∀ v ∈ live, (v.read h).length = v.length
  closed : r.tailBuf = none → b.tailBuf = none ∧ r.tailLen = 0
  opened : ∀ t, r.tailBuf = some t → b.tailBuf = some ((h.block t).take r.tailLen) ∧
    t < h.fresh ∧ (h.block t).length = slabBytes ∧ 0 < r.tailLen ∧ r.tailLen ≤ slabBytes
  totalBytes : r.totalBytes = b.totalBytes
  bytesEverPushed : r.bytesEverPushed = b.bytesEverPushed

variable {h : Heap UInt8} {r : Ring} {b : ScrollbackBuffer} {live : List View}

namespace Stores

theorem tail_length (hs : Stores h r b live) : b.tail.length = r.tailLen := by
  cases htail : r.tailBuf with
  | none =>
    obtain ⟨hb, hlen⟩ := hs.closed htail
    rw [ScrollbackBuffer.tail, hb, hlen]
    rfl
  | some t =>
    obtain ⟨hb, -, hblock, -, hlen⟩ := hs.opened t htail
    rw [ScrollbackBuffer.tail, hb, Option.getD_some, List.length_take, hblock, min_eq_left hlen]

/-- Sealing the tail. -/
theorem commitTail (hs : Stores h r b live) :
    ∃ live, Stores h r.commitTail b.commitTail live := by
  cases htail : r.tailBuf with
  | none =>
    obtain ⟨hb, -⟩ := hs.closed htail
    have hnil : b.tail = [] := by rw [ScrollbackBuffer.tail, hb, Option.getD_none]
    have hslabs : r.commitTail.slabs = r.slabs := by rw [Ring.commitTail, htail]
    have hcommit : b.commitTail.slabs = b.slabs := if_pos hnil
    exact ⟨live,
      { head := hslabs ▸ hs.head
        slabs := by
          rw [hslabs]
          exact hs.slabs
        read := hs.read.trans hcommit.symm
        allocated := fun v hv => ⟨(hs.allocated v hv).1, (Option.some_ne_none _).symm⟩
        length := hs.length
        closed := fun _ => ⟨rfl, rfl⟩
        opened := fun _ hnone => absurd hnone.symm (Option.some_ne_none _)
        totalBytes := hs.totalBytes
        bytesEverPushed := hs.bytesEverPushed }⟩
  | some t =>
    obtain ⟨hb, ht, hblock, hpos, hlen⟩ := hs.opened t htail
    have hslab : b.tail = View.read h ⟨t, 0, r.tailLen⟩ := by
      rw [ScrollbackBuffer.tail, hb, Option.getD_some]
      rfl
    have hlength : (View.read h ⟨t, 0, r.tailLen⟩).length = r.tailLen := by
      rw [← hslab, hs.tail_length]
    have hne : b.tail ≠ [] := by
      intro hnil
      rw [hslab] at hnil
      rw [hnil] at hlength
      exact hpos.ne hlength
    have hslabs : r.commitTail.slabs = r.slabs ++ [some ⟨t, 0, r.tailLen⟩] := by
      rw [Ring.commitTail, htail]
      exact if_pos hpos
    have hcommit : b.commitTail.slabs = b.slabs ++ [b.tail] := if_neg hne
    exact ⟨live ++ [⟨t, 0, r.tailLen⟩],
      { head := by
          rw [hslabs, List.length_append]
          exact hs.head.trans (Nat.le_add_right _ _)
        slabs := by
          have hhead : r.commitTail.head = r.head := rfl
          rw [hslabs, hhead, List.drop_append_of_le_length hs.head, hs.slabs, List.map_append]
          rfl
        read := by rw [hcommit, List.map_append, hs.read, List.map_singleton, hslab]
        allocated := fun v hv => by
          rcases List.mem_append.1 hv with hv | hv
          · exact ⟨(hs.allocated v hv).1, (Option.some_ne_none _).symm⟩
          · rw [List.mem_singleton.1 hv]
            exact ⟨ht, (Option.some_ne_none _).symm⟩
        length := fun v hv => by
          rcases List.mem_append.1 hv with hv | hv
          · exact hs.length v hv
          · rw [List.mem_singleton.1 hv]
            exact hlength
        closed := fun _ => ⟨rfl, rfl⟩
        opened := fun _ hnone => absurd hnone.symm (Option.some_ne_none _)
        totalBytes := hs.totalBytes
        bytesEverPushed := hs.bytesEverPushed }⟩

/-- A new view at the end. -/
theorem push_slab (hs : Stores h r b live) (hclosed : r.tailBuf = none) {chunk : View}
    (hid : chunk.id < h.fresh) (hlength : (chunk.read h).length = chunk.length) :
    Stores h { r with slabs := r.slabs ++ [some chunk] }
      { b with slabs := b.slabs ++ [chunk.read h] } (live ++ [chunk]) :=
  { hs with
    head := by
      change r.head ≤ (r.slabs ++ [some chunk]).length
      rw [List.length_append]
      exact hs.head.trans (Nat.le_add_right _ _)
    slabs := by
      change (r.slabs ++ [some chunk]).drop r.head = _
      rw [List.drop_append_of_le_length hs.head, hs.slabs, List.map_append]
      rfl
    read := by
      rw [List.map_append, hs.read]
      rfl
    allocated := fun v hv => by
      rcases List.mem_append.1 hv with hv | hv
      · exact hs.allocated v hv
      · rw [List.mem_singleton.1 hv]
        refine ⟨hid, ?_⟩
        change r.tailBuf ≠ _
        rw [hclosed]
        nofun
    length := fun v hv => by
      rcases List.mem_append.1 hv with hv | hv
      · exact hs.length v hv
      · rw [List.mem_singleton.1 hv]
        exact hlength }

/-- Memory that keeps the blocks of the ring stores the same. -/
theorem of_keeps {h' : Heap UInt8} (hs : Stores h r b live) (hkeeps : h.Keeps ∅ h') :
    Stores h' r b live :=
  { hs with
    read := by
      rw [← hs.read]
      exact List.map_congr_left fun v hv =>
        View.read_keeps hkeeps (hs.allocated v hv).1 (Set.notMem_empty _)
    allocated := fun v hv =>
      ⟨(hs.allocated v hv).1.trans_le hkeeps.grows, (hs.allocated v hv).2⟩
    length := fun v hv => by
      rw [View.read_keeps hkeeps (hs.allocated v hv).1 (Set.notMem_empty _)]
      exact hs.length v hv
    opened := fun t ht => by
      obtain ⟨hb, hlt, hblock, hpos, hlen⟩ := hs.opened t ht
      have hsame := hkeeps.same t hlt (Set.notMem_empty _)
      rw [hsame]
      exact ⟨hb, hlt.trans_le hkeeps.grows, hblock, hpos, hlen⟩ }

/-- Writing behind the tail. -/
theorem write (hs : Stores h r b live) {t : Nat} (bytes : List UInt8)
    (htail : r.tailBuf = some t) (hfits : r.tailLen + bytes.length ≤ slabBytes) :
    Stores (h.copy t r.tailLen bytes) { r with tailLen := r.tailLen + bytes.length }
      { b with tailBuf := some (b.tail ++ bytes) } live := by
  obtain ⟨hb, hlt, hblock, hpos, hlen⟩ := hs.opened t htail
  have hkeeps : h.Keeps {t} (h.copy t r.tailLen bytes) :=
    (Heap.Keeps.refl _ h).copy (Or.inr (Set.mem_singleton t)) _ _
  have hother : ∀ v ∈ live, v.id ∉ ({t} : Set Nat) := by
    intro v hv hmem
    rw [Set.mem_singleton_iff] at hmem
    exact (hs.allocated v hv).2 (by rw [htail, hmem])
  have hread : ∀ v ∈ live, v.read (h.copy t r.tailLen bytes) = v.read h :=
    fun v hv => View.read_keeps hkeeps (hs.allocated v hv).1 (hother v hv)
  have hwritten := Heap.block_copy hlt r.tailLen bytes
  exact
    { hs with
      read := by
        rw [← hs.read]
        exact List.map_congr_left hread
      allocated := fun v hv => by
        rw [Heap.fresh_copy]
        exact hs.allocated v hv
      length := fun v hv => by
        rw [hread v hv]
        exact hs.length v hv
      closed := fun hnone => absurd (htail.symm.trans hnone) nofun
      opened := fun t' ht' => by
        obtain rfl : t = t' := Option.some.inj (htail.symm.trans ht')
        rw [hwritten, Heap.fresh_copy]
        refine ⟨?_, hlt, ?_, ?_, hfits⟩
        · rw [take_overwrite _ _ (hblock ▸ hfits), ScrollbackBuffer.tail, hb, Option.getD_some]
        · rw [length_overwrite (hblock ▸ hlen), hblock]
        · exact Nat.add_pos_left hpos _ }

/-- Writing to a new tail. -/
theorem write_new (hs : Stores h r b live) {bytes : List UInt8} (junk : Nat → Nat → UInt8)
    (hbytes : 0 < bytes.length) (hfits : bytes.length ≤ slabBytes) :
    Stores ((h.alloc (unwritten junk h.fresh slabBytes)).copy h.fresh 0 bytes)
      { r with
        tailBuf := some h.fresh
        tailLen := bytes.length }
      { b with tailBuf := some bytes } live := by
  have hkeeps : h.Keeps ∅ ((h.alloc (unwritten junk h.fresh slabBytes)).copy h.fresh 0 bytes) :=
    ((Heap.Keeps.refl _ h).alloc _).copy (Or.inl le_rfl) _ _
  have hlt : h.fresh < (h.alloc (unwritten junk h.fresh slabBytes)).fresh := by
    rw [Heap.fresh_alloc]
    exact Nat.lt_succ_self _
  have hwritten := Heap.block_copy hlt 0 bytes
  rw [Heap.block_alloc_fresh] at hwritten
  have hsize : 0 + bytes.length ≤ (unwritten junk h.fresh slabBytes).length := by
    rw [Nat.zero_add, length_unwritten]
    exact hfits
  have htake := take_overwrite (unwritten junk h.fresh slabBytes) bytes hsize
  rw [Nat.zero_add, List.take_zero, List.nil_append] at htake
  exact
    { hs.of_keeps hkeeps with
      allocated := fun v hv => by
        refine ⟨((hs.of_keeps hkeeps).allocated v hv).1, fun heq => ?_⟩
        exact (hs.allocated v hv).1.ne' (Option.some.inj heq)
      closed := nofun
      opened := fun t ht => by
        obtain rfl := Option.some.inj ht
        rw [hwritten, htake, Heap.fresh_copy, length_overwrite (Nat.zero_le _), length_unwritten]
        exact ⟨rfl, hlt, rfl, hbytes, hfits⟩ }

/-- Storing a chunk. -/
theorem store (hs : Stores h r b live) (junk : Nat → Nat → UInt8) {chunk : View}
    (hid : chunk.id < h.fresh) (hlength : (chunk.read h).length = chunk.length) :
    ∃ live, Stores (Ring.store junk h r chunk).1 (Ring.store junk h r chunk).2
      (b.append (chunk.read h)) live := by
  obtain ⟨sealed, hsealed⟩ := hs.commitTail
  have hslab : coalesceMaxBytes ≤ slabBytes := by decide
  rw [Ring.store, ScrollbackBuffer.append, hlength]
  by_cases hlarge : coalesceMaxBytes ≤ chunk.length
  · rw [if_pos hlarge, if_pos hlarge]
    exact ⟨_, hsealed.push_slab rfl hid hlength⟩
  rw [if_neg hlarge, if_neg hlarge]
  by_cases hpos : 0 < chunk.length
  · have hnew := hsealed.write_new junk (hlength.symm ▸ hpos) (by omega)
    have hread : chunk.read (h.alloc (unwritten junk h.fresh slabBytes)) = chunk.read h :=
      View.read_keeps ((Heap.Keeps.refl ∅ h).alloc _) hid (Set.notMem_empty _)
    rw [hlength, ← Nat.zero_add chunk.length] at hnew
    rw [if_pos hpos, if_pos hpos, openTail]
    cases htail : r.tailBuf with
    | none =>
      rw [if_pos (Or.inl (hs.closed htail).1)]
      simp only [hread]
      exact ⟨sealed, hnew⟩
    | some t =>
      obtain ⟨hb, -⟩ := hs.opened t htail
      have hsome : ¬ b.tailBuf = none := by
        rw [hb]
        exact Option.some_ne_none _
      have htailLength := hs.tail_length
      by_cases hfull : slabBytes < r.tailLen + chunk.length
      · rw [if_pos (Or.inr (htailLength.symm ▸ hfull))]
        simp only [if_pos hfull, hread]
        exact ⟨sealed, hnew⟩
      · have hwrite := hs.write (chunk.read h) htail (by omega)
        rw [hlength] at hwrite
        rw [if_neg (not_or.2 ⟨hsome, htailLength.symm ▸ hfull⟩)]
        simp only [if_neg hfull]
        exact ⟨live, hwrite⟩
  · rw [if_neg hpos, if_neg hpos]
    exact ⟨live, hs⟩

/-- The oldest slab is dropped. -/
theorem drop_slab {v : View} (hs : Stores h r b (v :: live)) {slab : List UInt8}
    {rest : List (List UInt8)} (hslabs : b.slabs = slab :: rest) :
    Stores h
      { r with
        slabs := r.slabs.set r.head none
        head := r.head + 1
        totalBytes := r.totalBytes - ((r.slabs[r.head]?.join).map View.length).getD 0 }
      { b with
        slabs := rest
        totalBytes := b.totalBytes - slab.length } live := by
  have hget : r.slabs[r.head]? = some (some v) := by
    have := congrArg List.head? hs.slabs
    rwa [List.head?_drop, List.map_cons, List.head?_cons] at this
  have hread := hs.read
  rw [hslabs, List.map_cons, List.cons.injEq] at hread
  exact
    { hs with
      head := by
        change r.head + 1 ≤ (r.slabs.set r.head none).length
        rw [List.length_set]
        exact (List.getElem?_eq_some_iff.1 hget).1
      slabs := by
        change (r.slabs.set r.head none).drop (r.head + 1) = _
        rw [List.drop_set_of_lt (Nat.lt_succ_self _), ← List.tail_drop, hs.slabs]
        rfl
      read := hread.2
      allocated := fun w hw => hs.allocated w (List.mem_cons_of_mem _ hw)
      length := fun w hw => hs.length w (List.mem_cons_of_mem _ hw)
      totalBytes := by
        change r.totalBytes - ((r.slabs[r.head]?.join).map View.length).getD 0 = _
        rw [hget, hs.totalBytes, ← hread.1, hs.length v List.mem_cons_self]
        rfl }

theorem length_live (hs : Stores h r b live) :
    r.slabs.length - r.head = live.length ∧ live.length = b.slabs.length := by
  rw [← List.length_drop, hs.slabs, ← hs.read, List.length_map, List.length_map]
  exact ⟨rfl, rfl⟩

/-- Nothing is evicted. -/
theorem keep (hs : Stores h r b live)
    (hstop : ScrollbackBuffer.evictSlabs r.tailLen b.slabs b.totalBytes =
      (b.slabs, b.totalBytes)) :
    ∃ live, Stores h r
      { b with
        slabs := (ScrollbackBuffer.evictSlabs r.tailLen b.slabs b.totalBytes).1
        totalBytes := (ScrollbackBuffer.evictSlabs r.tailLen b.slabs b.totalBytes).2 } live := by
  rw [hstop]
  exact ⟨live, hs⟩

/-- The loop of `evict`. -/
theorem evictLoop {n : Nat} (hs : Stores h r b live) (hn : r.slabs.length - r.head ≤ n) :
    ∃ live, Stores h (Ring.evictLoop n r)
      { b with
        slabs := (ScrollbackBuffer.evictSlabs r.tailLen b.slabs b.totalBytes).1
        totalBytes := (ScrollbackBuffer.evictSlabs r.tailLen b.slabs b.totalBytes).2 } live := by
  induction n generalizing r b live with
  | zero =>
    obtain ⟨hlength, hlive⟩ := hs.length_live
    refine hs.keep ?_
    rw [List.length_eq_zero_iff.1 (show b.slabs.length = 0 by omega)]
    rfl
  | succ n ih =>
    obtain ⟨hlength, hlive⟩ := hs.length_live
    cases hslabs : b.slabs with
    | nil =>
      rw [hslabs, List.length_nil] at hlive
      rw [Ring.evictLoop, if_neg fun h => by omega, ← hslabs]
      exact hs.keep (by rw [hslabs]; rfl)
    | cons slab rest =>
      rw [hslabs, List.length_cons] at hlive
      have hkeep := hs.keep
      rw [hslabs] at hkeep
      have hmore : r.head < r.slabs.length := by omega
      by_cases hover : scrollbackMaxBytes < r.totalBytes
      · have hover' : ¬ b.totalBytes ≤ scrollbackMaxBytes := by
          rw [← hs.totalBytes]
          exact not_le.2 hover
        rw [Ring.evictLoop, if_pos ⟨hover, hmore⟩]
        by_cases hlast : r.tailLen = 0 ∧ r.head = r.slabs.length - 1
        · have hlast' : r.tailLen = 0 ∧ rest = [] :=
            ⟨hlast.1, List.length_eq_zero_iff.1 (by omega)⟩
          rw [if_pos hlast]
          refine hkeep ?_
          rw [ScrollbackBuffer.evictSlabs, if_neg hover', if_pos hlast']
        · have hlast' : ¬ (r.tailLen = 0 ∧ rest = []) := by
            rintro ⟨hclosed, rfl⟩
            rw [List.length_nil] at hlive
            exact hlast ⟨hclosed, by omega⟩
          obtain ⟨v, live, rfl⟩ : ∃ v live', live = v :: live' :=
            List.exists_cons_of_length_pos (by rw [hlive]; exact Nat.succ_pos _)
          rw [if_neg hlast, ScrollbackBuffer.evictSlabs, if_neg hover', if_neg hlast']
          refine ih (hs.drop_slab hslabs) ?_
          change (r.slabs.set r.head none).length - (r.head + 1) ≤ n
          rw [List.length_set]
          omega
      · rw [Ring.evictLoop, if_neg fun h => hover h.1]
        refine hkeep ?_
        rw [ScrollbackBuffer.evictSlabs, if_pos (hs.totalBytes ▸ not_lt.1 hover)]

theorem compact (hs : Stores h r b live) : Stores h r.compact b live := by
  rw [Ring.compact]
  split_ifs
  · exact
      { hs with
        head := Nat.zero_le _
        slabs := hs.slabs }
  · exact hs

theorem evict (hs : Stores h r b live) : ∃ live, Stores h r.evict b.evict live := by
  obtain ⟨live, hloop⟩ := hs.evictLoop (n := r.slabs.length) (Nat.sub_le _ _)
  refine ⟨live, ?_⟩
  rw [← hs.tail_length] at hloop
  exact hloop.compact

theorem add (hs : Stores h r b live) (n : Nat) :
    Stores h { r with totalBytes := r.totalBytes + n, bytesEverPushed := r.bytesEverPushed + n }
      { b with totalBytes := b.totalBytes + n, bytesEverPushed := b.bytesEverPushed + n } live :=
  { hs with
    totalBytes := congrArg (· + n) hs.totalBytes
    bytesEverPushed := congrArg (· + n) hs.bytesEverPushed }

/-- **A push.** The ring in memory does what the ring of lists does. -/
theorem push (hs : Stores h r b live) (junk : Nat → Nat → UInt8) (chunk : View)
    (hid : chunk.id < h.fresh) (hlength : (chunk.read h).length = chunk.length) :
    ∃ live, Stores (Ring.push junk h r chunk).1 (Ring.push junk h r chunk).2
      (b.push (chunk.read h)) live := by
  obtain ⟨live, hstore⟩ := hs.store junk hid hlength
  have hevict := (hstore.add chunk.length).evict
  rw [ScrollbackBuffer.append_totalBytes, ScrollbackBuffer.append_bytesEverPushed] at hevict
  rw [ScrollbackBuffer.push, hlength]
  exact hevict

/-- All pushes. -/
theorem pushAll (hs : Stores h r b live) (junk : Nat → Nat → UInt8)
    (chunks : List (List UInt8)) :
    ∃ live, Stores (Ring.pushAll junk h r chunks).1 (Ring.pushAll junk h r chunks).2
      (chunks.foldl ScrollbackBuffer.push b) live := by
  induction chunks generalizing h r b live with
  | nil => exact ⟨live, hs⟩
  | cons chunk chunks ih =>
    have hread : View.read (h.alloc chunk) ⟨h.fresh, 0, chunk.length⟩ = chunk := by
      rw [View.read, Heap.block_alloc_fresh, List.drop_zero, List.take_length]
    have halloc := hs.of_keeps ((Heap.Keeps.refl ∅ h).alloc chunk)
    obtain ⟨live, hpush⟩ := halloc.push junk ⟨h.fresh, 0, chunk.length⟩
      (by rw [Heap.fresh_alloc]; exact Nat.lt_succ_self _) (by rw [hread])
    rw [hread] at hpush
    exact ih hpush

/-! ## What the methods return -/

/-- The views show what is buffered. -/
theorem views (hs : Stores h r b live) :
    ∃ views, r.views = some views ∧ (views.map (View.read h)).flatten = b.contents ∧
      ∀ v ∈ views, (v.read h).length = v.length := by
  have hcommitted : (r.slabs.drop r.head).mapM id = some live := by
    rw [hs.slabs]
    clear hs
    induction live with
    | nil => rfl
    | cons v live ih => simp [List.mapM_cons, ih]
  rw [Ring.views, hcommitted]
  cases htail : r.tailBuf with
  | none =>
    obtain ⟨hb, -⟩ := hs.closed htail
    refine ⟨live, rfl, ?_, hs.length⟩
    rw [ScrollbackBuffer.contents, ScrollbackBuffer.tail, hb, hs.read, Option.getD_none,
      List.append_nil]
  | some t =>
    obtain ⟨hb, -, hblock, hpos, hlen⟩ := hs.opened t htail
    refine ⟨live ++ [⟨t, 0, r.tailLen⟩], congrArg some (if_pos hpos), ?_, fun v hv => ?_⟩
    · rw [ScrollbackBuffer.contents, ScrollbackBuffer.tail, hb, ← hs.read, List.map_append,
        List.flatten_append, List.map_singleton, List.flatten_singleton]
      rfl
    · rcases List.mem_append.1 hv with hv | hv
      · exact hs.length v hv
      · rw [List.mem_singleton.1 hv, View.read, List.drop_zero, List.length_take, hblock,
          min_eq_left hlen]

theorem toBuffer (hs : Stores h r b live) (preamble : List UInt8) :
    r.toBuffer h preamble = some (preamble ++ b.contents) := by
  obtain ⟨views, hviews, hread, -⟩ := hs.views
  rw [Ring.toBuffer, hviews, Option.map_some, hread]

end Stores

/-- What the loop of `tail` collects: the newest views, as many as are needed. -/
theorem collect_spec (maxBytes : Nat) (older collected : List View) (total : Nat)
    (htotal : ((collected.map (View.read h)).flatten).length = total)
    (hlength : ∀ v ∈ older, (v.read h).length = v.length) :
    ∃ front taken, older.reverse = front ++ taken ∧
      (collect maxBytes older collected total).1 = taken ++ collected ∧
      (((taken ++ collected).map (View.read h)).flatten).length =
        (collect maxBytes older collected total).2 ∧
      (maxBytes ≤ (collect maxBytes older collected total).2 ∨ front = []) := by
  induction older generalizing collected total with
  | nil => exact ⟨[], [], rfl, rfl, htotal, Or.inr rfl⟩
  | cons view older ih =>
    rw [collect]
    split_ifs with hless
    · obtain ⟨front, taken, hsplit, hcollected, hsum, hend⟩ := ih (view :: collected)
        (total + view.length) (by
          rw [List.map_cons, List.flatten_cons, List.length_append, htotal,
            hlength view List.mem_cons_self, Nat.add_comm])
        fun v hv => hlength v (List.mem_cons_of_mem _ hv)
      refine ⟨front, taken ++ [view], ?_, ?_, ?_, hend⟩
      · rw [List.reverse_cons, hsplit, List.append_assoc]
      · rw [hcollected, List.append_assoc, List.singleton_append]
      · rw [List.append_assoc, List.singleton_append, hsum]
    · exact ⟨(view :: older).reverse, [], (List.append_nil _).symm, rfl, htotal,
        Or.inl (not_lt.1 hless)⟩

/-- `tail` returns the end of what is buffered. -/
theorem Stores.tail (hs : Stores h r b live) (maxBytes : Nat) :
    r.tail h maxBytes = some (b.contents.drop (b.contents.length - maxBytes)) := by
  obtain ⟨views, hviews, hread, hlength⟩ := hs.views
  obtain ⟨front, taken, hsplit, hcollected, hsum, hend⟩ :=
    collect_spec (h := h) maxBytes views.reverse [] 0 rfl
      fun v hv => hlength v (List.mem_reverse.1 hv)
  rw [List.reverse_reverse] at hsplit
  rw [List.append_nil] at hcollected hsum
  rw [Ring.tail, hviews, Option.map_some]
  generalize hout : collect maxBytes views.reverse [] 0 = out at hcollected hsum hend
  obtain ⟨collected, total⟩ := out
  obtain rfl : collected = taken := hcollected
  rw [← hread, hsplit, List.map_append, List.flatten_append, List.length_append]
  simp only [] at hsum hend ⊢
  rw [hsum]
  congr 1
  rcases hend with hle | rfl
  · have hdrop : ((front.map (View.read h)).flatten).length + total - maxBytes =
        ((front.map (View.read h)).flatten).length + (total - maxBytes) := by omega
    rw [hdrop, List.drop_length_add_append]
    split_ifs with hlt
    · rfl
    · rw [Nat.sub_eq_zero_of_le (not_lt.1 hlt), List.drop_zero]
  · rw [List.map_nil, List.flatten_nil, List.nil_append, List.length_nil, Nat.zero_add]
    split_ifs with hlt
    · rfl
    · rw [Nat.sub_eq_zero_of_le (not_lt.1 hlt), List.drop_zero]

/-- A new ring. -/
theorem stores_empty (h : Heap UInt8) : Stores h {} .empty [] where
  head := Nat.zero_le _
  slabs := rfl
  read := rfl
  allocated := nofun
  length := nofun
  closed _ := ⟨rfl, rfl⟩
  opened := nofun
  totalBytes := rfl
  bytesEverPushed := rfl

/-- **The ring is exact.** What it returns is the end of what was pushed; more than the bound only
where it is the newest chunk alone, and nothing only where nothing was pushed. -/
theorem ring_exact (junk : Nat → Nat → UInt8) (h : Heap UInt8) (chunks : List (List UInt8)) :
    ∃ contents, contents <:+ chunks.flatten ∧
      (∀ preamble, (pushAll junk h {} chunks).2.toBuffer (pushAll junk h {} chunks).1 preamble =
        some (preamble ++ contents)) ∧
      (pushAll junk h {} chunks).2.totalBufferedBytes = contents.length ∧
      (contents.length ≤ scrollbackMaxBytes ∨
        ScrollbackBuffer.IsNewest chunks contents ∧ coalesceMaxBytes ≤ contents.length) ∧
      (contents = [] → ∀ chunk ∈ chunks, chunk = []) ∧
      (∀ maxBytes, (pushAll junk h {} chunks).2.tail (pushAll junk h {} chunks).1 maxBytes =
        some (contents.drop (contents.length - maxBytes))) ∧
      (pushAll junk h {} chunks).2.totalBytesEverPushed = chunks.flatten.length := by
  obtain ⟨live, hs⟩ := (stores_empty h).pushAll junk chunks
  have hb := ScrollbackBuffer.newest_foldl chunks
  refine ⟨_, hb.contents, hs.toBuffer, ?_, hb.bound, hb.eq_nil, hs.tail, ?_⟩
  · exact hs.totalBytes.trans hb.count
  · exact hs.bytesEverPushed.trans hb.ever

end Ring
end Terminal
end Mullion
