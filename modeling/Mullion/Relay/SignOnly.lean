import Mullion.Lib.Memory
import Mullion.Relay.Filter

/-!
# The sign-only filter in memory

`SignOnlyFilter` (`ssh-agent-filter.ts`) with its buffer: one block that grows, is shifted in place
and is written again, while the frames that are returned are blocks of their own. Two things are
asked of it: that its calls classify the frames of the stream, however that is cut into chunks, and
that no frame which was returned changes later, when the buffer is written again. What the blocks of
`allocUnsafe` hold is a parameter, so the proof can use nothing of it.

`WellFormed` says that the buffer is a block of its own and large enough for what it holds, and
`kept` are these bytes. `append` adds to them and `consume` drops a frame at their front
(`append_spec`, `consume_spec`), so the loop cuts frames from `kept` (`loop_spec`). `Cut` is what
some calls do to a stream: which frames they cut, what is left, and that all they return lies
outside the buffer, where a later call writes nothing (`Cut.same_later`). Cuts compose, and the
induction over the chunks is `feedAll_spec`. `filter_exact` reads the two promises off it. With the
same facts the calls do what the relay takes `feed` to do, as a function of bytes
(`filter_refines`).
-/

namespace Mullion
namespace Relay
namespace SignOnly

open Framing Memory

/-! ## The methods -/

/-- `LENGTH_PREFIX_BYTES`. -/
def lengthPrefixBytes : Nat := 4

/-- The block of `SSH_AGENT_FAILURE_FRAME`. -/
def failureBlock : Nat := 0

/-- The fields of `SignOnlyFilter`; the buffer is a block. -/
structure Filter where
  buffer : Nat
  length : Nat
  deriving DecidableEq, Repr

/-- `FilterResult`; each frame is a block. -/
structure Returned where
  forward : List Nat := []
  reject : List Nat := []
  rejectedLengths : List Nat := []
  deriving DecidableEq, Repr

/-- The memory of a new filter. -/
def newHeap : Heap UInt8 := ⟨[failureFrame, []]⟩

def newFilter : Filter := ⟨1, 0⟩

section Methods

-- `junk` is what is found in the blocks of `allocUnsafe`
variable (junk : Nat → Nat → UInt8)

/-- `append`. -/
def append (h : Heap UInt8) (f : Filter) (chunk : List UInt8) : Heap UInt8 × Filter :=
  let needed := f.length + chunk.length
  let size := (h.block f.buffer).length
  if size < needed then
    let grown := h.fresh
    let larger := h.alloc (unwritten junk grown (max (max needed (size * 2)) 64))
    let moved := larger.copy grown 0 (View.read h ⟨f.buffer, 0, f.length⟩)
    (moved.copy grown f.length chunk, ⟨grown, needed⟩)
  else (h.copy f.buffer f.length chunk, ⟨f.buffer, needed⟩)

/-- `consume`. -/
def consume (h : Heap UInt8) (f : Filter) (frameLength : Nat) : Heap UInt8 × Filter :=
  (h.copy f.buffer 0 (View.read h ⟨f.buffer, frameLength, f.length - frameLength⟩),
    ⟨f.buffer, f.length - frameLength⟩)

/-- The loop of `feed`, for at most `n` frames: memory, filter, what is returned, and the
`bodyLength` of a `SshAgentFrameTooLargeError`, whose `partialResult` is what is returned. -/
def loop : Nat → Heap UInt8 → Filter → Heap UInt8 × Filter × Returned × Option Nat
  | 0, h, f => (h, f, {}, none)
  | n + 1, h, f =>
    if f.length < lengthPrefixBytes then (h, f, {}, none)
    else
      let bodyLength := ofBytes (View.read h ⟨f.buffer, 0, 4⟩)
      if maxFrameBytes < bodyLength then (h, f, {}, some bodyLength)
      else
        let frameLength := lengthPrefixBytes + bodyLength
        if f.length < frameLength then (h, f, {}, none)
        else
          let frame := h.fresh
          let copied := h.alloc (View.read h ⟨f.buffer, 0, frameLength⟩)
          let shifted := consume copied f frameLength
          let type := ((shifted.1.block frame)[lengthPrefixBytes]?.getD 0).toNat
          let (h', f', r, thrown) := loop n shifted.1 shifted.2
          if 1 ≤ bodyLength ∧ classify type then
            (h', f', { r with forward := frame :: r.forward }, thrown)
          else
            (h', f',
              { r with
                reject := failureBlock :: r.reject
                rejectedLengths := frameLength :: r.rejectedLengths }, thrown)

/-- `feed`. -/
def feed (h : Heap UInt8) (f : Filter) (chunk : List UInt8) :
    Heap UInt8 × Filter × Returned × Option Nat :=
  let appended := append junk h f chunk
  loop (appended.2.length + 1) appended.1 appended.2

/-- Chunk after chunk, up to one that throws. -/
def feedAll : Heap UInt8 → Filter → List (List UInt8) →
    Heap UInt8 × Filter × List Returned × Option Nat
  | h, f, [] => (h, f, [], none)
  | h, f, chunk :: chunks =>
    match feed junk h f chunk with
    | (h, f, r, some bodyLength) => (h, f, [r], some bodyLength)
    | (h, f, r, none) =>
      let (h, f, rs, thrown) := feedAll h f chunks
      (h, f, r :: rs, thrown)

end Methods

/-! ## What is promised -/

/-- The frame asks for the identities or for a signature. -/
def asksToSign (f : Tagged) : Bool :=
  f.payload.head? = some (UInt8.ofNat requestIdentities) ||
    f.payload.head? = some (UInt8.ofNat signRequest)

theorem classify_eq (type : Nat) :
    classify type = (type = requestIdentities || type = signRequest) := by
  have hlist : signOnlyAllowlist = [requestIdentities, signRequest] := by decide
  rw [classify, hlist]
  simp

theorem allowed_eq (f : Tagged) : allowed f = asksToSign f := by
  obtain ⟨tag, payload⟩ := f
  cases payload with
  | nil => rfl
  | cons type body =>
    have hbyte (n : Nat) (hn : n < 256) : type.toNat = n ↔ type = UInt8.ofNat n := by
      rw [← UInt8.toNat_inj, UInt8.toNat_ofNat', Nat.mod_eq_of_lt hn]
    simp only [allowed, asksToSign, classify_eq, List.head?_cons, Option.some.injEq,
      hbyte requestIdentities (by decide), hbyte signRequest (by decide)]

/-- Some results are what the frames ask for. -/
structure Classifies (h : Heap UInt8) (rs : List Returned) (fs : List Tagged) : Prop where
  forward : (rs.flatMap Returned.forward).map h.block = (fs.filter asksToSign).map Tagged.encode
  reject : (rs.flatMap Returned.reject).map h.block =
    (fs.filter (!asksToSign ·)).map fun _ => failureFrame
  lengths : rs.flatMap Returned.rejectedLengths =
    (fs.filter (!asksToSign ·)).map (·.encode.length)

namespace Classifies

variable {h : Heap UInt8} {rs : List Returned} {fs : List Tagged}

theorem nil (h : Heap UInt8) : Classifies h [] [] := ⟨rfl, rfl, rfl⟩

theorem append {rs' : List Returned} {fs' : List Tagged} (hrs : Classifies h rs fs)
    (hrs' : Classifies h rs' fs') : Classifies h (rs ++ rs') (fs ++ fs') where
  forward := by
    rw [List.flatMap_append, List.map_append, hrs.forward, hrs'.forward, List.filter_append,
      List.map_append]
  reject := by
    rw [List.flatMap_append, List.map_append, hrs.reject, hrs'.reject, List.filter_append,
      List.map_append]
  lengths := by
    rw [List.flatMap_append, hrs.lengths, hrs'.lengths, List.filter_append, List.map_append]

/-- A frame that is forwarded. -/
theorem forward_cons {r : Returned} (hr : Classifies h [r] fs) {f : Tagged} {frame : Nat}
    (hf : asksToSign f = true) (hframe : h.block frame = f.encode) :
    Classifies h [{ r with forward := frame :: r.forward }] (f :: fs) where
  forward := by
    have := hr.forward
    rw [List.flatMap_singleton] at this
    rw [List.flatMap_singleton, List.map_cons, this, hframe, List.filter_cons_of_pos hf,
      List.map_cons]
  reject := by
    rw [List.filter_cons_of_neg (by simp [hf]), ← hr.reject]
    rfl
  lengths := by
    rw [List.filter_cons_of_neg (by simp [hf]), ← hr.lengths]
    rfl

/-- A frame that is refused. -/
theorem reject_cons {r : Returned} (hr : Classifies h [r] fs) {f : Tagged} {id : Nat}
    (hf : ¬ asksToSign f = true) (hid : h.block id = failureFrame) :
    Classifies h [{ r with
      reject := id :: r.reject
      rejectedLengths := f.encode.length :: r.rejectedLengths }] (f :: fs) where
  forward := by
    rw [List.filter_cons_of_neg hf, ← hr.forward]
    rfl
  reject := by
    have := hr.reject
    rw [List.flatMap_singleton] at this
    rw [List.flatMap_singleton, List.map_cons, this, hid,
      List.filter_cons_of_pos (by simp [hf]), List.map_cons]
  lengths := by
    have := hr.lengths
    rw [List.flatMap_singleton] at this
    rw [List.flatMap_singleton, this, List.filter_cons_of_pos (by simp [hf]), List.map_cons]

end Classifies

/-! ## A filter in good order -/

/-- The bytes that wait for the rest of their frame. -/
def kept (h : Heap UInt8) (f : Filter) : List UInt8 := View.read h ⟨f.buffer, 0, f.length⟩

/-- The buffer is a block of its own, large enough for what it holds. -/
structure WellFormed (h : Heap UInt8) (f : Filter) : Prop where
  buffer : f.buffer < h.fresh
  own : f.buffer ≠ failureBlock
  fits : f.length ≤ (h.block f.buffer).length
  failure : h.block failureBlock = failureFrame

variable {h : Heap UInt8} {f : Filter}

theorem kept_eq (h : Heap UInt8) (f : Filter) :
    kept h f = (h.block f.buffer).take f.length := rfl

theorem WellFormed.length_kept (hf : WellFormed h f) : (kept h f).length = f.length := by
  rw [kept_eq, List.length_take, min_eq_left hf.fits]

theorem WellFormed.failure_lt (hf : WellFormed h f) : failureBlock < h.fresh :=
  lt_of_le_of_lt (Nat.zero_le _) hf.buffer

/-- A part of what is kept. -/
theorem read_take {n : Nat} (hn : n ≤ f.length) :
    View.read h ⟨f.buffer, 0, n⟩ = (kept h f).take n := by
  rw [kept_eq, List.take_take, min_eq_left hn]
  rfl

theorem newFilter_wellFormed : WellFormed newHeap newFilter :=
  ⟨by decide, by decide, by decide, rfl⟩

/-- Writing behind what is kept. -/
theorem WellFormed.write (hf : WellFormed h f) (chunk : List UInt8)
    (hfits : f.length + chunk.length ≤ (h.block f.buffer).length) :
    WellFormed (h.copy f.buffer f.length chunk) ⟨f.buffer, f.length + chunk.length⟩ ∧
      kept (h.copy f.buffer f.length chunk) ⟨f.buffer, f.length + chunk.length⟩ =
        kept h f ++ chunk := by
  have hblock := Heap.block_copy hf.buffer f.length chunk
  refine ⟨⟨?_, hf.own, ?_, ?_⟩, ?_⟩
  · rw [Heap.fresh_copy]
    exact hf.buffer
  · change f.length + chunk.length ≤ ((h.copy f.buffer f.length chunk).block f.buffer).length
    rw [hblock, length_overwrite hf.fits]
    exact hfits
  · rw [Heap.block_copy_of_ne hf.own.symm, hf.failure]
  · rw [kept_eq]
    change ((h.copy f.buffer f.length chunk).block f.buffer).take (f.length + chunk.length) = _
    rw [hblock, take_overwrite _ _ hfits, kept_eq]

section Methods

/-- `append` keeps what it was given behind what was kept. -/
theorem append_spec (junk : Nat → Nat → UInt8) (hf : WellFormed h f) (chunk : List UInt8) :
    WellFormed (append junk h f chunk).1 (append junk h f chunk).2 ∧
      kept (append junk h f chunk).1 (append junk h f chunk).2 = kept h f ++ chunk ∧
      h.Keeps {f.buffer} (append junk h f chunk).1 ∧
      ((append junk h f chunk).2.buffer = f.buffer ∨
        h.fresh ≤ (append junk h f chunk).2.buffer) := by
  by_cases hgrow : (h.block f.buffer).length < f.length + chunk.length
  · have hsize := length_unwritten junk h.fresh
      (max (max (f.length + chunk.length) ((h.block f.buffer).length * 2)) 64)
    have hlarge : f.length + chunk.length ≤
        max (max (f.length + chunk.length) ((h.block f.buffer).length * 2)) 64 :=
      le_trans (le_max_left _ _) (le_max_left _ _)
    rw [append, if_pos hgrow]
    simp only []
    generalize max (max (f.length + chunk.length) ((h.block f.buffer).length * 2)) 64 = size
      at hsize hlarge
    -- what was kept is moved to the new block, then the chunk is written behind it
    have hnew : h.fresh < (h.alloc (unwritten junk h.fresh size)).fresh := by
      rw [Heap.fresh_alloc]
      omega
    have hstart : WellFormed (h.alloc (unwritten junk h.fresh size)) ⟨h.fresh, 0⟩ :=
      ⟨hnew, (lt_of_le_of_lt (Nat.zero_le _) hf.buffer).ne', Nat.zero_le _, by
        rw [Heap.block_alloc hf.failure_lt, hf.failure]⟩
    have hlength := hf.length_kept
    obtain ⟨hmoved, hmovedKept⟩ := hstart.write (kept h f) (by
      rw [Heap.block_alloc_fresh, hsize, hlength]
      exact (Nat.zero_add _).trans_le (le_trans (Nat.le_add_right _ _) hlarge))
    rw [hlength, Nat.zero_add] at hmoved hmovedKept
    obtain ⟨hall, hallKept⟩ := hmoved.write chunk (by
      change _ ≤ (Heap.block (Heap.copy _ h.fresh 0 (kept h f)) h.fresh).length
      rw [Heap.block_copy hnew, length_overwrite (Nat.zero_le _), Heap.block_alloc_fresh, hsize]
      exact hlarge)
    refine ⟨hall, hallKept.trans ?_, ?_, Or.inr le_rfl⟩
    · rw [hmovedKept]
      rfl
    · exact (((Heap.Keeps.refl _ h).alloc _).copy (Or.inl le_rfl) _ _).copy (Or.inl le_rfl) _ _
  · rw [append, if_neg hgrow]
    obtain ⟨hall, hkept⟩ := hf.write chunk (by omega)
    exact ⟨hall, hkept, (Heap.Keeps.refl _ h).copy (Or.inr (Set.mem_singleton _)) _ _, Or.inl rfl⟩

end Methods

/-- `consume` drops the frame at the front. -/
theorem consume_spec (hf : WellFormed h f) {n : Nat} (hn : n ≤ f.length) :
    WellFormed (consume h f n).1 (consume h f n).2 ∧
      kept (consume h f n).1 (consume h f n).2 = (kept h f).drop n ∧
      h.Keeps {f.buffer} (consume h f n).1 := by
  have hrest : View.read h ⟨f.buffer, n, f.length - n⟩ = (kept h f).drop n := by
    rw [kept_eq, List.drop_take]
    rfl
  have hlength : ((kept h f).drop n).length = f.length - n := by
    rw [List.length_drop, hf.length_kept]
  have hfits := hf.fits
  have hblock : (h.copy f.buffer 0 ((kept h f).drop n)).block f.buffer =
      overwrite (h.block f.buffer) 0 ((kept h f).drop n) := Heap.block_copy hf.buffer _ _
  rw [consume, hrest]
  refine ⟨⟨?_, hf.own, ?_, ?_⟩, ?_, (Heap.Keeps.refl _ h).copy (Or.inr (Set.mem_singleton _)) _ _⟩
  · rw [Heap.fresh_copy]
    exact hf.buffer
  · change f.length - n ≤ ((h.copy f.buffer 0 ((kept h f).drop n)).block f.buffer).length
    rw [hblock, length_overwrite (Nat.zero_le _)]
    omega
  · rw [Heap.block_copy_of_ne hf.own.symm, hf.failure]
  · rw [kept_eq]
    change ((h.copy f.buffer 0 ((kept h f).drop n)).block f.buffer).take (f.length - n) = _
    have htake : (overwrite (h.block f.buffer) 0 ((kept h f).drop n)).take
        (0 + ((kept h f).drop n).length) = (h.block f.buffer).take 0 ++ (kept h f).drop n :=
      take_overwrite _ _ (by omega)
    rw [hblock, ← hlength, ← Nat.zero_add ((kept h f).drop n).length, htake, List.take_zero,
      List.nil_append]

/-! ## What a call cuts -/

/-- Where a stream cannot be cut: at a frame that is not whole, or at one that is too long. -/
def Stops (rest : List UInt8) : Option Nat → Prop
  | none => rest.length < lengthPrefixBytes ∨ ofBytes (rest.take 4) ≤ maxFrameBytes ∧
      rest.length < lengthPrefixBytes + ofBytes (rest.take 4)
  | some bodyLength => lengthPrefixBytes ≤ rest.length ∧ bodyLength = ofBytes (rest.take 4) ∧
      maxFrameBytes < bodyLength

/-- What some calls do to the bytes `stream`: they cut `fs` from it and leave `rest`. -/
structure Cut (h : Heap UInt8) (f : Filter) (stream : List UInt8) (h' : Heap UInt8) (f' : Filter)
    (rs : List Returned) (thrown : Option Nat) (fs : List Tagged) (rest : List UInt8) : Prop where
  wellFormed : WellFormed h' f'
  keeps : h.Keeps {f.buffer} h'
  buffer : f'.buffer = f.buffer ∨ h.fresh ≤ f'.buffer
  stream : stream = fs.flatMap Tagged.encode ++ rest
  shape : ∀ g ∈ fs, g.tag.length = 0 ∧ g.payload.length ≤ maxFrameBytes
  stops : Stops rest thrown
  /-- what is left of the stream is in the buffer -/
  left : thrown = none → kept h' f' = rest
  classifies : Classifies h' rs fs
  /-- the frames are blocks of their own -/
  own : ∀ id ∈ rs.flatMap Returned.forward, h.fresh ≤ id ∧ id < h'.fresh ∧ id ≠ f'.buffer
  failure : ∀ id ∈ rs.flatMap Returned.reject, id = failureBlock

theorem front_kept (s : List UInt8) : agentFrames.front s =
    if s.length < lengthPrefixBytes then .more
    else if maxFrameBytes < ofBytes (s.take 4) then .bad
    else if s.length < lengthPrefixBytes + ofBytes (s.take 4) then .more
    else .frame ⟨[], (s.drop lengthPrefixBytes).take (ofBytes (s.take 4))⟩
      (s.drop (lengthPrefixBytes + ofBytes (s.take 4))) := by
  rw [agentFrames, prefixed_front, prefixedFront]
  simp only [List.drop_zero, List.take_zero, Nat.zero_add, lengthPrefixBytes]
  rfl

/-- The byte that `feed` looks at is the type of the frame. -/
theorem asks_iff {g : Tagged} (htag : g.tag.length = 0) :
    (1 ≤ g.payload.length ∧ classify (g.encode[lengthPrefixBytes]?.getD 0).toNat = true) ↔
      asksToSign g = true := by
  obtain ⟨tag, payload⟩ := g
  obtain rfl := List.length_eq_zero_iff.1 htag
  rw [← allowed_eq]
  cases payload with
  | nil => exact iff_of_false (fun h => absurd h.1 (by simp)) (by decide)
  | cons type body =>
    have hget : (Tagged.encode ⟨[], type :: body⟩)[lengthPrefixBytes]? = some type := rfl
    rw [hget]
    exact and_iff_right (Nat.succ_pos _)

/-- Nothing can be cut. -/
theorem WellFormed.cut_nil (hf : WellFormed h f) {thrown : Option Nat}
    (hstops : Stops (kept h f) thrown) :
    Cut h f (kept h f) h f [{}] thrown [] (kept h f) where
  wellFormed := hf
  keeps := .refl _ h
  buffer := Or.inl rfl
  stream := rfl
  shape := nofun
  stops := hstops
  left _ := rfl
  classifies := ⟨rfl, rfl, rfl⟩
  own := nofun
  failure := nofun

/-- A block more changes nothing of a filter. -/
theorem WellFormed.alloc (hf : WellFormed h f) (content : List UInt8) :
    WellFormed (h.alloc content) f ∧ kept (h.alloc content) f = kept h f := by
  have hblock := Heap.block_alloc hf.buffer content
  refine ⟨⟨?_, hf.own, ?_, ?_⟩, ?_⟩
  · rw [Heap.fresh_alloc]
    exact hf.buffer.trans (Nat.lt_succ_self _)
  · rw [hblock]
    exact hf.fits
  · rw [Heap.block_alloc hf.failure_lt, hf.failure]
  · rw [kept_eq, hblock, kept_eq]

/-- A frame at the front, before what is cut of the rest. -/
theorem Cut.cons {g : Tagged} {h₁ h' : Heap UInt8} {f₁ f' : Filter} {stream rest : List UInt8}
    {r r' : Returned} {thrown : Option Nat} {fs : List Tagged}
    (hcut : Cut h₁ f₁ stream h' f' [r] thrown fs rest) (hf : WellFormed h f)
    (hg : g.tag.length = 0 ∧ g.payload.length ≤ maxFrameBytes) (hkeeps : h.Keeps {f.buffer} h₁)
    (hbuffer : f₁.buffer = f.buffer) (hfresh : h.fresh < h₁.fresh)
    (hclassifies : Classifies h' [r'] (g :: fs))
    (hforward : ∀ id ∈ r'.forward, id = h.fresh ∨ id ∈ r.forward)
    (hreject : ∀ id ∈ r'.reject, id = failureBlock ∨ id ∈ r.reject) :
    Cut h f (g.encode ++ stream) h' f' [r'] thrown (g :: fs) rest where
  wellFormed := hcut.wellFormed
  keeps := hkeeps.trans (hbuffer ▸ hcut.keeps)
  buffer := hcut.buffer.imp (·.trans hbuffer) hkeeps.grows.trans
  stream := by rw [List.flatMap_cons, List.append_assoc, ← hcut.stream]
  shape := List.forall_mem_cons.2 ⟨hg, hcut.shape⟩
  stops := hcut.stops
  left := hcut.left
  classifies := hclassifies
  own id hid := by
    rw [List.flatMap_singleton] at hid
    rcases hforward id hid with rfl | hid
    · refine ⟨le_rfl, hfresh.trans_le hcut.keeps.grows, ?_⟩
      -- the buffer is that of before, or newer than the frame
      rcases hcut.buffer with hold | hnew
      · rw [hold, hbuffer]
        exact hf.buffer.ne'
      · exact (hfresh.trans_le hnew).ne
    · obtain ⟨hlow, hhigh, hne⟩ := hcut.own id (by rwa [List.flatMap_singleton])
      exact ⟨hkeeps.grows.trans hlow, hhigh, hne⟩
  failure id hid := by
    rw [List.flatMap_singleton] at hid
    rcases hreject id hid with hid | hid
    · exact hid
    · exact hcut.failure id (by rwa [List.flatMap_singleton])

/-- The loop of `feed` cuts what is kept. -/
theorem loop_spec {n : Nat} (hf : WellFormed h f) (hn : f.length < n) :
    ∃ fs rest, Cut h f (kept h f) (loop n h f).1 (loop n h f).2.1 [(loop n h f).2.2.1]
      (loop n h f).2.2.2 fs rest := by
  induction n generalizing h f with
  | zero => exact absurd hn (Nat.not_lt_zero _)
  | succ n ih =>
    have hfront := front_kept (kept h f)
    rw [hf.length_kept] at hfront
    by_cases hshort : f.length < lengthPrefixBytes
    · rw [loop, if_pos hshort]
      exact ⟨[], _, hf.cut_nil (Or.inl (hf.length_kept.trans_lt hshort))⟩
    have hprefix : View.read h ⟨f.buffer, 0, 4⟩ = (kept h f).take 4 :=
      read_take (not_lt.1 hshort)
    rw [if_neg hshort] at hfront
    rw [loop, if_neg hshort, hprefix]
    simp only []
    generalize hbody : ofBytes ((kept h f).take 4) = bodyLength at hfront ⊢
    by_cases hcap : maxFrameBytes < bodyLength
    · rw [if_pos hcap]
      exact ⟨[], _, hf.cut_nil ⟨(not_lt.1 hshort).trans_eq hf.length_kept.symm, hbody.symm, hcap⟩⟩
    rw [if_neg hcap] at hfront ⊢
    by_cases hpart : f.length < lengthPrefixBytes + bodyLength
    · rw [if_pos hpart]
      refine ⟨[], _, hf.cut_nil (Or.inr ⟨?_, ?_⟩)⟩
      · rw [hbody]
        exact not_lt.1 hcap
      · rwa [hbody, hf.length_kept]
    rw [if_neg hpart] at hfront ⊢
    -- a whole frame `g`: it is copied, and what follows it is shifted to the front
    generalize hg : (⟨[], ((kept h f).drop lengthPrefixBytes).take bodyLength⟩ : Tagged) = g
      at hfront
    obtain ⟨htag, hlong⟩ := shape_of_front hfront
    have hsplit := encode_of_front hfront
    have hpayload : g.payload.length = bodyLength := by
      rw [← hg, List.length_take, List.length_drop, hf.length_kept]
      omega
    have hlength : g.encode.length = lengthPrefixBytes + bodyLength := by
      rw [Tagged.encode, List.length_append, List.length_append, htag, length_be32, hpayload]
      rfl
    have hframe : View.read h ⟨f.buffer, 0, lengthPrefixBytes + bodyLength⟩ = g.encode := by
      rw [read_take (not_lt.1 hpart), ← hsplit, List.take_left' hlength]
    rw [hframe]
    obtain ⟨hcopied, hcopiedKept⟩ := hf.alloc g.encode
    obtain ⟨hshifted, hshiftedKept, hshiftedKeeps⟩ := consume_spec hcopied (not_lt.1 hpart)
    rw [hcopiedKept] at hshiftedKept
    obtain ⟨fs, rest, hcut⟩ := ih hshifted (by
      change f.length - _ < n
      have : 0 < lengthPrefixBytes := by decide
      omega)
    have hfresh : h.fresh < (h.alloc g.encode).fresh := by
      rw [Heap.fresh_alloc]
      exact Nat.lt_succ_self _
    have hown : h.fresh ≠ f.buffer := hf.buffer.ne'
    have hblock : (consume (h.alloc g.encode) f (lengthPrefixBytes + bodyLength)).1.block h.fresh =
        g.encode := (hshiftedKeeps.same _ hfresh hown).trans (Heap.block_alloc_fresh _)
    have hkeeps : h.Keeps {f.buffer} (consume (h.alloc g.encode) f
        (lengthPrefixBytes + bodyLength)).1 := ((Heap.Keeps.refl _ h).alloc _).trans hshiftedKeeps
    have hasks := asks_iff htag
    rw [hpayload] at hasks
    rw [hshiftedKept] at hcut
    rw [hblock, ← hsplit, ← hlength]
    refine ⟨g :: fs, rest, ?_⟩
    rw [← hlength] at hcut hkeeps hshiftedKeeps hblock hshifted
    have hnew := hfresh.trans_le hshiftedKeeps.grows
    by_cases hyes : asksToSign g = true
    · rw [if_pos (hasks.2 hyes)]
      refine hcut.cons hf ⟨htag, hlong⟩ hkeeps rfl hnew ?_ ?_ fun id => Or.inr
      · refine hcut.classifies.forward_cons hyes ?_
        rw [hcut.keeps.same _ hnew hown, hblock]
      · exact fun id hid => List.mem_cons.1 hid
    · rw [if_neg fun h => hyes (hasks.1 h)]
      refine hcut.cons hf ⟨htag, hlong⟩ hkeeps rfl hnew ?_ (fun id => Or.inr) ?_
      · exact hcut.classifies.reject_cons hyes hcut.wellFormed.failure
      · exact fun id hid => List.mem_cons.1 hid

/-! ## Calls in a row -/

variable {h' h'' : Heap UInt8} {f' f'' : Filter} {stream rest rest' : List UInt8}
  {rs rs' : List Returned} {thrown : Option Nat} {fs fs' : List Tagged}

/-- A cut after the buffer was written. -/
theorem Cut.of_keeps (hcut : Cut h' f' stream h'' f'' rs thrown fs rest)
    (hkeeps : h.Keeps {f.buffer} h') (hbuffer : f'.buffer = f.buffer ∨ h.fresh ≤ f'.buffer) :
    Cut h f stream h'' f'' rs thrown fs rest where
  wellFormed := hcut.wellFormed
  keeps := hkeeps.trans_fresh hcut.keeps hbuffer
  buffer := by
    rcases hcut.buffer with hold | hnew
    · rwa [hold]
    · exact Or.inr (hkeeps.grows.trans hnew)
  stream := hcut.stream
  shape := hcut.shape
  stops := hcut.stops
  left := hcut.left
  classifies := hcut.classifies
  own id hid := by
    obtain ⟨hlow, hhigh, hne⟩ := hcut.own id hid
    exact ⟨hkeeps.grows.trans hlow, hhigh, hne⟩
  failure := hcut.failure

/-- What was returned before is not changed. -/
theorem Cut.same_later (hcut : Cut h f stream h' f' rs none fs rest)
    (hlater : h'.Keeps {f'.buffer} h'') :
    ∀ id ∈ rs.flatMap Returned.forward ++ rs.flatMap Returned.reject,
      h''.block id = h'.block id := by
  intro id hid
  rcases List.mem_append.1 hid with hid | hid
  · obtain ⟨-, hlt, hne⟩ := hcut.own id hid
    exact hlater.same id hlt hne
  · rw [hcut.failure id hid]
    exact hlater.same _ hcut.wellFormed.failure_lt hcut.wellFormed.own.symm

/-- Calls, and calls after them. -/
theorem Cut.trans {t : List UInt8} (hcut : Cut h f stream h' f' rs none fs rest)
    (hcut' : Cut h' f' (kept h' f' ++ t) h'' f'' rs' thrown fs' rest') :
    Cut h f (stream ++ t) h'' f'' (rs ++ rs') thrown (fs ++ fs') rest' where
  wellFormed := hcut'.wellFormed
  keeps := hcut.keeps.trans_fresh hcut'.keeps hcut.buffer
  buffer := (hcut'.of_keeps hcut.keeps hcut.buffer).buffer
  stream := by
    rw [hcut.stream, List.append_assoc, ← hcut.left rfl, hcut'.stream, List.flatMap_append,
      List.append_assoc]
  shape g hg := (List.mem_append.1 hg).elim (hcut.shape g) (hcut'.shape g)
  stops := hcut'.stops
  left := hcut'.left
  classifies := by
    have hsame := hcut.same_later hcut'.keeps
    refine Classifies.append ⟨?_, ?_, hcut.classifies.lengths⟩ hcut'.classifies
    · rw [← hcut.classifies.forward]
      exact List.map_congr_left fun id hid => hsame id (List.mem_append_left _ hid)
    · rw [← hcut.classifies.reject]
      exact List.map_congr_left fun id hid => hsame id (List.mem_append_right _ hid)
  own id hid := by
    rw [List.flatMap_append] at hid
    rcases List.mem_append.1 hid with hid | hid
    · obtain ⟨hlow, hhigh, hne⟩ := hcut.own id hid
      refine ⟨hlow, hhigh.trans_le hcut'.keeps.grows, ?_⟩
      rcases hcut'.buffer with hold | hnew
      · rwa [hold]
      · exact (hhigh.trans_le hnew).ne
    · obtain ⟨hlow, hhigh, hne⟩ := hcut'.own id hid
      exact ⟨hcut.keeps.grows.trans hlow, hhigh, hne⟩
  failure id hid := by
    rw [List.flatMap_append] at hid
    exact (List.mem_append.1 hid).elim (hcut.failure id) (hcut'.failure id)

/-- A frame that is too long stays so, whatever follows. -/
theorem Stops.append {n : Nat} (hstops : Stops rest (some n)) (t : List UInt8) :
    Stops (rest ++ t) (some n) := by
  obtain ⟨hlength, hn, hcap⟩ := hstops
  have htake : (rest ++ t).take 4 = rest.take 4 := List.take_append_of_le_length hlength
  refine ⟨hlength.trans ?_, by rw [htake, hn], hcap⟩
  rw [List.length_append]
  exact Nat.le_add_right _ _

/-- A call that throws, when more of the stream follows. -/
theorem Cut.unread {n : Nat} (hcut : Cut h f stream h' f' rs (some n) fs rest) (t : List UInt8) :
    Cut h f (stream ++ t) h' f' rs (some n) fs (rest ++ t) :=
  { hcut with
    stream := by rw [hcut.stream, List.append_assoc]
    stops := hcut.stops.append t
    left := nofun }

section Calls

variable (junk : Nat → Nat → UInt8)

/-- A call of `feed`. -/
theorem feed_spec (hf : WellFormed h f) (chunk : List UInt8) :
    ∃ fs rest, Cut h f (kept h f ++ chunk) (feed junk h f chunk).1 (feed junk h f chunk).2.1
      [(feed junk h f chunk).2.2.1] (feed junk h f chunk).2.2.2 fs rest := by
  obtain ⟨happended, hkept, hkeeps, hbuffer⟩ := append_spec junk hf chunk
  obtain ⟨fs, rest, hcut⟩ := loop_spec happended (Nat.lt_succ_self _)
  rw [hkept] at hcut
  exact ⟨fs, rest, hcut.of_keeps hkeeps hbuffer⟩

/-- What is returned, as bytes. -/
def Returned.read (h : Heap UInt8) (r : Returned) : FilterResult :=
  ⟨r.forward.map h.block, r.reject.map h.block, r.rejectedLengths⟩

theorem Classifies.read {r : Returned} (hr : Classifies h [r] fs) : r.read h = classified fs := by
  have hallowed : allowed = asksToSign := funext allowed_eq
  have hforward := hr.forward
  have hreject := hr.reject
  have hlengths := hr.lengths
  rw [List.flatMap_singleton] at hforward hreject hlengths
  rw [Returned.read, hforward, hreject, hlengths, ← hallowed, ← classified_forward,
    ← classified_reject, ← classified_rejectedLengths]

theorem front_of_stops {thrown : Option Nat} (hstops : Stops rest thrown) :
    agentFrames.front rest = if thrown.isSome then .bad else .more := by
  rw [front_kept]
  cases thrown with
  | none =>
    rcases hstops with hshort | ⟨hcap, hpart⟩
    · exact if_pos hshort
    · rw [if_neg (not_lt.2 hcap), if_pos hpart, ite_self]
      rfl
  | some n =>
    obtain ⟨hlength, rfl, hcap⟩ := hstops
    rw [if_neg (not_lt.2 hlength), if_pos hcap]
    rfl

/-- The method in memory does what `Relay.feed` says. -/
theorem feed_refines (hf : WellFormed h f) (chunk : List UInt8) :
    Relay.feed (kept h f) chunk =
      match feed junk h f chunk with
      | (h', f', r, none) => some (kept h' f', r.read h')
      | (_, _, _, some _) => none := by
  obtain ⟨fs, rest, hcut⟩ := feed_spec junk hf chunk
  generalize feed junk h f chunk = out at hcut ⊢
  obtain ⟨h', f', r, thrown⟩ := out
  have hfront := front_of_stops hcut.stops
  have hcap : maxFrameBytes < 4294967296 := by decide
  rw [Relay.feed]
  cases thrown with
  | none =>
    have hleft : kept h' f' = rest := hcut.left rfl
    have hread : r.read h' = classified fs := hcut.classifies.read
    have hdrain : agentFrames.drain (kept h f ++ chunk) = (fs, some rest) :=
      (drain_some_iff hcap).2 ⟨hcut.stream, hcut.shape, hfront⟩
    rw [hdrain]
    simp only [hleft, hread]
  | some n =>
    have hdrain : agentFrames.drain (kept h f ++ chunk) = (fs, none) :=
      (drain_none_iff hcap).2 ⟨rest, hcut.stream, hcut.shape, hfront⟩
    rw [hdrain]

/-- Calls of `feed`, as long as none throws. -/
theorem feedAll_spec (hf : WellFormed h f) (hstops : Stops (kept h f) none)
    (chunks : List (List UInt8)) :
    ∃ fs rest, Cut h f (kept h f ++ chunks.flatten) (feedAll junk h f chunks).1
      (feedAll junk h f chunks).2.1 (feedAll junk h f chunks).2.2.1
      (feedAll junk h f chunks).2.2.2 fs rest := by
  induction chunks generalizing h f with
  | nil =>
    rw [List.flatten_nil, List.append_nil]
    exact ⟨[], _, { hf.cut_nil hstops with
      classifies := .nil h
      own := nofun
      failure := nofun }⟩
  | cons chunk chunks ih =>
    obtain ⟨fs, rest, hcut⟩ := feed_spec junk hf chunk
    rw [feedAll, List.flatten_cons, ← List.append_assoc]
    generalize feed junk h f chunk = out at hcut ⊢
    obtain ⟨h', f', r, thrown⟩ := out
    cases thrown with
    | some n => exact ⟨fs, _, hcut.unread _⟩
    | none =>
      have hleft := hcut.left rfl
      obtain ⟨fs', rest', hcut'⟩ := ih hcut.wellFormed (hleft ▸ hcut.stops)
      exact ⟨fs ++ fs', rest', hcut.trans hcut'⟩

/-- The first calls, and those after them. -/
theorem feedAll_append (h : Heap UInt8) (f : Filter) (before after : List (List UInt8)) :
    feedAll junk h f (before ++ after) =
      match feedAll junk h f before with
      | (h, f, rs, some bodyLength) => (h, f, rs, some bodyLength)
      | (h, f, rs, none) =>
        ((feedAll junk h f after).1, (feedAll junk h f after).2.1,
          rs ++ (feedAll junk h f after).2.2.1, (feedAll junk h f after).2.2.2) := by
  induction before generalizing h f with
  | nil => rfl
  | cons chunk before ih =>
    rw [List.cons_append, feedAll, feedAll]
    obtain ⟨h', f', r, thrown⟩ := feed junk h f chunk
    cases thrown with
    | some n => rfl
    | none =>
      simp only [ih]
      obtain ⟨h'', f'', rs, thrown⟩ := feedAll junk h' f' before
      cases thrown with
      | some n => rfl
      | none => rfl

theorem feedAll_ne_nil {chunks : List (List UInt8)} {n : Nat} {h' : Heap UInt8} {f' : Filter}
    {rs : List Returned} (hthrown : feedAll junk h f chunks = (h', f', rs, some n)) : rs ≠ [] := by
  cases chunks with
  | nil => cases hthrown
  | cons chunk chunks =>
    rw [feedAll] at hthrown
    split at hthrown
    · cases hthrown
      exact List.cons_ne_nil _ _
    · simp only [Prod.mk.injEq] at hthrown
      rw [← hthrown.2.2.1]
      exact List.cons_ne_nil _ _

/-- What a call returned is read as the same after later calls. -/
theorem Cut.read_later {r : Returned} (hcut : Cut h f stream h' f' [r] none fs rest)
    (hlater : h'.Keeps {f'.buffer} h'') : r.read h'' = r.read h' := by
  have hsame := hcut.same_later hlater
  rw [List.flatMap_singleton, List.flatMap_singleton] at hsame
  rw [Returned.read, Returned.read,
    List.map_congr_left fun id hid => hsame id (List.mem_append_left _ hid),
    List.map_congr_left fun id hid => hsame id (List.mem_append_right _ hid)]

/-- Calls in memory do what `Relay.feeds` says. -/
theorem feedAll_refines (hf : WellFormed h f) (hstops : Stops (kept h f) none)
    (chunks : List (List UInt8)) :
    Relay.feeds (kept h f) chunks =
      match feedAll junk h f chunks with
      | (h', f', rs, none) => (rs.map (Returned.read h'), some (kept h' f'))
      | (h', _, rs, some _) => (rs.dropLast.map (Returned.read h'), none) := by
  induction chunks generalizing h f with
  | nil => rfl
  | cons chunk chunks ih =>
    obtain ⟨fs, rest, hcut⟩ := feed_spec junk hf chunk
    rw [Relay.feeds, feed_refines junk hf chunk, feedAll]
    generalize feed junk h f chunk = out at hcut ⊢
    obtain ⟨h', f', r, thrown⟩ := out
    cases thrown with
    | some n => rfl
    | none =>
      have hleft := hcut.left rfl
      have hstops' := hleft ▸ hcut.stops
      obtain ⟨fs', rest', hcut'⟩ := feedAll_spec junk hcut.wellFormed hstops' chunks
      simp only [ih hcut.wellFormed hstops']
      generalize hlast : feedAll junk h' f' chunks = out at hcut' ⊢
      obtain ⟨h'', f'', rs, thrown⟩ := out
      have hread : r.read h'' = r.read h' := hcut.read_later hcut'.keeps
      cases thrown with
      | none => simp only [List.map_cons, hread]
      | some n =>
        simp only [List.dropLast_cons_of_ne_nil (feedAll_ne_nil junk hlast), List.map_cons, hread]

/-- Later calls add to what is returned and change none of it. -/
theorem feedAll_stable (hf : WellFormed h f) (hstops : Stops (kept h f) none)
    (before after : List (List UInt8)) :
    (feedAll junk h f before).2.2.1 <+: (feedAll junk h f (before ++ after)).2.2.1 ∧
      ∀ id ∈ (feedAll junk h f before).2.2.1.flatMap Returned.forward ++
          (feedAll junk h f before).2.2.1.flatMap Returned.reject,
        (feedAll junk h f (before ++ after)).1.block id =
          (feedAll junk h f before).1.block id := by
  obtain ⟨fs, rest, hcut⟩ := feedAll_spec junk hf hstops before
  rw [feedAll_append]
  generalize feedAll junk h f before = out at hcut ⊢
  obtain ⟨h', f', rs, thrown⟩ := out
  cases thrown with
  | some n => exact ⟨List.prefix_refl _, fun _ _ => rfl⟩
  | none =>
    have hleft := hcut.left rfl
    obtain ⟨fs', rest', hcut'⟩ := feedAll_spec junk hcut.wellFormed (hleft ▸ hcut.stops) after
    exact ⟨List.prefix_append _ _, hcut.same_later hcut'.keeps⟩

/-- **The filter is exact.** Whatever the chunks of a stream are, the calls forward the frames that
ask for the identities or for a signature, refuse each other frame, and throw at one that is too
long; and what was returned is the same after all later calls. -/
theorem filter_exact (chunks : List (List UInt8)) :
    (∃ fs rest, chunks.flatten = fs.flatMap Tagged.encode ++ rest ∧
      (∀ g ∈ fs, g.tag.length = 0 ∧ g.payload.length ≤ maxFrameBytes) ∧
      Stops rest (feedAll junk newHeap newFilter chunks).2.2.2 ∧
      Classifies (feedAll junk newHeap newFilter chunks).1
        (feedAll junk newHeap newFilter chunks).2.2.1 fs) ∧
    ∀ before after, chunks = before ++ after →
      (feedAll junk newHeap newFilter before).2.2.1 <+:
          (feedAll junk newHeap newFilter chunks).2.2.1 ∧
        ∀ id ∈ (feedAll junk newHeap newFilter before).2.2.1.flatMap Returned.forward ++
            (feedAll junk newHeap newFilter before).2.2.1.flatMap Returned.reject,
          (feedAll junk newHeap newFilter chunks).1.block id =
            (feedAll junk newHeap newFilter before).1.block id := by
  have hstops : Stops (kept newHeap newFilter) none := Or.inl (by decide)
  refine ⟨?_, ?_⟩
  · obtain ⟨fs, rest, hcut⟩ := feedAll_spec junk newFilter_wellFormed hstops chunks
    exact ⟨fs, rest, hcut.stream, hcut.shape, hcut.stops, hcut.classifies⟩
  · rintro before after rfl
    exact feedAll_stable junk newFilter_wellFormed hstops before after

/-- **The filter of the relay.** For every sequence of chunks, the calls that the relay makes of
`feed` return what the methods in memory return, read at the end, keep what is in the buffer, and
throw where those throw. -/
theorem filter_refines (chunks : List (List UInt8)) :
    Relay.feeds [] chunks =
      match feedAll junk newHeap newFilter chunks with
      | (h, f, rs, none) => (rs.map (Returned.read h), some (kept h f))
      | (h, _, rs, some _) => (rs.dropLast.map (Returned.read h), none) :=
  feedAll_refines junk newFilter_wellFormed (Or.inl (by decide)) chunks

end Calls

/-- An empty frame, and one that asks for the identities and is cut in its length. -/
theorem filter_exact_at_cut :
    (feedAll (fun _ _ => 0) newHeap newFilter [[0, 0, 0, 0, 0]]).2.2.1 <+:
        (feedAll (fun _ _ => 0) newHeap newFilter [[0, 0, 0, 0, 0], [0, 0, 1, 11]]).2.2.1 ∧
      ∀ id ∈ (feedAll (fun _ _ => 0) newHeap newFilter
            [[0, 0, 0, 0, 0]]).2.2.1.flatMap Returned.forward ++
          (feedAll (fun _ _ => 0) newHeap newFilter
            [[0, 0, 0, 0, 0]]).2.2.1.flatMap Returned.reject,
        (feedAll (fun _ _ => 0) newHeap newFilter [[0, 0, 0, 0, 0], [0, 0, 1, 11]]).1.block id =
          (feedAll (fun _ _ => 0) newHeap newFilter [[0, 0, 0, 0, 0]]).1.block id :=
  (filter_exact (fun _ _ => 0) [[0, 0, 0, 0, 0], [0, 0, 1, 11]]).2 [[0, 0, 0, 0, 0]]
    [[0, 0, 1, 11]] rfl

example : (feedAll (fun _ _ => 0) newHeap newFilter [[0, 0, 0, 0, 0], [0, 0, 1, 11]]).2.2 =
    ([⟨[], [failureBlock], [4]⟩, ⟨[4], [], []⟩], none) := by decide

end SignOnly
end Relay
end Mullion
