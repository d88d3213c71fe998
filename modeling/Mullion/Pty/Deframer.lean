import Mullion.Pty.Master

/-!
# The frames of the pty host

`encodeFrame` and `createDeframer` of `pty-host/protocol.mjs`: bytes come in chunks, and each frame
is to be handed to `onFrame` exactly once, with the chunk that completes it, whatever the chunks
are; the deframer throws only where a frame is too long. `deframe` is the loop as it is written,
with its buffer, `onChunk` one call of the function, and `deframeAll` chunk after chunk, up to one
that throws.

The loop cuts frames off a stream in the sense of `Framing`: a frame is a length, a tag and a
payload (`encode_tagged`), and `deframe_eq` has it as the drain of that format. What a format that
cannot be misread does to chunks is known from there, so the calls are the drain of all bytes
together (`deframeAll_eq`), and the frames of a chunk are those that are whole with it and were not
before (`deframeAll_before`). Only a length over the limit stops it (`front_oversized`).
-/

namespace Mullion
namespace PtyHost

open Framing

/-! ## The two ends -/

/-- `HEADER_BYTES`. -/
def headerBytes : Nat := 5

/-- The arguments of `onFrame`. -/
structure Frame where
  type : UInt8
  payload : List UInt8
  deriving DecidableEq, Repr

/-- `encodeFrame`. -/
def encodeFrame (f : Frame) : List UInt8 := f.type :: be32 f.payload.length ++ f.payload

/-- The loop of the deframer, for at most `n` frames: the calls of `onFrame` and what stays in
`buffered`, which is `none` where it throws. -/
def deframe : Nat → List UInt8 → List Frame × Option (List UInt8)
  | 0, buffered => ([], some buffered)
  | n + 1, buffered =>
    if buffered.length < headerBytes then ([], some buffered)
    else
      let length := ofBytes ((buffered.drop 1).take 4)
      if maxFrameBytes < length then ([], none)
      else if buffered.length < headerBytes + length then ([], some buffered)
      else
        let type := buffered.headD 0
        let payload := (buffered.drop headerBytes).take length
        let after := deframe n (buffered.drop (headerBytes + length))
        (⟨type, payload⟩ :: after.1, after.2)

/-- The function that `createDeframer` returns. -/
def onChunk (buffered chunk : List UInt8) : List Frame × Option (List UInt8) :=
  let buffered := if buffered.length = 0 then chunk else buffered ++ chunk
  deframe (buffered.length + 1) buffered

/-- Chunk after chunk, up to one that throws. -/
def deframeAll : List UInt8 → List (List UInt8) → List Frame × Option (List UInt8)
  | buffered, [] => ([], some buffered)
  | buffered, chunk :: chunks =>
    match onChunk buffered chunk with
    | (calls, none) => (calls, none)
    | (calls, some left) =>
      (calls ++ (deframeAll left chunks).1, (deframeAll left chunks).2)

/-- A header that declares more than `MAX_FRAME_BYTES`. -/
def Oversized (rest : List UInt8) : Prop :=
  headerBytes ≤ rest.length ∧ maxFrameBytes < ofBytes ((rest.drop 1).take 4)

/-! ## The loop cuts frames -/

def Frame.tagged (f : Frame) : Tagged := ⟨[f.type], f.payload⟩

theorem Frame.tagged_injective : Function.Injective Frame.tagged := by
  rintro ⟨type, payload⟩ ⟨type', payload'⟩ h
  obtain ⟨htag, hpayload⟩ := Tagged.mk.inj h
  exact congrArg₂ Frame.mk (List.cons.inj htag).1 hpayload

theorem encode_tagged (fs : List Frame) :
    (fs.map Frame.tagged).flatMap Tagged.encode = fs.flatMap encodeFrame := by
  rw [List.flatMap_map]
  rfl

theorem deframe_eq (n : Nat) (s : List UInt8) :
    ((deframe n s).1.map Frame.tagged, (deframe n s).2) = frames.drainWith n s := by
  induction n generalizing s with
  | zero => rfl
  | succ n ih =>
    have hfront : frames.front s = prefixedFront 1 maxFrameBytes s := rfl
    rw [deframe, Format.drainWith, hfront, prefixedFront]
    by_cases hshort : s.length < headerBytes
    · have hshort' : s.length < 1 + 4 := hshort
      simp only [if_pos hshort, if_pos hshort']
      rfl
    have hlong : ¬ s.length < 1 + 4 := hshort
    by_cases hcap : maxFrameBytes < ofBytes ((s.drop 1).take 4)
    · simp only [if_neg hshort, if_neg hlong, if_pos hcap]
      rfl
    by_cases hpart : s.length < headerBytes + ofBytes ((s.drop 1).take 4)
    · have hpart' : s.length < 1 + 4 + ofBytes ((s.drop 1).take 4) := hpart
      simp only [if_neg hshort, if_neg hlong, if_neg hcap, if_pos hpart, if_pos hpart']
      rfl
    · have hwhole : ¬ s.length < 1 + 4 + ofBytes ((s.drop 1).take 4) := hpart
      have htag : s.take 1 = [s.headD 0] := by
        cases s with
        | nil => exact absurd (show [].length < headerBytes by decide) hshort
        | cons type s => rfl
      simp only [if_neg hshort, if_neg hlong, if_neg hcap, if_neg hpart, if_neg hwhole, htag,
        List.map_cons]
      have hafter := ih (s.drop (headerBytes + ofBytes ((s.drop 1).take 4)))
      rw [Prod.ext_iff] at hafter
      exact Prod.ext (congrArg (_ :: ·) hafter.1) hafter.2

theorem onChunk_eq (buffered chunk : List UInt8) :
    ((onChunk buffered chunk).1.map Frame.tagged, (onChunk buffered chunk).2) =
      frames.drain (buffered ++ chunk) := by
  have hconcat : (if buffered.length = 0 then chunk else buffered ++ chunk) =
      buffered ++ chunk := by
    split_ifs with h
    · rw [List.length_eq_zero_iff.1 h, List.nil_append]
    · rfl
  rw [onChunk, hconcat, deframe_eq]
  rfl

/-- The frames do not depend on the chunks. -/
theorem deframeAll_eq (chunks : List (List UInt8)) {buffered : List UInt8}
    (h : frames.front buffered = .more) :
    ((deframeAll buffered chunks).1.map Frame.tagged, (deframeAll buffered chunks).2) =
      frames.drain (buffered ++ chunks.flatten) := by
  induction chunks generalizing buffered with
  | nil =>
    rw [List.flatten_nil, List.append_nil, Format.drain_more _ h]
    rfl
  | cons chunk chunks ih =>
    have hchunk := onChunk_eq buffered chunk
    rw [deframeAll, List.flatten_cons, ← List.append_assoc]
    cases hcall : onChunk buffered chunk with
    | mk calls left =>
      rw [hcall] at hchunk
      cases left with
      | none => rw [Format.drain_append_none _ hchunk.symm]
      | some left =>
        have hleft := ih (frames.front_rest (by rw [← hchunk]))
        rw [Format.drain_append_some _ hchunk.symm, ← hleft, List.map_append]

/-! ## Each frame once, with the chunk that completes it -/

theorem maxFrameBytes_lt : maxFrameBytes < 4294967296 := by decide

theorem front_oversized {rest : List UInt8} : frames.front rest = .bad ↔ Oversized rest :=
  prefixed_front_bad

theorem deframeAll_nil_eq (chunks : List (List UInt8)) :
    ((deframeAll [] chunks).1.map Frame.tagged, (deframeAll [] chunks).2) =
      frames.drain chunks.flatten := deframeAll_eq chunks rfl

/-- What is left of encoded frames. -/
theorem deframeAll_before {fs : List Frame} (hfs : ∀ f ∈ fs, f.payload.length ≤ maxFrameBytes)
    {before : List (List UInt8)} {after : List UInt8}
    (h : before.flatten ++ after = fs.flatMap encodeFrame) :
    ∃ done left kept, fs = done ++ left ∧ deframeAll [] before = (done, some kept) ∧
      done.flatMap encodeFrame ++ kept = before.flatten ∧
      ∀ f rest, left = f :: rest → kept.length < (encodeFrame f).length := by
  have hshape : ∀ f ∈ fs.map Frame.tagged,
      f.tag.length = 1 ∧ f.payload.length ≤ maxFrameBytes := by
    intro f hf
    obtain ⟨g, hg, rfl⟩ := List.mem_map.1 hf
    exact ⟨rfl, hfs g hg⟩
  have hwhole : frames.drain (before.flatten ++ after) = (fs.map Frame.tagged, some []) := by
    refine (drain_some_iff maxFrameBytes_lt).2 ⟨?_, hshape, rfl⟩
    rw [h, List.append_nil, encode_tagged]
  obtain ⟨done, kept, left, hdone, hsplit, hleft⟩ := frames.drain_prefix hwhole
  obtain ⟨done, left, rfl, rfl, rfl⟩ := List.map_eq_append_iff.1 hsplit
  have hrun := deframeAll_nil_eq before
  rw [hdone, Prod.mk.injEq] at hrun
  have hcalls := Frame.tagged_injective.list_map hrun.1
  refine ⟨done, left, kept, rfl, Prod.ext hcalls hrun.2, ?_, ?_⟩
  · rw [← encode_tagged, encode_drain hdone]
  · rintro f rest rfl
    -- the next frame is not whole yet
    by_contra hle
    have hkept : kept ++ after = encodeFrame f ++ rest.flatMap encodeFrame := by
      have := encode_drain hleft
      rw [List.append_nil, encode_tagged, List.flatMap_cons] at this
      exact this.symm
    obtain ⟨more, hmore⟩ : encodeFrame f <+: kept := by
      refine List.prefix_of_prefix_length_le ⟨_, hkept.symm⟩ ⟨after, rfl⟩ (by omega)
    have hfront := front_encode (k := 1) (f := f.tagged) rfl
      (hfs f (List.mem_append_right _ List.mem_cons_self)) maxFrameBytes_lt more
    have hincomplete : frames.front kept = .more := frames.front_rest (by rw [hdone])
    rw [← hmore] at hincomplete
    exact absurd (hfront.symm.trans hincomplete) nofun

/-- A frame that is too long throws, behind the frames before it. -/
theorem deframeAll_none_iff {chunks : List (List UInt8)} {fs : List Frame} :
    deframeAll [] chunks = (fs, none) ↔
      ∃ rest, chunks.flatten = fs.flatMap encodeFrame ++ rest ∧
        (∀ f ∈ fs, f.payload.length ≤ maxFrameBytes) ∧ Oversized rest := by
  have hrun : deframeAll [] chunks = (fs, none) ↔
      frames.drain chunks.flatten = (fs.map Frame.tagged, none) := by
    rw [← deframeAll_nil_eq, Prod.ext_iff, Prod.ext_iff, Frame.tagged_injective.list_map.eq_iff]
  rw [hrun, frames, drain_none_iff maxFrameBytes_lt]
  simp only [List.forall_mem_map, encode_tagged, ← front_oversized]
  constructor
  · rintro ⟨rest, hrest, hshape, hbad⟩
    exact ⟨rest, hrest, fun f hf => (hshape f hf).2, hbad⟩
  · rintro ⟨rest, hrest, hshape, hbad⟩
    exact ⟨rest, hrest, fun f hf => ⟨rfl, hshape f hf⟩, hbad⟩

/-- **The deframer is exact.** Encoded frames are delivered once and in order, each with the chunk
that completes it; and for any stream, it throws at a header that declares too much, and at no
other. -/
theorem deframer_exact :
    (∀ (fs : List Frame) (before after : List (List UInt8)),
      (∀ f ∈ fs, f.payload.length ≤ maxFrameBytes) →
      (before ++ after).flatten = fs.flatMap encodeFrame →
      ∃ done left kept, fs = done ++ left ∧ deframeAll [] before = (done, some kept) ∧
        done.flatMap encodeFrame ++ kept = before.flatten ∧
        ∀ f rest, left = f :: rest → kept.length < (encodeFrame f).length) ∧
      ∀ (chunks : List (List UInt8)) (fs : List Frame),
        deframeAll [] chunks = (fs, none) ↔
          ∃ rest, chunks.flatten = fs.flatMap encodeFrame ++ rest ∧
            (∀ f ∈ fs, f.payload.length ≤ maxFrameBytes) ∧ Oversized rest :=
  ⟨fun _ _ _ hfs h => deframeAll_before hfs (List.flatten_append.symm.trans h),
    fun _ _ => deframeAll_none_iff⟩

/-- Two frames, the first of them cut in its header. -/
theorem deframer_exact_at_cut :
    ∃ done left kept, [⟨0, [7]⟩, ⟨1, []⟩] = done ++ left ∧
      deframeAll [] [[0, 0], [0, 0, 1, 7, 1]] = (done, some kept) ∧
      done.flatMap encodeFrame ++ kept = [[0, 0], [0, 0, 1, 7, 1]].flatten ∧
      ∀ f rest, left = f :: rest → kept.length < (encodeFrame f).length :=
  deframer_exact.1 [⟨0, [7]⟩, ⟨1, []⟩] [[0, 0], [0, 0, 1, 7, 1]] [[0, 0, 0, 0]] (by decide)
    (by decide)

example : deframeAll [] [[0, 0], [0, 0, 1, 7, 1]] = ([⟨0, [7]⟩], some [1]) := by decide

end PtyHost
end Mullion
