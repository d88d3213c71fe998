import Mathlib.Data.List.Basic

/-!
# Frames in a stream

A stream of symbols arrives in chunks of any size and is cut into frames. The
reader keeps what it has not cut yet and looks at the front of it.

* `Front` — what the front of a buffer is: not enough, beyond repair, or a frame and
  the rest;
* `Format` — a function that looks at the front, and does not change its mind when more
  arrives;
* `Format.drain` — all frames of a buffer, and what is left of it (`none` once the front
  is beyond repair);
* `drain_append` — draining in two goes is draining at once, so a part of the stream gives the
  first of its frames (`drain_prefix`);
* `be32`, `ofBe32` — a length in four bytes, the most significant first;
* `prefixed` — the format `[tag][length in four bytes][payload]`, with a cap on the length;
* `front_encode`, `encode_of_front`, `encode_drain` — it reads what is written, and nothing is
  lost.
-/

namespace Framing

/-- What the front of a buffer is. -/
inductive Front (α F : Type*)
  | more
  | bad
  | frame (f : F) (rest : List α)
  deriving DecidableEq, Repr

/-- A way to look at the front of a buffer. -/
structure Format (α F : Type*) where
  front : List α → Front α F
  shorter : ∀ {s f rest}, front s = .frame f rest → rest.length < s.length
  frame_append : ∀ {s f rest}, front s = .frame f rest → ∀ t, front (s ++ t) = .frame f (rest ++ t)
  bad_append : ∀ {s}, front s = .bad → ∀ t, front (s ++ t) = .bad

namespace Format

variable {α F : Type*} (fmt : Format α F)

/-! ## Draining a buffer -/

/-- At most `n` frames of a buffer. -/
def drainWith : Nat → List α → List F × Option (List α)
  | 0, s => ([], some s)
  | n + 1, s =>
    match fmt.front s with
    | .more => ([], some s)
    | .bad => ([], none)
    | .frame f rest => (f :: (drainWith n rest).1, (drainWith n rest).2)

/-- All frames of a buffer, and what is left. -/
def drain (s : List α) : List F × Option (List α) := fmt.drainWith (s.length + 1) s

/-- The fuel does not matter once there is a unit of it for each symbol and one more. -/
theorem drainWith_eq (s : List α) {n : Nat} (hn : s.length < n) :
    fmt.drainWith n s = fmt.drain s := by
  unfold drain
  induction n using Nat.strongRecOn generalizing s with
  | _ n ih =>
    obtain ⟨n, rfl⟩ : ∃ k, n = k + 1 := ⟨n - 1, by omega⟩
    rw [drainWith, drainWith]
    cases hf : fmt.front s with
    | more => rfl
    | bad => rfl
    | frame f rest =>
      have hlt := fmt.shorter hf
      simp only []
      rw [ih n (by omega) rest (by omega)]
      by_cases heq : n = s.length
      · rw [← heq, ih n (by omega) rest (by omega)]
      · rw [ih s.length (by omega) rest hlt]

theorem drain_more {s : List α} (h : fmt.front s = .more) : fmt.drain s = ([], some s) := by
  rw [drain, drainWith, h]

theorem drain_bad {s : List α} (h : fmt.front s = .bad) : fmt.drain s = ([], none) := by
  rw [drain, drainWith, h]

theorem drain_frame {s : List α} {f : F} {rest : List α} (h : fmt.front s = .frame f rest) :
    fmt.drain s = (f :: (fmt.drain rest).1, (fmt.drain rest).2) := by
  rw [drain, drainWith, h]
  simp only []
  rw [fmt.drainWith_eq rest (fmt.shorter h)]

/-- Induction along the frames of a buffer. -/
theorem drain_induction {P : List α → Prop} (more : ∀ s, fmt.front s = .more → P s)
    (bad : ∀ s, fmt.front s = .bad → P s)
    (frame : ∀ s f rest, fmt.front s = .frame f rest → P rest → P s) (s : List α) : P s := by
  induction hn : s.length using Nat.strongRecOn generalizing s with
  | _ n ih =>
    subst hn
    cases hf : fmt.front s with
    | more => exact more s hf
    | bad => exact bad s hf
    | frame f rest => exact frame s f rest hf (ih rest.length (fmt.shorter hf) rest rfl)

/-- What is left of a buffer holds no frame. -/
theorem front_rest {s rest : List α} (h : (fmt.drain s).2 = some rest) :
    fmt.front rest = .more := by
  induction s using fmt.drain_induction with
  | more s hs =>
    rw [fmt.drain_more hs] at h
    cases h
    exact hs
  | bad s hs =>
    rw [fmt.drain_bad hs] at h
    cases h
  | frame s f rest' hs ih =>
    rw [fmt.drain_frame hs] at h
    exact ih h

/-- Draining in two goes is draining at once. -/
theorem drain_append (s t : List α) :
    fmt.drain (s ++ t) =
      match (fmt.drain s).2 with
      | none => ((fmt.drain s).1, none)
      | some rest => ((fmt.drain s).1 ++ (fmt.drain (rest ++ t)).1, (fmt.drain (rest ++ t)).2) := by
  induction s using fmt.drain_induction with
  | more s hs => rw [fmt.drain_more hs]; rfl
  | bad s hs => rw [fmt.drain_bad hs, fmt.drain_bad (fmt.bad_append hs t)]
  | frame s f rest hs ih =>
    rw [fmt.drain_frame (fmt.frame_append hs t), fmt.drain_frame hs, ih]
    cases (fmt.drain rest).2 with
    | none => rfl
    | some rest => rfl

theorem drain_append_some {s rest : List α} {fs : List F} (h : fmt.drain s = (fs, some rest))
    (t : List α) :
    fmt.drain (s ++ t) = (fs ++ (fmt.drain (rest ++ t)).1, (fmt.drain (rest ++ t)).2) := by
  rw [drain_append, h]

/-- Nothing is cut from a stream that is beyond repair. -/
theorem drain_append_none {s : List α} {fs : List F} (h : fmt.drain s = (fs, none))
    (t : List α) : fmt.drain (s ++ t) = (fs, none) := by
  rw [drain_append, h]

/-- What is cut from a part of a stream is the first of what is cut from all of it. -/
theorem drain_prefix {s t rest : List α} {fs : List F} (h : fmt.drain (s ++ t) = (fs, some rest)) :
    ∃ done kept left, fmt.drain s = (done, some kept) ∧ fs = done ++ left ∧
      fmt.drain (kept ++ t) = (left, some rest) := by
  cases hd : fmt.drain s with
  | mk done kept =>
    cases kept with
    | none =>
      rw [fmt.drain_append_none hd] at h
      cases h
    | some kept =>
      rw [fmt.drain_append_some hd] at h
      obtain ⟨hfs, hrest⟩ := Prod.mk.injEq .. ▸ h
      exact ⟨done, kept, _, rfl, hfs.symm, Prod.ext rfl hrest⟩

/-- More of a stream is cut into the same frames and perhaps more. -/
theorem drain_mono (s t : List α) : (fmt.drain s).1 <+: (fmt.drain (s ++ t)).1 := by
  rw [drain_append]
  cases (fmt.drain s).2 with
  | none => exact List.prefix_refl _
  | some rest => exact List.prefix_append _ _

/-- A stream that is cut into no frame and leaves nothing is empty. -/
theorem eq_nil_of_drain {s : List α} (h : fmt.drain s = ([], some [])) : s = [] := by
  cases hf : fmt.front s with
  | more =>
    rw [fmt.drain_more hf] at h
    cases h
    rfl
  | bad =>
    rw [fmt.drain_bad hf] at h
    cases h
  | frame f rest =>
    rw [fmt.drain_frame hf] at h
    cases h

end Format

/-! ## Lengths in four bytes -/

/-- The value of a list of bytes, the most significant first. -/
def ofBytes (s : List UInt8) : Nat := s.foldl (fun n b => n * 256 + b.toNat) 0

/-- A number in four bytes, the most significant first. -/
def be32 (n : Nat) : List UInt8 :=
  [UInt8.ofNat (n / 16777216), UInt8.ofNat (n / 65536), UInt8.ofNat (n / 256), UInt8.ofNat n]

@[simp] theorem length_be32 (n : Nat) : (be32 n).length = 4 := rfl

theorem ofBytes_be32 {n : Nat} (hn : n < 4294967296) : ofBytes (be32 n) = n := by
  simp only [ofBytes, be32, List.foldl_cons, List.foldl_nil, UInt8.toNat_ofNat']
  omega

theorem be32_ofBytes {s : List UInt8} (hs : s.length = 4) : be32 (ofBytes s) = s := by
  obtain ⟨a, b, c, d, rfl⟩ : ∃ a b c d, s = [a, b, c, d] := by
    match s, hs with
    | [a, b, c, d], _ => exact ⟨a, b, c, d, rfl⟩
  have ha := a.toNat_lt
  have hb := b.toNat_lt
  have hc := c.toNat_lt
  have hd := d.toNat_lt
  simp only [ofBytes, be32, List.foldl_cons, List.foldl_nil, List.cons.injEq, and_true,
    ← UInt8.toNat_inj, UInt8.toNat_ofNat']
  omega

/-! ## Frames with a length -/

/-- A frame with a tag. -/
structure Tagged where
  tag : List UInt8
  payload : List UInt8
  deriving DecidableEq, Repr

/-- The bytes of a frame. -/
def Tagged.encode (f : Tagged) : List UInt8 := f.tag ++ be32 f.payload.length ++ f.payload

/-- What the front of `[tag : k bytes][length : 4 bytes][payload]` is, when no payload is
longer than `cap`. -/
def prefixedFront (k cap : Nat) (s : List UInt8) : Front UInt8 Tagged :=
  if s.length < k + 4 then .more
  else
    let length := ofBytes ((s.drop k).take 4)
    if cap < length then .bad
    else if s.length < k + 4 + length then .more
    else .frame ⟨s.take k, (s.drop (k + 4)).take length⟩ (s.drop (k + 4 + length))

/-- The length field does not change when more arrives. -/
theorem length_field_append {k : Nat} {s : List UInt8} (hs : ¬ s.length < k + 4)
    (t : List UInt8) : ((s ++ t).drop k).take 4 = (s.drop k).take 4 := by
  rw [List.drop_append_of_le_length (by omega), List.take_append_of_le_length]
  rw [List.length_drop]
  omega

/-- Frames of a tag of `k` bytes, a length and a payload of at most `cap` bytes. -/
def prefixed (k cap : Nat) : Format UInt8 Tagged where
  front := prefixedFront k cap
  shorter := by
    intro s f rest h
    unfold prefixedFront at h
    split at h
    · cases h
    · simp only [] at h
      split at h
      · cases h
      · split at h
        · cases h
        · cases h
          rw [List.length_drop]
          omega
  frame_append := by
    intro s f rest h t
    unfold prefixedFront at h ⊢
    split at h
    · cases h
    case isFalse hs =>
      simp only [] at h ⊢
      split at h
      · cases h
      case isFalse hcap =>
        split at h
        · cases h
        case isFalse hlen =>
          cases h
          rw [length_field_append hs, List.length_append, if_neg (by omega), if_neg hcap,
            if_neg (by omega), List.take_append_of_le_length (by omega),
            List.drop_append_of_le_length (by omega), List.drop_append_of_le_length (by omega),
            List.take_append_of_le_length]
          rw [List.length_drop]
          omega
  bad_append := by
    intro s h t
    unfold prefixedFront at h ⊢
    split at h
    · cases h
    case isFalse hs =>
      simp only [] at h ⊢
      split at h
      case isTrue hcap =>
        rw [length_field_append hs, List.length_append, if_neg (by omega), if_pos hcap]
      case isFalse =>
        split at h <;> cases h

theorem prefixed_front (k cap : Nat) (s : List UInt8) :
    (prefixed k cap).front s = prefixedFront k cap s := rfl

/-- A frame that is read is the bytes that are gone. -/
theorem encode_of_front {k cap : Nat} {s rest : List UInt8} {f : Tagged}
    (h : (prefixed k cap).front s = .frame f rest) : f.encode ++ rest = s := by
  rw [prefixed_front, prefixedFront] at h
  split at h
  · cases h
  case isFalse hs =>
    simp only [] at h
    split at h
    · cases h
    · split at h
      · cases h
      case isFalse hlen =>
        cases h
        have hfield : ((s.drop k).take 4).length = 4 := by
          rw [List.length_take, List.length_drop]
          omega
        have hpayload : ((s.drop (k + 4)).take (ofBytes ((s.drop k).take 4))).length =
            ofBytes ((s.drop k).take 4) := by
          rw [List.length_take, List.length_drop]
          omega
        have hsplit : s = s.take k ++ ((s.drop k).take 4 ++
            ((s.drop (k + 4)).take (ofBytes ((s.drop k).take 4)) ++
              s.drop (k + 4 + ofBytes ((s.drop k).take 4)))) := by
          rw [← List.drop_drop, ← List.drop_drop, ← List.drop_drop, List.take_append_drop,
            List.take_append_drop, List.take_append_drop]
        rw [Tagged.encode, hpayload, be32_ofBytes hfield, List.append_assoc, List.append_assoc]
        exact hsplit.symm

/-- The frames that are cut from a stream, and what is left, are the stream. -/
theorem encode_drain {k cap : Nat} {s rest : List UInt8} {fs : List Tagged}
    (h : (prefixed k cap).drain s = (fs, some rest)) : fs.flatMap Tagged.encode ++ rest = s := by
  induction s using (prefixed k cap).drain_induction generalizing fs with
  | more s hs =>
    rw [Format.drain_more _ hs] at h
    cases h
    rfl
  | bad s hs =>
    rw [Format.drain_bad _ hs] at h
    cases h
  | frame s f rest' hs ih =>
    rw [Format.drain_frame _ hs] at h
    obtain ⟨rfl, hrest⟩ := Prod.mk.inj h
    rw [List.flatMap_cons, List.append_assoc, ih (Prod.ext rfl hrest), encode_of_front hs]

/-- An encoded frame is read back, whatever follows it. -/
theorem front_encode {k cap : Nat} {f : Tagged} (hk : f.tag.length = k)
    (hf : f.payload.length ≤ cap) (hcap : cap < 4294967296) (t : List UInt8) :
    (prefixed k cap).front (f.encode ++ t) = .frame f t := by
  have hlen : f.encode.length = k + 4 + f.payload.length := by
    simp only [Tagged.encode, List.length_append, length_be32, hk]
  have hfield : ((f.encode ++ t).drop k).take 4 = be32 f.payload.length := by
    rw [Tagged.encode, List.append_assoc, List.append_assoc, ← hk, List.drop_left,
      List.take_left' (length_be32 _)]
  have htag : (f.encode ++ t).take k = f.tag := by
    rw [Tagged.encode, List.append_assoc, List.append_assoc, ← hk, List.take_left]
  have hpayload : (f.encode ++ t).drop (k + 4) = f.payload ++ t := by
    rw [Tagged.encode, List.append_assoc, List.drop_left']
    rw [List.length_append, length_be32, hk]
  rw [prefixed_front, prefixedFront]
  simp only []
  rw [hfield, ofBytes_be32 (by omega), List.length_append, hlen, if_neg (by omega),
    if_neg (by omega), if_neg (by omega), htag, hpayload, List.take_left,
    List.drop_left' (by exact hlen)]

/-- A part of a frame is not enough. -/
theorem front_part {k cap : Nat} {f : Tagged} {s t : List UInt8} (hk : f.tag.length = k)
    (hf : f.payload.length ≤ cap) (hcap : cap < 4294967296) (hs : s ++ t = f.encode)
    (ht : t ≠ []) : (prefixed k cap).front s = .more := by
  have hshorter : s.length < f.encode.length := by
    rw [← hs, List.length_append]
    have := List.length_pos_iff.2 ht
    omega
  have hwhole := front_encode hk hf hcap []
  rw [List.append_nil] at hwhole
  cases hfront : (prefixed k cap).front s with
  | more => rfl
  | bad =>
    have hbad := (prefixed k cap).bad_append hfront t
    rw [hs, hwhole] at hbad
    cases hbad
  | frame g rest =>
    have hframe := (prefixed k cap).frame_append hfront t
    rw [hs, hwhole] at hframe
    obtain ⟨rfl, hnil⟩ := Front.frame.inj hframe
    exact absurd (List.append_eq_nil_iff.1 hnil.symm).2 ht

/-- The frames of encoded frames are these frames. -/
theorem drain_encode {k cap : Nat} {fs : List Tagged} (hk : ∀ f ∈ fs, f.tag.length = k)
    (hf : ∀ f ∈ fs, f.payload.length ≤ cap) (hcap : cap < 4294967296) (t : List UInt8) :
    (prefixed k cap).drain (fs.flatMap Tagged.encode ++ t) =
      (fs ++ ((prefixed k cap).drain t).1, ((prefixed k cap).drain t).2) := by
  induction fs with
  | nil => rfl
  | cons f fs ih =>
    have hrest := ih (fun g hg => hk g (List.mem_cons_of_mem _ hg))
      fun g hg => hf g (List.mem_cons_of_mem _ hg)
    have hfront := front_encode (hk f List.mem_cons_self) (hf f List.mem_cons_self) hcap
      (fs.flatMap Tagged.encode ++ t)
    rw [List.flatMap_cons, List.append_assoc, Format.drain_frame _ hfront, hrest]
    rfl

/-! ## Streams taken apart -/

theorem prefixed_front_bad {k cap : Nat} {s : List UInt8} :
    (prefixed k cap).front s = .bad ↔ k + 4 ≤ s.length ∧ cap < ofBytes ((s.drop k).take 4) := by
  rw [prefixed_front, prefixedFront]
  simp only []
  split_ifs with hshort hcap hpart
  · exact iff_of_false nofun fun h => absurd h.1 (by omega)
  · exact iff_of_true rfl ⟨by omega, hcap⟩
  · exact iff_of_false nofun fun h => absurd h.2 hcap
  · exact iff_of_false nofun fun h => absurd h.2 hcap

/-- A frame that is cut has the shape of one. -/
theorem shape_of_front {k cap : Nat} {s rest : List UInt8} {f : Tagged}
    (h : (prefixed k cap).front s = .frame f rest) :
    f.tag.length = k ∧ f.payload.length ≤ cap := by
  rw [prefixed_front, prefixedFront] at h
  simp only [] at h
  split_ifs at h with hshort hcap hpart
  cases h
  rw [List.length_take, List.length_take, List.length_drop]
  omega

theorem shape_of_mem_drain {k cap : Nat} {s : List UInt8} :
    ∀ f ∈ ((prefixed k cap).drain s).1, f.tag.length = k ∧ f.payload.length ≤ cap := by
  induction s using (prefixed k cap).drain_induction with
  | more s hs =>
    rw [Format.drain_more _ hs]
    exact nofun
  | bad s hs =>
    rw [Format.drain_bad _ hs]
    exact nofun
  | frame s f rest hs ih =>
    rw [Format.drain_frame _ hs]
    intro g hg
    rcases List.mem_cons.1 hg with rfl | hg
    · exact shape_of_front hs
    · exact ih g hg

/-- The frames before one that is too long, and that one, are the stream. -/
theorem encode_drain_none {k cap : Nat} {s : List UInt8} {fs : List Tagged}
    (h : (prefixed k cap).drain s = (fs, none)) :
    ∃ rest, fs.flatMap Tagged.encode ++ rest = s ∧ (prefixed k cap).front rest = .bad := by
  induction s using (prefixed k cap).drain_induction generalizing fs with
  | more s hs =>
    rw [Format.drain_more _ hs] at h
    cases h
  | bad s hs =>
    rw [Format.drain_bad _ hs] at h
    cases h
    exact ⟨s, rfl, hs⟩
  | frame s f rest hs ih =>
    rw [Format.drain_frame _ hs] at h
    obtain ⟨rfl, hrest⟩ := Prod.mk.inj h
    obtain ⟨left, hleft, hbad⟩ := ih (Prod.ext rfl hrest)
    refine ⟨left, ?_, hbad⟩
    rw [List.flatMap_cons, List.append_assoc, hleft, encode_of_front hs]

/-- **Reading a stream to its end.** The frames are those of the stream, and what is left is the
beginning of one. -/
theorem drain_some_iff {k cap : Nat} (hcap : cap < 4294967296) {s rest : List UInt8}
    {fs : List Tagged} :
    (prefixed k cap).drain s = (fs, some rest) ↔
      s = fs.flatMap Tagged.encode ++ rest ∧
        (∀ f ∈ fs, f.tag.length = k ∧ f.payload.length ≤ cap) ∧
        (prefixed k cap).front rest = .more := by
  constructor
  · intro h
    have hshape : ∀ f ∈ ((prefixed k cap).drain s).1, _ := shape_of_mem_drain
    rw [h] at hshape
    exact ⟨(encode_drain h).symm, hshape, (prefixed k cap).front_rest (by rw [h])⟩
  · rintro ⟨rfl, hshape, hmore⟩
    rw [drain_encode (fun f hf => (hshape f hf).1) (fun f hf => (hshape f hf).2) hcap,
      Format.drain_more _ hmore, List.append_nil]

/-- **Reading a stream up to a frame that is too long.** -/
theorem drain_none_iff {k cap : Nat} (hcap : cap < 4294967296) {s : List UInt8}
    {fs : List Tagged} :
    (prefixed k cap).drain s = (fs, none) ↔
      ∃ rest, s = fs.flatMap Tagged.encode ++ rest ∧
        (∀ f ∈ fs, f.tag.length = k ∧ f.payload.length ≤ cap) ∧
        (prefixed k cap).front rest = .bad := by
  constructor
  · intro h
    have hshape : ∀ f ∈ ((prefixed k cap).drain s).1, _ := shape_of_mem_drain
    rw [h] at hshape
    obtain ⟨rest, hrest, hbad⟩ := encode_drain_none h
    exact ⟨rest, hrest.symm, hshape, hbad⟩
  · rintro ⟨rest, rfl, hshape, hbad⟩
    rw [drain_encode (fun f hf => (hshape f hf).1) (fun f hf => (hshape f hf).2) hcap,
      Format.drain_bad _ hbad, List.append_nil]

end Framing
