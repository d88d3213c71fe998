import Mathlib.Algebra.Ring.Nat
import Mullion.Lib.Framing

/-!
# The sign-only filter

`SignOnlyFilter` (`ssh-agent-filter.ts`): the frames of an ssh-agent client, cut out of
the chunks they arrive in and classified.

* `requestTypeVectors`, `signOnlyAllowlist`, `classify` — what is allowed;
* `FilterResult`, `classified` — what is forwarded and what is refused;
* `feed` — the frames that a chunk completes.
-/

namespace Mullion
namespace Relay

open Framing

/-- `MAX_FRAME_BYTES`. -/
def maxFrameBytes : Nat := 256 * 1024

/-- `SSH_AGENTC_REQUEST_IDENTITIES`. -/
def requestIdentities : Nat := 11

/-- `SSH_AGENTC_SIGN_REQUEST`. -/
def signRequest : Nat := 13

/-- `SshAgentMessageTypeVector`. -/
structure MessageTypeVector where
  type : Nat
  allowed : Bool
  deriving DecidableEq, Repr

/-- `SSH_AGENT_REQUEST_TYPE_VECTORS`. -/
def requestTypeVectors : List MessageTypeVector :=
  [⟨1, false⟩, ⟨7, false⟩, ⟨8, false⟩, ⟨9, false⟩, ⟨requestIdentities, true⟩, ⟨signRequest, true⟩,
    ⟨17, false⟩, ⟨18, false⟩, ⟨19, false⟩, ⟨20, false⟩, ⟨21, false⟩, ⟨22, false⟩, ⟨23, false⟩,
    ⟨24, false⟩, ⟨25, false⟩, ⟨26, false⟩, ⟨27, false⟩]

/-- `SIGN_ONLY_ALLOWLIST`. -/
def signOnlyAllowlist : List Nat :=
  (requestTypeVectors.filter MessageTypeVector.allowed).map MessageTypeVector.type

/-- `classify`. -/
def classify (type : Nat) : Bool := type ∈ signOnlyAllowlist

/-- `SSH_AGENT_FAILURE_FRAME`. -/
def failureFrame : List UInt8 := [0, 0, 0, 1, 5]

/-- `[length: 4 bytes][body]`. -/
def agentFrames : Format UInt8 Tagged := prefixed 0 maxFrameBytes

/-- A frame without a body has no type, and is not allowed. -/
def allowed (f : Tagged) : Bool :=
  match f.payload with
  | [] => false
  | type :: _ => classify type.toNat

/-- `FilterResult`. -/
structure FilterResult where
  forward : List (List UInt8) := []
  reject : List (List UInt8) := []
  rejectedLengths : List Nat := []
  deriving DecidableEq, Repr

/-- The loop of `feed` over the frames it has cut. -/
def classified : List Tagged → FilterResult
  | [] => {}
  | f :: fs =>
    let r := classified fs
    if allowed f then { r with forward := f.encode :: r.forward }
    else { r with
      reject := failureFrame :: r.reject
      rejectedLengths := f.encode.length :: r.rejectedLengths }

theorem classified_allowed {f : Tagged} (hf : allowed f = true) (fs : List Tagged) :
    classified (f :: fs) =
      { classified fs with forward := f.encode :: (classified fs).forward } := if_pos hf

theorem classified_blocked {f : Tagged} (hf : ¬ allowed f = true) (fs : List Tagged) :
    classified (f :: fs) =
      { classified fs with
        reject := failureFrame :: (classified fs).reject
        rejectedLengths := f.encode.length :: (classified fs).rejectedLengths } := if_neg hf

theorem classified_forward (fs : List Tagged) :
    (classified fs).forward = (fs.filter allowed).map Tagged.encode := by
  induction fs with
  | nil => rfl
  | cons f fs ih =>
    by_cases hf : allowed f
    · rw [classified_allowed hf, List.filter_cons_of_pos hf, List.map_cons, ← ih]
    · rw [classified_blocked hf, List.filter_cons_of_neg hf, ← ih]

theorem classified_reject (fs : List Tagged) :
    (classified fs).reject = (fs.filter (!allowed ·)).map fun _ => failureFrame := by
  induction fs with
  | nil => rfl
  | cons f fs ih =>
    by_cases hf : allowed f
    · rw [classified_allowed hf, List.filter_cons_of_neg (by simp [hf]), ← ih]
    · rw [classified_blocked hf, List.filter_cons_of_pos (by simp [hf]), List.map_cons, ← ih]

theorem classified_rejectedLengths (fs : List Tagged) :
    (classified fs).rejectedLengths = (fs.filter (!allowed ·)).map (·.encode.length) := by
  induction fs with
  | nil => rfl
  | cons f fs ih =>
    by_cases hf : allowed f
    · rw [classified_allowed hf, List.filter_cons_of_neg (by simp [hf]), ← ih]
    · rw [classified_blocked hf, List.filter_cons_of_pos (by simp [hf]), List.map_cons, ← ih]

theorem classified_lengths (fs : List Tagged) :
    (classified fs).reject.length = (classified fs).rejectedLengths.length := by
  induction fs with
  | nil => rfl
  | cons f fs ih =>
    by_cases hf : allowed f
    · rw [classified_allowed hf]
      exact ih
    · rw [classified_blocked hf, List.length_cons, List.length_cons, ih]

/-- Each byte of a frame is forwarded or refused. -/
theorem classified_total (fs : List Tagged) :
    (classified fs).rejectedLengths.sum + (classified fs).forward.flatten.length =
      (fs.flatMap Tagged.encode).length := by
  induction fs with
  | nil => rfl
  | cons f fs ih =>
    rw [List.flatMap_cons, List.length_append, ← ih]
    by_cases hf : allowed f
    · simp only [classified_allowed hf, List.flatten_cons, List.length_append]
      omega
    · simp only [classified_blocked hf, List.sum_cons]
      omega

/-- `feed`: what is kept of the chunk, and what its frames are; `none` where it throws
`SshAgentFrameTooLargeError`. -/
def feed (kept chunk : List UInt8) : Option (List UInt8 × FilterResult) :=
  match agentFrames.drain (kept ++ chunk) with
  | (_, none) => none
  | (fs, some rest) => some (rest, classified fs)

/-- `feed` for chunk after chunk, up to one where it throws: what each call returns, and what is
kept. -/
def feeds : List UInt8 → List (List UInt8) → List FilterResult × Option (List UInt8)
  | kept, [] => ([], some kept)
  | kept, chunk :: chunks =>
    match feed kept chunk with
    | none => ([], none)
    | some (kept, r) => (r :: (feeds kept chunks).1, (feeds kept chunks).2)

end Relay
end Mullion
