import Mullion.Schema

/-!
# Asking a host which sessions are alive

`SessionBackend.liveness` (`session-backend.ts`): the local host lists its systemd
scopes (`session-process.ts`), a remote one is asked over the wire.

* `Listing.liveness`, `livenessFromWire` — what an answer says of a session;
* `Scopes` — the listings that were started, and the memory they are shared by:
  the one in flight, the one kept for `ownedScopesTtlMs`, and the generation;
* `invalidateOwnedScopesCache`, `listOwnedScopes`, `settleListing`, `ask`.
-/

namespace Mullion
namespace Reconcile

/-- `SessionLiveness`. -/
inductive Liveness
  | alive
  | dead
  | unknown
  deriving DecidableEq, Repr

/-- `ScopeOwnershipListing`. -/
structure Listing where
  owned : List Nat
  unverifiable : List Nat
  failed : Bool
  deriving DecidableEq, Repr

/-- `isMasterAliveStateBatch`, once the listing is there. -/
def Listing.liveness (listing : Listing) (id : Nat) : Liveness :=
  if listing.failed then .unknown
  else if id ∈ listing.owned then .alive
  else if id ∈ listing.unverifiable then .unknown
  else .dead

/-- `livenessFromWire`: an id that the reply leaves out is unknown. -/
def livenessFromWire (wire : List (Nat × Bool)) (id : Nat) : Liveness :=
  match wire.lookup id with
  | some true => .alive
  | some false => .dead
  | none => .unknown

/-! ## The shared listing -/

/-- `OWNED_SCOPES_TTL_MS`. -/
def ownedScopesTtlMs : Nat := 400

/-- A listing, or a request to a remote host, that was started. -/
structure Probe where
  hostId : HostId
  startedAt : Nat
  generation : Nat
  /-- What a listing has brought. -/
  listing : Option Listing := none
  deriving DecidableEq, Repr

/-- The probes by their number, `listingGeneration`, `inflightListings` and
`listingCache`, which map the one key of the liveness check. -/
structure Scopes where
  probes : List Probe := []
  generation : Nat := 0
  inflight : Option Nat := none
  /-- The probe that is kept, and until when. -/
  cached : Option (Nat × Nat) := none
  deriving DecidableEq, Repr

/-- `invalidateOwnedScopesCache`. -/
def Scopes.invalidateOwnedScopesCache (s : Scopes) : Scopes :=
  { s with generation := s.generation + 1, inflight := none, cached := none }

/-- A new probe. -/
def Scopes.start (s : Scopes) (now : Nat) (hostId : HostId) : Scopes :=
  { s with probes := s.probes ++ [{ hostId, startedAt := now, generation := s.generation }] }

/-- A listing that is in flight is shared; else a new one starts. -/
def Scopes.joinListing (s : Scopes) (now : Nat) : Scopes × Nat :=
  match s.inflight with
  | some k => (s, k)
  | none => ({ s.start now localHostId with inflight := some s.probes.length }, s.probes.length)

/-- `listOwnedScopes`: the number of the listing that answers. -/
def Scopes.listOwnedScopes (s : Scopes) (now : Nat) : Scopes × Nat :=
  match s.cached with
  | some (k, expiresAt) =>
    if now < expiresAt then (s, k) else { s with cached := none }.joinListing now
  | none => s.joinListing now

/-- A listing settles. It is kept unless it failed or was started before the cache was
invalidated. -/
def Scopes.settleListing (s : Scopes) (k : Nat) (listing : Listing) : Option Scopes :=
  match s.probes[k]? with
  | none => none
  | some probe =>
    if probe.hostId = localHostId ∧ probe.listing = none then
      some
        { s with
          probes := s.probes.set k { probe with listing := some listing }
          inflight := if s.inflight = some k then none else s.inflight
          cached :=
            if probe.generation = s.generation ∧ listing.failed = false then
              some (k, probe.startedAt + ownedScopesTtlMs)
            else s.cached }
    else none

/-- `liveness` of a host, up to its await: the number of the probe that answers. -/
def Scopes.ask (s : Scopes) (now : Nat) (hostId : HostId) : Scopes × Nat :=
  if hostId = localHostId then s.listOwnedScopes now
  else (s.start now hostId, s.probes.length)

/-- **A question** is answered by the shared listing of the local host, or by a probe that
starts now. -/
theorem Scopes.ask_cases (s : Scopes) (now : Nat) (hostId : HostId) :
    (∀ x, (s.ask now hostId).1.cached = some x → s.cached = some x) ∧
      ((hostId = localHostId ∧ (s.ask now hostId).1.probes = s.probes ∧
          (s.ask now hostId).1.inflight = s.inflight ∧
          (s.inflight = some (s.ask now hostId).2 ∨
            ∃ expiresAt, s.cached = some ((s.ask now hostId).2, expiresAt))) ∨
        ((s.ask now hostId).2 = s.probes.length ∧
          (s.ask now hostId).1.probes =
            s.probes ++ [{ hostId, startedAt := now, generation := s.generation }] ∧
          ((s.ask now hostId).1.inflight = s.inflight ∨
            hostId = localHostId ∧ (s.ask now hostId).1.inflight = some s.probes.length))) := by
  have hjoin : ∀ s : Scopes, (s.joinListing now).1.cached = s.cached ∧
      (((s.joinListing now).1 = s ∧ s.inflight = some (s.joinListing now).2) ∨
        ((s.joinListing now).2 = s.probes.length ∧
          (s.joinListing now).1.probes = s.probes ++
            [{ hostId := localHostId, startedAt := now, generation := s.generation }] ∧
          (s.joinListing now).1.inflight = some s.probes.length)) := by
    intro s
    unfold joinListing
    cases hin : s.inflight with
    | some k => exact ⟨rfl, Or.inl ⟨rfl, rfl⟩⟩
    | none => exact ⟨rfl, Or.inr ⟨rfl, rfl, rfl⟩⟩
  unfold ask
  by_cases hl : hostId = localHostId
  · subst hl
    rw [if_pos rfl]
    unfold listOwnedScopes
    cases hc : s.cached with
    | none =>
      obtain ⟨hcached, ⟨hs, hk⟩ | ⟨hk, hp, hin⟩⟩ := hjoin s
      · exact ⟨fun x hx => by rw [← hc, ← hcached]; exact hx,
          Or.inl ⟨rfl, by rw [hs], by rw [hs], Or.inl hk⟩⟩
      · exact ⟨fun x hx => by rw [← hc, ← hcached]; exact hx, Or.inr ⟨hk, hp, Or.inr ⟨rfl, hin⟩⟩⟩
    | some e =>
      obtain ⟨k, expiresAt⟩ := e
      dsimp only
      split
      · exact ⟨fun x hx => by rw [← hc]; exact hx, Or.inl ⟨rfl, rfl, rfl, Or.inr ⟨expiresAt, rfl⟩⟩⟩
      · obtain ⟨hcached, ⟨hs, hk⟩ | ⟨hk, hp, hin⟩⟩ := hjoin { s with cached := none }
        · refine ⟨fun x hx => ?_, Or.inl ⟨rfl, by rw [hs], by rw [hs], Or.inl hk⟩⟩
          rw [hcached] at hx
          cases hx
        · refine ⟨fun x hx => ?_, Or.inr ⟨hk, hp, Or.inr ⟨rfl, hin⟩⟩⟩
          rw [hcached] at hx
          cases hx
  · rw [if_neg hl]
    exact ⟨fun x hx => hx, Or.inr ⟨rfl, rfl, Or.inl rfl⟩⟩

/-- What an await brings. -/
inductive Answer
  /-- The listing has settled. -/
  | listed
  /-- The reply of a remote host. -/
  | wire (alive : List (Nat × Bool))
  /-- Other awaited work is done. -/
  | settled
  /-- The awaited promise is rejected. -/
  | threw
  deriving DecidableEq, Repr

/-- The map that `liveness` resolves to. -/
def Scopes.answer (s : Scopes) (hostId : HostId) (k : Nat) : Answer → Option (Nat → Liveness)
  | .listed =>
    if hostId = localHostId then ((s.probes[k]?).bind Probe.listing).map Listing.liveness
    else none
  | .wire wire => if hostId = localHostId then none else some (livenessFromWire wire)
  | .settled | .threw => none

end Reconcile
end Mullion
