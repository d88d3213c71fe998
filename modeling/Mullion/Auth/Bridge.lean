import Mullion.Lib.Run

/-!
# The session credential of a bridge helper

The session half of `bridge-registry.ts`. A helper holds one session id, renews it with
`rotateBridgeSession` and authenticates with it through `extendBridgeSession`. The channel between
them keeps no promise: every message ever sent stays in the `World` and may be delivered late,
twice, out of order, or never. Two things could go wrong then. A lost reply could leave the helper
with an id that the row no longer has, and a message that is delivered late could bring back an id
that was superseded.

The row has room for the current id and the one before it, and `Inv` says how the messages lie
about these two: the helper holds one of them, no request presents an id newer than the helper's,
and no reply grants an id between them. Ids are numbered in the order in which they are drawn, so
all of this is arithmetic, and one step keeps it, action by action (`step_inv`). An auth with the
current id clears the slot of the previous one; from then on no older id is stored (`Retired`), and
none can come back, because every id that is drawn is newer. `rotation_safe` has these over whole
runs. The encryption of the columns is left out.
-/

namespace Mullion
namespace Bridge

/-- `SESSION_TTL_MS`. -/
def sessionTtlMs : Nat := 7 * 24 * 60 * 60 * 1000

/-- `sessionExpiryFromNow`: the column stores whole seconds. -/
def sessionExpiryFromNow (now : Nat) : Nat := (now + sessionTtlMs) / 1000 * 1000

/-- The session columns of a row of `bridges`. -/
structure BridgeRow where
  sessionId : Option Nat
  sessionSecret : Option Nat
  sessionExpiresAt : Option Nat
  prevSessionId : Option Nat
  deriving DecidableEq, Repr

/-- `BridgeSession`, less the id of the bridge. -/
structure BridgeSession where
  sessionId : Nat
  sessionSecret : Option Nat
  expiresAt : Nat
  deriving DecidableEq, Repr

/-- `buildSession`, with the id and the secret it draws. -/
def buildSession (drawn now : Nat) : BridgeSession × BridgeRow :=
  (⟨drawn, some drawn, sessionExpiryFromNow now⟩,
    ⟨some drawn, some drawn, some (sessionExpiryFromNow now), none⟩)

inductive Matched
  | current
  | previous
  deriving DecidableEq, Repr

/-- What `findLiveSession` found: the current id, the stored expiry, and which of the two
ids matched. -/
structure SessionMatch where
  sessionId : Nat
  sessionExpiresAt : Nat
  matched : Matched
  deriving DecidableEq, Repr

/-- `findLiveSession`. -/
def findLiveSession (row : BridgeRow) (presented now : Nat) : Option SessionMatch :=
  match row.sessionId with
  | none => none
  | some current =>
    if presented ≠ current ∧ row.prevSessionId ≠ some presented then none
    else
      match row.sessionExpiresAt with
      | none => none
      | some expiresAt =>
        if expiresAt ≤ now then none
        else some ⟨current, expiresAt, if presented = current then .current else .previous⟩

/-- `rotateBridgeSession`: the session it returns and the row it leaves. -/
def rotateBridgeSession (row : BridgeRow) (presented drawn now : Nat) :
    Option (BridgeSession × BridgeRow) :=
  match findLiveSession row presented now with
  | none => none
  | some found =>
    match found.matched with
    | .previous => some (⟨found.sessionId, row.sessionSecret, found.sessionExpiresAt⟩, row)
    | .current =>
      some ((buildSession drawn now).1,
        { (buildSession drawn now).2 with prevSessionId := row.sessionId })

/-- `extendBridgeSession`: the expiry it returns and the row it leaves. -/
def extendBridgeSession (row : BridgeRow) (presented now : Nat) : Option (Nat × BridgeRow) :=
  match findLiveSession row presented now with
  | none => none
  | some found =>
    match found.matched with
    | .previous => some (found.sessionExpiresAt, row)
    | .current =>
      some (sessionExpiryFromNow now,
        { row with
          sessionExpiresAt := some (sessionExpiryFromNow now)
          prevSessionId := none })

/-! ## The helper and the channel -/

/-- A request of the helper: `POST /api/bridges/renew`, or the `auth` handshake. -/
inductive Request
  | renew (sessionId : Nat)
  | auth (sessionId : Nat)
  deriving DecidableEq, Repr

/-- The session id a request presents. -/
def Request.sessionId : Request → Nat
  | .renew id | .auth id => id

/-- A reply that grants what was asked; a refusal tells the helper nothing it keeps. -/
inductive Reply
  | session (granted : BridgeSession)
  | ready (expiresAt : Nat)
  deriving DecidableEq, Repr

/-- The row, how many ids were drawn, the newest id the helper has received, and every
message sent so far. -/
structure World where
  row : BridgeRow
  drawn : Nat
  held : Option Nat
  requests : List Request
  replies : List Reply
  deriving DecidableEq, Repr

/-- The pairing code was redeemed at `now`, and the reply is on its way. -/
def World.paired (now : Nat) : World where
  row := (buildSession 0 now).2
  drawn := 1
  held := none
  requests := []
  replies := [.session (buildSession 0 now).1]

inductive Event
  /-- the helper sends a renew with the id it holds -/
  | sendRenew
  /-- the helper sends an auth with the id it holds -/
  | sendAuth
  /-- a request reaches the server, at whatever time its clock shows -/
  | deliver (request : Request) (now : Nat)
  /-- a reply reaches the helper -/
  | receive (reply : Reply)
  deriving DecidableEq, Repr

/-- The server answers a request. -/
def World.serve (w : World) (now : Nat) : Request → World
  | .renew id =>
    match rotateBridgeSession w.row id w.drawn now with
    | none => w
    | some (session, row) =>
      { w with row := row, drawn := w.drawn + 1, replies := w.replies ++ [.session session] }
  | .auth id =>
    match extendBridgeSession w.row id now with
    | none => w
    | some (expiresAt, row) =>
      { w with row := row, replies := w.replies ++ [.ready expiresAt] }

/-- The helper keeps the newest id. -/
def World.take (w : World) : Reply → World
  | .session granted =>
    { w with held := some (max (w.held.getD granted.sessionId) granted.sessionId) }
  | .ready _ => w

def step (w : World) : Event → Option World
  | .sendRenew => w.held.map fun id => { w with requests := w.requests ++ [.renew id] }
  | .sendAuth => w.held.map fun id => { w with requests := w.requests ++ [.auth id] }
  | .deliver request now => if request ∈ w.requests then some (w.serve now request) else none
  | .receive reply => if reply ∈ w.replies then some (w.take reply) else none

/-! ## What the service does -/

/-- A live session is presented by its current id or by the previous one, before it
expires. -/
theorem findLiveSession_cases (row : BridgeRow) (presented now : Nat) :
    findLiveSession row presented now = none ∨
    ∃ current expiresAt, row.sessionId = some current ∧
      row.sessionExpiresAt = some expiresAt ∧ now < expiresAt ∧
      ((presented = current ∧
          findLiveSession row presented now = some ⟨current, expiresAt, .current⟩) ∨
        (presented ≠ current ∧ row.prevSessionId = some presented ∧
          findLiveSession row presented now = some ⟨current, expiresAt, .previous⟩)) := by
  obtain ⟨sessionId, secret, expires, prev⟩ := row
  cases sessionId with
  | none => simp [findLiveSession]
  | some current =>
    cases expires with
    | none => simp [findLiveSession]
    | some expiresAt =>
      by_cases hnow : expiresAt ≤ now
      · simp [findLiveSession, hnow]
      · by_cases hc : presented = current
        · simp [findLiveSession, hnow, hc, Nat.lt_of_not_le hnow]
        · by_cases hp : prev = some presented
          · simp [findLiveSession, hnow, hc, hp, Nat.lt_of_not_le hnow]
          · simp [findLiveSession, hc, hp]

/-- Whoever is refused presented neither id, or came too late. -/
theorem findLiveSession_isSome {row : BridgeRow} {presented now current expiresAt : Nat}
    (hc : row.sessionId = some current) (he : row.sessionExpiresAt = some expiresAt)
    (hp : presented = current ∨ row.prevSessionId = some presented) (hnow : now < expiresAt) :
    (findLiveSession row presented now).isSome := by
  have hlate : ¬ expiresAt ≤ now := by omega
  rcases hp with hp | hp <;> simp [findLiveSession, hc, he, hp, hlate]

theorem findLiveSession_eq_none {row : BridgeRow} {presented : Nat} (now : Nat)
    (hc : row.sessionId ≠ some presented) (hp : row.prevSessionId ≠ some presented) :
    findLiveSession row presented now = none := by
  rcases findLiveSession_cases row presented now with h | ⟨c, e, hsess, -, -, h | h⟩
  · exact h
  · exact absurd (h.1 ▸ hsess) hc
  · exact absurd h.2.1 hp

/-- A renew is refused, answered again, or rotates. -/
theorem rotateBridgeSession_cases (row : BridgeRow) (presented drawn now : Nat) :
    rotateBridgeSession row presented drawn now = none ∨
    (∃ current expiresAt, row.sessionId = some current ∧
      row.sessionExpiresAt = some expiresAt ∧ row.prevSessionId = some presented ∧
      rotateBridgeSession row presented drawn now =
        some (⟨current, row.sessionSecret, expiresAt⟩, row)) ∨
    (row.sessionId = some presented ∧
      rotateBridgeSession row presented drawn now =
        some (⟨drawn, some drawn, sessionExpiryFromNow now⟩,
          ⟨some drawn, some drawn, some (sessionExpiryFromNow now), some presented⟩)) := by
  rcases findLiveSession_cases row presented now with
    h | ⟨c, e, hc, he, -, ⟨rfl, h⟩ | ⟨-, hp, h⟩⟩
  · simp [rotateBridgeSession, h]
  · right; right
    simp [rotateBridgeSession, h, buildSession, hc]
  · right; left
    exact ⟨c, e, hc, he, hp, by simp [rotateBridgeSession, h]⟩

/-- An auth is refused, answered with the expiry that stands, or slides it. -/
theorem extendBridgeSession_cases (row : BridgeRow) (presented now : Nat) :
    extendBridgeSession row presented now = none ∨
    (∃ expiresAt, row.sessionId ≠ some presented ∧ row.prevSessionId = some presented ∧
      extendBridgeSession row presented now = some (expiresAt, row)) ∨
    (row.sessionId = some presented ∧
      extendBridgeSession row presented now = some (sessionExpiryFromNow now,
        { row with
          sessionExpiresAt := some (sessionExpiryFromNow now)
          prevSessionId := none })) := by
  rcases findLiveSession_cases row presented now with
    h | ⟨c, e, hc, -, -, ⟨rfl, h⟩ | ⟨hn, hp, h⟩⟩
  · simp [extendBridgeSession, h]
  · right; right
    simp [extendBridgeSession, h, hc]
  · right; left
    refine ⟨e, ?_, hp, by simp [extendBridgeSession, h]⟩
    rw [hc]
    simpa using Ne.symm hn

/-! ## The invariant -/

/-- The stored ids and the messages, when `current` is the current id. -/
structure Inv (w : World) (current : Nat) : Prop where
  sessionId : w.row.sessionId = some current
  expires : ∃ expiresAt, w.row.sessionExpiresAt = some expiresAt
  drawn : current < w.drawn
  /-- the id the helper holds is one of the two -/
  held : ∀ h, w.held = some h → h = current ∨ w.row.prevSessionId = some h
  prev : ∀ p, w.row.prevSessionId = some p → p < current
  /-- no request presents an id newer than the helper's -/
  sent : ∀ r ∈ w.requests, ∃ h, w.held = some h ∧ r.sessionId ≤ h
  /-- no reply grants an id between the two -/
  granted : ∀ session, Reply.session session ∈ w.replies → session.sessionId ≤ current ∧
    ∀ p, w.row.prevSessionId = some p → session.sessionId ≤ p ∨ session.sessionId = current
  /-- before the helper has any id, there is only one -/
  unheld : w.held = none → ∀ session, Reply.session session ∈ w.replies →
    session.sessionId = current

theorem inv_paired (now : Nat) : Inv (World.paired now) 0 where
  sessionId := rfl
  expires := ⟨_, rfl⟩
  drawn := by simp [World.paired]
  held := by simp [World.paired]
  prev := by simp [World.paired, buildSession]
  sent := by simp [World.paired]
  granted := by simp [World.paired, buildSession]
  unheld := by simp [World.paired, buildSession]

variable {w w' : World} {c : Nat}

/-- A request with the current id: the helper holds it. -/
theorem Inv.holds_current (hI : Inv w c) {r : Request} (hr : r ∈ w.requests)
    (hc : r.sessionId = c) : w.held = some c := by
  obtain ⟨h, hh, hle⟩ := hI.sent r hr
  rcases hI.held h hh with rfl | hp
  · exact hh
  · have := hI.prev h hp
    omega

/-- Sending a request with the id that is held. -/
theorem Inv.send (hI : Inv w c) {r : Request} (hr : w.held = some r.sessionId) :
    Inv { w with requests := w.requests ++ [r] } c where
  sessionId := hI.sessionId
  expires := hI.expires
  drawn := hI.drawn
  held := hI.held
  prev := hI.prev
  sent := by
    intro r' hr'
    rcases List.mem_append.1 hr' with h | h
    · exact hI.sent r' h
    · rw [List.mem_singleton.1 h]
      exact ⟨_, hr, Nat.le_refl _⟩
  granted := hI.granted
  unheld := hI.unheld

/-- A renew with the previous id is answered with the current one. -/
theorem Inv.again (hI : Inv w c) {session : BridgeSession} (hs : session.sessionId = c) :
    Inv { w with drawn := w.drawn + 1, replies := w.replies ++ [.session session] } c where
  sessionId := hI.sessionId
  expires := hI.expires
  drawn := Nat.lt_succ_of_lt hI.drawn
  held := hI.held
  prev := hI.prev
  sent := hI.sent
  granted := by
    intro s h
    rcases List.mem_append.1 h with h | h
    · exact hI.granted s h
    · cases List.mem_singleton.1 h
      exact ⟨Nat.le_of_eq hs, fun _ _ => .inr hs⟩
  unheld := by
    intro hn s h
    rcases List.mem_append.1 h with h | h
    · exact hI.unheld hn s h
    · cases List.mem_singleton.1 h
      exact hs

/-- A rotation: the id that the helper holds becomes the previous one. -/
theorem Inv.rotate (hI : Inv w c) (hheld : w.held = some c) (expiresAt : Nat) :
    Inv { w with
      row := ⟨some w.drawn, some w.drawn, some expiresAt, some c⟩
      drawn := w.drawn + 1
      replies := w.replies ++ [.session ⟨w.drawn, some w.drawn, expiresAt⟩] } w.drawn where
  sessionId := rfl
  expires := ⟨_, rfl⟩
  drawn := Nat.lt_succ_self _
  held := by
    intro h hh
    rw [hheld] at hh
    exact .inr hh
  prev := by
    rintro p ⟨⟩
    exact hI.drawn
  sent := hI.sent
  granted := by
    intro s h
    have hlt := hI.drawn
    rcases List.mem_append.1 h with h | h
    · have hle := (hI.granted s h).1
      refine ⟨by omega, ?_⟩
      rintro p ⟨⟩
      exact .inl hle
    · cases List.mem_singleton.1 h
      exact ⟨Nat.le_refl _, fun _ _ => .inr rfl⟩
  unheld := by simp [hheld]

/-- An auth with the current id: the previous one is forgotten. -/
theorem Inv.confirm (hI : Inv w c) (hheld : w.held = some c) (expiresAt : Nat) :
    Inv { w with
      row := { w.row with sessionExpiresAt := some expiresAt, prevSessionId := none }
      replies := w.replies ++ [.ready expiresAt] } c where
  sessionId := hI.sessionId
  expires := ⟨_, rfl⟩
  drawn := hI.drawn
  held := by
    intro h hh
    rw [hheld] at hh
    exact .inl (Option.some.inj hh).symm
  prev := by simp
  sent := hI.sent
  granted := by
    intro s h
    have h : Reply.session s ∈ w.replies := by simpa using h
    exact ⟨(hI.granted s h).1, by simp⟩
  unheld := by simp [hheld]

/-- A reply that says nothing new. -/
theorem Inv.ready (hI : Inv w c) (expiresAt : Nat) :
    Inv { w with replies := w.replies ++ [.ready expiresAt] } c where
  sessionId := hI.sessionId
  expires := hI.expires
  drawn := hI.drawn
  held := hI.held
  prev := hI.prev
  sent := hI.sent
  granted := fun s h => hI.granted s (by simpa using h)
  unheld := fun hn s h => hI.unheld hn s (by simpa using h)

/-- The helper takes the newest of the id it holds and the id it is granted. -/
theorem Inv.take (hI : Inv w c) {reply : Reply} (hr : reply ∈ w.replies) :
    Inv (w.take reply) c := by
  cases reply with
  | ready expiresAt => exact hI
  | session granted =>
    obtain ⟨hle, hgap⟩ := hI.granted granted hr
    refine ⟨hI.sessionId, hI.expires, hI.drawn, ?_, hI.prev, ?_, hI.granted, by simp [World.take]⟩
    · -- the new id is granted's or the old one's, and nothing is between the two stored ids
      intro h hh
      simp only [World.take, Option.some.injEq] at hh
      change h = c ∨ w.row.prevSessionId = some h
      cases hheld : w.held with
      | none =>
        have := hI.unheld hheld granted hr
        rw [hheld] at hh
        simp only [Option.getD_none] at hh
        exact .inl (by omega)
      | some held =>
        rw [hheld] at hh
        simp only [Option.getD_some] at hh
        rcases hI.held held hheld with rfl | hp
        · exact .inl (by omega)
        · rcases hgap held hp with hg | hg
          · have hkeep : held = h := by omega
            exact .inr (hkeep ▸ hp)
          · have := hI.prev held hp
            exact .inl (by omega)
    · intro r hr'
      obtain ⟨h, hh, hle'⟩ := hI.sent r hr'
      refine ⟨_, rfl, ?_⟩
      simp only [hh, Option.getD_some]
      omega

/-- **Every step keeps the invariant.** -/
theorem step_inv {e : Event} (hI : Inv w c) (h : step w e = some w') : ∃ c', Inv w' c' := by
  cases e with
  | sendRenew =>
    simp only [step, Option.map_eq_some_iff] at h
    obtain ⟨id, hid, rfl⟩ := h
    exact ⟨c, hI.send hid⟩
  | sendAuth =>
    simp only [step, Option.map_eq_some_iff] at h
    obtain ⟨id, hid, rfl⟩ := h
    exact ⟨c, hI.send hid⟩
  | deliver request now =>
    by_cases hr : request ∈ w.requests
    · simp only [step, hr, if_true, Option.some.injEq] at h
      subst h
      cases request with
      | renew id =>
        rcases rotateBridgeSession_cases w.row id w.drawn now with
          hno | ⟨current, expiresAt, hc, -, -, hsame⟩ | ⟨hc, hnew⟩
        · simp only [World.serve, hno]
          exact ⟨c, hI⟩
        · simp only [World.serve, hsame]
          have : current = c := Option.some.inj (hc.symm.trans hI.sessionId)
          exact ⟨c, hI.again this⟩
        · simp only [World.serve, hnew]
          have hid : id = c := Option.some.inj (hc.symm.trans hI.sessionId)
          subst hid
          exact ⟨w.drawn, hI.rotate (hI.holds_current hr rfl) _⟩
      | auth id =>
        rcases extendBridgeSession_cases w.row id now with
          hno | ⟨expiresAt, -, -, hsame⟩ | ⟨hc, hnew⟩
        · simp only [World.serve, hno]
          exact ⟨c, hI⟩
        · simp only [World.serve, hsame]
          exact ⟨c, hI.ready expiresAt⟩
        · simp only [World.serve, hnew]
          have hid : id = c := Option.some.inj (hc.symm.trans hI.sessionId)
          subst hid
          exact ⟨id, hI.confirm (hI.holds_current hr rfl) _⟩
    · simp [step, hr] at h
  | receive reply =>
    by_cases hr : reply ∈ w.replies
    · simp only [step, hr, if_true, Option.some.injEq] at h
      subst h
      exact ⟨c, hI.take hr⟩
    · simp [step, hr] at h

/-! ## Superseded ids -/

/-- No id older than `c` is stored. -/
def Retired (c : Nat) (w : World) : Prop :=
  (∀ current, w.row.sessionId = some current → c ≤ current) ∧
    ∀ p, w.row.prevSessionId = some p → c ≤ p

theorem Retired.refused {old : Nat} (h : Retired c w) (hold : old < c) (now : Nat) :
    findLiveSession w.row old now = none := by
  refine findLiveSession_eq_none now (fun hc => ?_) (fun hp => ?_)
  · exact absurd (h.1 old hc) (by omega)
  · exact absurd (h.2 old hp) (by omega)

/-- Ids only move forward: what is retired stays retired. -/
theorem step_retired {current : Nat} {e : Event} (hI : Inv w current) (hR : Retired c w)
    (h : step w e = some w') : Retired c w' := by
  cases e with
  | sendRenew | sendAuth =>
    simp only [step, Option.map_eq_some_iff] at h
    obtain ⟨id, -, rfl⟩ := h
    exact hR
  | receive reply =>
    by_cases hr : reply ∈ w.replies
    · simp only [step, hr, if_true, Option.some.injEq] at h
      subst h
      cases reply <;> exact hR
    · simp [step, hr] at h
  | deliver request now =>
    by_cases hr : request ∈ w.requests
    · simp only [step, hr, if_true, Option.some.injEq] at h
      subst h
      have hcur := hR.1 current hI.sessionId
      cases request with
      | renew id =>
        rcases rotateBridgeSession_cases w.row id w.drawn now with
          hno | ⟨_, _, -, -, -, hsame⟩ | ⟨hc, hnew⟩
        · simp only [World.serve, hno]
          exact hR
        · simp only [World.serve, hsame]
          exact hR
        · simp only [World.serve, hnew]
          have hdrawn := hI.drawn
          refine ⟨?_, ?_⟩
          · rintro _ ⟨⟩
            omega
          · rintro _ ⟨⟩
            exact hR.1 id hc
      | auth id =>
        rcases extendBridgeSession_cases w.row id now with
          hno | ⟨_, -, -, hsame⟩ | ⟨hc, hnew⟩
        · simp only [World.serve, hno]
          exact hR
        · simp only [World.serve, hsame]
          exact hR
        · simp only [World.serve, hnew]
          exact ⟨hR.1, by simp⟩
    · simp [step, hr] at h

/-! ## Main result -/

/-- The helper can recover: what it holds is stored, and its renew, served before the
expiry, returns the id that is current from then on. -/
def Recoverable (w : World) : Prop :=
  ∀ held, w.held = some held → (w.row.sessionId = some held ∨ w.row.prevSessionId = some held) ∧
    ∀ expiresAt now, w.row.sessionExpiresAt = some expiresAt → now < expiresAt →
      ∃ session row, rotateBridgeSession w.row held w.drawn now = some (session, row) ∧
        row.sessionId = some session.sessionId

/-- A renew with the previous id changes nothing, and an auth with it leaves the expiry
alone. -/
def PreviousInert (w : World) : Event → World → Prop
  | .deliver (.renew id) _, w' => w.row.prevSessionId = some id → w'.row = w.row
  | .deliver (.auth id) _, w' =>
    w.row.prevSessionId = some id → w'.row.sessionExpiresAt = w.row.sessionExpiresAt
  | _, _ => True

/-- No id older than `c` is accepted, at whatever time. -/
def RefusesBefore (c : Nat) (w : World) : Prop :=
  ∀ old < c, ∀ now, rotateBridgeSession w.row old w.drawn now = none ∧
    extendBridgeSession w.row old now = none

theorem Inv.recoverable (hI : Inv w c) : Recoverable w := by
  intro held hheld
  have hstored := hI.held held hheld
  refine ⟨?_, fun expiresAt now hexp hnow => ?_⟩
  · rcases hstored with rfl | hp
    · exact .inl hI.sessionId
    · exact .inr hp
  · have hlive := findLiveSession_isSome hI.sessionId hexp hstored hnow
    rcases rotateBridgeSession_cases w.row held w.drawn now with
      hno | ⟨current, _, hc, -, -, hsame⟩ | ⟨-, hnew⟩
    · rw [rotateBridgeSession] at hno
      obtain ⟨found, hfound⟩ := Option.isSome_iff_exists.1 hlive
      rw [hfound] at hno
      cases hm : found.matched <;> simp [hm] at hno
    · exact ⟨_, _, hsame, hc⟩
    · exact ⟨_, _, hnew, rfl⟩

theorem Inv.previousInert {e : Event} (hI : Inv w c) (h : step w e = some w') :
    PreviousInert w e w' := by
  cases e with
  | sendRenew | sendAuth | receive reply => trivial
  | deliver request now =>
    by_cases hr : request ∈ w.requests
    · simp only [step, hr, if_true, Option.some.injEq] at h
      subst h
      -- the two ids differ, so whoever presents the previous one is not taken for current
      cases request with
      | renew id =>
        intro hp
        have hlt := hI.prev id hp
        rcases rotateBridgeSession_cases w.row id w.drawn now with
          hno | ⟨_, _, -, -, -, hsame⟩ | ⟨hc, -⟩
        · simp [World.serve, hno]
        · simp [World.serve, hsame]
        · have : id = c := Option.some.inj (hc.symm.trans hI.sessionId)
          omega
      | auth id =>
        intro hp
        have hlt := hI.prev id hp
        rcases extendBridgeSession_cases w.row id now with hno | ⟨_, -, -, hsame⟩ | ⟨hc, -⟩
        · simp [World.serve, hno]
        · simp [World.serve, hsame]
        · have : id = c := Option.some.inj (hc.symm.trans hI.sessionId)
          omega
    · simp [step, hr] at h

/-- An auth with the current id that succeeds retires every older id. -/
theorem retired_of_auth {id now : Nat} (hc : w.row.sessionId = some id)
    (hok : (extendBridgeSession w.row id now).isSome)
    (h : step w (.deliver (.auth id) now) = some w') : Retired id w' := by
  by_cases hr : Request.auth id ∈ w.requests
  · simp only [step, hr, if_true, Option.some.injEq] at h
    subst h
    rcases extendBridgeSession_cases w.row id now with hno | ⟨_, hn, -⟩ | ⟨-, hnew⟩
    · simp [hno] at hok
    · exact absurd hc hn
    · simp only [World.serve, hnew]
      refine ⟨fun current hcur => ?_, by simp⟩
      exact Nat.le_of_eq (Option.some.inj (hc.symm.trans hcur))
  · simp [step, hr] at h

theorem Retired.refusesBefore (h : Retired c w) : RefusesBefore c w := by
  intro old hold now
  have hnone := h.refused hold now
  exact ⟨by simp [rotateBridgeSession, hnone], by simp [extendBridgeSession, hnone]⟩

/-- A run that can be played keeps the invariant. -/
theorem play_inv {events : List Event} (hI : Inv w c) (h : Run.play step w events = some w') :
    ∃ c', Inv w' c' := by
  induction events generalizing w c with
  | nil =>
    cases h
    exact ⟨c, hI⟩
  | cons e events ih =>
    rw [Run.play] at h
    cases hs : step w e with
    | none => simp [hs] at h
    | some t =>
      rw [hs] at h
      obtain ⟨c', hI'⟩ := step_inv hI hs
      exact ih hI' h

/-- **Rotation neither locks the helper out nor revives an old id.** Whatever the channel
loses, delays, reorders or repeats: the helper can always recover, a superseded id moves
nothing, and once an auth with the current id has succeeded no older id is accepted. -/
theorem rotation_safe (paired : Nat) (events : List Event) :
    Run.Along step Recoverable (World.paired paired) events ∧
    Run.AlongSteps step PreviousInert (World.paired paired) events ∧
    ∀ w w' id now, Run.play step (World.paired paired) events = some w →
      w.row.sessionId = some id → (extendBridgeSession w.row id now).isSome →
      step w (.deliver (.auth id) now) = some w' →
      ∀ later, Run.Along step (RefusesBefore id) w' later := by
  have hstart : ∃ c, Inv (World.paired paired) c := ⟨0, inv_paired paired⟩
  refine ⟨?_, ?_, ?_⟩
  · refine Run.along_of_invariant (I := fun w => ∃ c, Inv w c) (C := fun _ _ => True)
      (fun s a s' hI _ h => ?_) (fun s hI => ?_) hstart (Run.Meets.of_forall (fun _ _ => trivial) _ _)
    · obtain ⟨c, hI⟩ := hI
      exact step_inv hI h
    · obtain ⟨c, hI⟩ := hI
      exact hI.recoverable
  · refine (Run.alongSteps_iff_meets (I := fun w => ∃ c, Inv w c) (C := fun _ _ => True)
      (fun s a s' hI _ h => ?_) (fun s a s' hI h => ?_) hstart).2
      (Run.Meets.of_forall (fun _ _ => trivial) _ _)
    · obtain ⟨c, hI⟩ := hI
      exact step_inv hI h
    · obtain ⟨c, hI⟩ := hI
      exact iff_of_true (hI.previousInert h) trivial
  · intro w w' id now hplay hc hok hstep later
    obtain ⟨c, hI⟩ := play_inv (inv_paired paired) hplay
    obtain ⟨c', hI'⟩ := step_inv hI hstep
    refine Run.along_of_invariant (I := fun u => (∃ c, Inv u c) ∧ Retired id u)
      (C := fun _ _ => True) (fun s a s' hIR _ h => ?_) (fun s hIR => hIR.2.refusesBefore)
      ⟨⟨c', hI'⟩, retired_of_auth hc hok hstep⟩ (Run.Meets.of_forall (fun _ _ => trivial) _ _)
    obtain ⟨⟨d, hI⟩, hR⟩ := hIR
    exact ⟨step_inv hI h, step_retired hI hR h⟩

/-- The reply to a renew is lost and the renew repeated; the auth that follows retires the
first id. -/
theorem rotation_safe_lost_reply :
    ∃ w, Run.play step (World.paired 0) [.receive (.session (buildSession 0 0).1), .sendRenew,
        .deliver (.renew 0) 1000, .deliver (.renew 0) 1000,
        .receive (.session ⟨1, some 1, sessionExpiryFromNow 1000⟩), .sendAuth] = some w ∧
      Run.Along step (RefusesBefore 1) (w.serve 2000 (.auth 1)) [.deliver (.renew 0) 3000] :=
  ⟨_, rfl, (rotation_safe 0 [.receive (.session (buildSession 0 0).1), .sendRenew,
    .deliver (.renew 0) 1000, .deliver (.renew 0) 1000,
    .receive (.session ⟨1, some 1, sessionExpiryFromNow 1000⟩), .sendAuth]).2.2 _ _ 1 2000
    rfl rfl (by decide) rfl _⟩

end Bridge
end Mullion
