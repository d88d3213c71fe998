import Mullion.Auth.HostPairing

/-!
# A pairing code yields one host

A code is looked up by its hash, and whether it may still be redeemed is read off one row in
three places: by the query, by the branch after it, and by the guarded update. This file asks
what all three together allow, in every interleaving of redeems, cleanups and revocations.

* **The trace.** `OneHost` says of every redeem that succeeded what must have come before it:
  nothing for the same code, when it created a host; otherwise the redeem that did, with the
  same request id. The proof reads each row of `host_pairings` against the trace (`RowFor`):
  the hash is that of the code issued with the row's id, an unredeemed row has no grant yet,
  and a redeemed one names the first grant. A hash tells texts apart and not strings, so a
  code is known from its hash because it is hexadecimal (`eq_of_toWellFormed`), and a request
  id only as a text.
* **The table.** `HostRows` compares the table of hosts before and after one step with the
  marks of the step (`step_hostRows`).
* **The two readings.** `wouldProceed_false`: what `pairingRedeemWouldProceed` turns away, a
  redeem at the same instant refuses.

`one_host_per_code` puts the three together, and `retried_with_another_request_id` shows why
request ids are compared as texts.
-/

namespace Mullion
namespace HostPairing

open MessageFrame (CodeUnit Utf16 isHighSurrogate isLowSurrogate)

variable {digest : List Char → String}

/-! ## What a hash tells apart -/

theorem toNat_ofNat {n : Nat} (h : n.isValidChar) : (Char.ofNat n).toNat = n := by
  rw [Char.ofNat, dif_pos h]
  rfl

/-- The character of a unit, by its number. -/
theorem toNat_unitChar (u : CodeUnit) : (unitChar u).toNat =
    if 0xd800 ≤ u.toNat ∧ u.toNat ≤ 0xdfff then 0xfffd else u.toNat := by
  have hu : u.toNat < 0x10000 := u.toNat_lt
  have hsurrogate : (isHighSurrogate u || isLowSurrogate u) = true ↔
      0xd800 ≤ u.toNat ∧ u.toNat ≤ 0xdfff := by
    simp only [isHighSurrogate, isLowSurrogate, UInt16.le_iff_toNat_le, Bool.or_eq_true,
      Bool.and_eq_true, decide_eq_true_eq, UInt16.reduceToNat]
    omega
  unfold unitChar
  split <;> rename_i h
  · rw [if_pos (hsurrogate.1 h)]
    rfl
  · rw [if_neg (mt hsurrogate.2 h), toNat_ofNat]
    have := mt hsurrogate.2 h
    unfold Nat.isValidChar
    omega

/-- A hexadecimal digit is the character of no other unit. -/
theorem unitChar_inj {u v : CodeUnit} (hv : v.toNat < 0x80) (h : unitChar u = unitChar v) :
    u = v := by
  have hnat := congrArg Char.toNat h
  rw [toNat_unitChar, toNat_unitChar, if_neg (by omega : ¬ (0xd800 ≤ v.toNat ∧ _))] at hnat
  split at hnat
  · omega
  · exact UInt16.toNat_inj.1 hnat

/-- No other string has the text of a string of hexadecimal digits. -/
theorem eq_of_toWellFormed {a b : Utf16} (hb : ∀ u ∈ b, u.toNat < 0x80)
    (h : toWellFormed a = b.map unitChar) : a = b := by
  fun_induction toWellFormed a generalizing b with
  | case1 => simpa using h.symm
  | case2 u =>
    cases b with
    | nil => cases h
    | cons w b =>
      simp only [List.map_cons, List.cons.injEq, List.nil_eq, List.map_eq_nil_iff] at h
      rw [unitChar_inj (hb w (by simp)) h.1, h.2]
  | case3 u v rest hpair ih =>
    cases b with
    | nil => cases h
    | cons w b =>
      -- a pair is no digit
      have hnat := congrArg Char.toNat (List.cons.inj h).1
      have hw := hb w (by simp)
      simp only [isHighSurrogate, isLowSurrogate, UInt16.le_iff_toNat_le, Bool.and_eq_true,
        decide_eq_true_eq, UInt16.reduceToNat] at hpair
      rw [toNat_unitChar, if_neg (by omega), toNat_ofNat (by unfold Nat.isValidChar; omega)] at hnat
      omega
  | case4 u v rest hpair ih =>
    cases b with
    | nil => cases h
    | cons w b =>
      simp only [List.map_cons, List.cons.injEq] at h
      rw [unitChar_inj (hb w (by simp)) h.1, ih (fun u hu => hb u (List.mem_cons_of_mem w hu)) h.2]

/-- Nothing in such a string is a pair. -/
theorem toWellFormed_eq_map {b : Utf16} (hb : ∀ u ∈ b, u.toNat < 0x80) :
    toWellFormed b = b.map unitChar := by
  fun_induction toWellFormed b with
  | case1 => rfl
  | case2 u => rfl
  | case3 u v rest hpair ih =>
    have hu := hb u (by simp)
    simp only [isHighSurrogate, UInt16.le_iff_toNat_le, Bool.and_eq_true, decide_eq_true_eq,
      UInt16.reduceToNat] at hpair
    omega
  | case4 u v rest hpair ih =>
    rw [List.map_cons, ih fun u hu => hb u (List.mem_cons_of_mem _ hu)]

/-- A pairing code is the only string with its text. -/
theorem eq_of_isPairingCode {presented code : Utf16} (hcode : isPairingCode code = true)
    (h : toWellFormed presented = toWellFormed code) : presented = code := by
  have hdigits : ∀ u ∈ code, u.toNat < 0x80 := by
    simp only [isPairingCode, Bool.and_eq_true, List.all_eq_true] at hcode
    intro u hu
    have := hcode.2 u hu
    simp only [UInt16.le_iff_toNat_le, Bool.or_eq_true, Bool.and_eq_true, decide_eq_true_eq,
      UInt16.reduceToNat] at this
    omega
  exact eq_of_toWellFormed hdigits (h.trans (toWellFormed_eq_map hdigits))

/-! ## The two readings of one row agree -/

/-- The check before the limiter and the redeem itself read the same row alike. -/
theorem wouldProceed_false {db : Db} {code : Utf16} {input : RedeemInput} {draw : Draw}
    {now later : Int}
    (h : pairingRedeemWouldProceed digest db code input.requestId now = false) :
    (redeemHostPairingCode digest db code input draw now later).2 = none := by
  have hrefused : lookUp digest db code input.requestId now = .refused := by
    unfold pairingRedeemWouldProceed at h
    unfold lookUp
    cases hfind : findLivePairing digest db code now with
    | none => rfl
    | some matched =>
      simp only [hfind] at h ⊢
      cases hr : matched.redeemedAt with
      | none =>
        simp only [hr, decide_eq_false_iff_not, not_lt] at h
        simp [h]
      | some redeemedAt =>
        simp only [hr] at h ⊢
        cases hp : matched.redeemRequestHash with
        | none => simp
        | some prior =>
          cases hh : matched.redeemedHostId with
          | none => simp
          | some hostId =>
            simp only [hp, hh, Option.any_some, Bool.and_eq_false_iff, decide_eq_false_iff_not,
              not_lt] at h
            rcases h with (h | h) | h
            · have : prior = "" ∨ ¬ sha256Hex digest input.requestId = prior := by
                rcases h with h | h
                · exact .inl (by simpa using h)
                · exact .inr h
              rcases this with h | h <;> simp [h]
            · have : hostId = "" := by simpa using h
              simp [this]
            · simp [h]
  simp [redeemHostPairingCode, hrefused]

/-! ## What a trace must say -/

/-- A redeem that succeeded after `past`: it created the host, as the first for its code,
called before the expiry of the code and while nobody had revoked it; or it repeats the
redeem that did, with a request id of the same text, within the retry window, and returns its
host. -/
def Justified (past : List Mark) (g : Grant) : Prop :=
  if g.created then
    (∀ g', .granted g' ∈ past → g'.code ≠ g.code) ∧
      ∃ id expiresAt, .issued id g.code expiresAt ∈ past ∧ g.calledAt < expiresAt ∧
        .revoked id ∉ past
  else
    ∃ first, .granted first ∈ past ∧ first.created ∧ first.code = g.code ∧
      toWellFormed first.requestId = toWellFormed g.requestId ∧ first.hostId = g.hostId ∧
      g.calledAt < first.grantedAt + hostPairingRetryWindowMs

/-- Every redeem that succeeded is justified by what was before it. -/
def OneHost (trace : List Mark) : Prop :=
  ∀ past g rest, trace = past ++ .granted g :: rest → Justified past g

theorem oneHost_nil : OneHost [] := by
  intro past g rest h
  simp at h

/-- One more mark. -/
theorem OneHost.concat {trace : List Mark} (h : OneHost trace) {m : Mark}
    (hm : ∀ g, m = .granted g → Justified trace g) : OneHost (trace ++ [m]) := by
  intro past g rest heq
  rcases List.eq_nil_or_concat rest with rfl | ⟨rest, m', rfl⟩
  · have hlast := List.append_inj' heq rfl
    rw [← hlast.1]
    exact hm g (by simpa using hlast.2)
  · rw [List.concat_eq_append, ← List.cons_append, ← List.append_assoc] at heq
    exact h past g rest (List.append_inj' heq rfl).1

/-! ## The rows against the trace -/

variable (digest) in
/-- What the trace says of the code of a row. -/
structure RowFor (trace : List Mark) (row : PairingRow) (code : Utf16) (expiresAt : Int) :
    Prop where
  issued : .issued row.id code expiresAt ∈ trace
  expires : row.expiresAt = seconds expiresAt
  hash : ∀ h, row.codeHash = some h → h = sha256Hex digest code
  unrevoked : row.revokedAt = none → .revoked row.id ∉ trace
  unredeemed : row.redeemedAt = none → ∀ g, .granted g ∈ trace → g.code ≠ code
  redeemed : ∀ t, row.redeemedAt = some t → ∃ first, .granted first ∈ trace ∧ first.created ∧
    first.code = code ∧ t * 1000 ≤ first.grantedAt ∧
    (∀ h, row.redeemRequestHash = some h → h = sha256Hex digest first.requestId) ∧
    ∀ hostId, row.redeemedHostId = some hostId → hostId = first.hostId

variable (digest) in
def RowSound (trace : List Mark) (row : PairingRow) : Prop :=
  ∃ code expiresAt, RowFor digest trace row code expiresAt

/-- No two codes and no two pairings share a draw. -/
def Distinct (trace : List Mark) : Prop :=
  ∀ id code e id' code' e', .issued id code e ∈ trace → .issued id' code' e' ∈ trace →
    id = id' ∨ code = code' → id = id' ∧ code = code' ∧ e = e'

variable (digest) in
structure Inv (s : State) : Prop where
  rows : ∀ row ∈ s.db.pairings.rows, RowSound digest s.trace row
  pending : ∀ p ∈ s.pending, ∃ expiresAt, .issued p.matched.id p.code expiresAt ∈ s.trace ∧
    p.calledAt < expiresAt
  distinct : Distinct s.trace
  codes : ∀ id code e, .issued id code e ∈ s.trace → isPairingCode code = true
  /-- only issued codes are redeemed, only issued pairings revoked -/
  grants : ∀ g, .granted g ∈ s.trace → ∃ id e, .issued id g.code e ∈ s.trace
  revocations : ∀ id, .revoked id ∈ s.trace → ∃ code e, .issued id code e ∈ s.trace
  oneHost : OneHost s.trace

theorem inv_initial (hosts : Table HostRow HostRow.id) : Inv digest (State.initial hosts) where
  rows := by simp [State.initial, Table.empty]
  pending := by simp [State.initial]
  distinct := by simp [State.initial, Distinct]
  codes := by simp [State.initial]
  grants := by simp [State.initial]
  revocations := by simp [State.initial]
  oneHost := oneHost_nil

/-! ## Rows -/

/-- Dropping the lookup hash of a row. -/
theorem RowSound.forget {trace : List Mark} {row : PairingRow}
    (h : RowSound digest trace row) : RowSound digest trace { row with codeHash := none } := by
  obtain ⟨code, e, h⟩ := h
  exact ⟨code, e, h.issued, h.expires, by simp, h.unrevoked, h.unredeemed, h.redeemed⟩

/-- A cleanup forgets hashes and deletes rows, and does nothing else. -/
theorem rowSound_cleanup {trace : List Mark} {db : Db}
    (h : ∀ row ∈ db.pairings.rows, RowSound digest trace row) (now : Int) :
    ∀ row ∈ (cleanupHostPairings db now).pairings.rows, RowSound digest trace row := by
  intro row hrow
  obtain ⟨hrow, -⟩ := Table.mem_deleteWhere.1 hrow
  obtain ⟨old, hold, rfl⟩ := List.mem_map.1 hrow
  split
  · exact (h old hold).forget
  · exact h old hold

/-- A mark that grants nothing and revokes somebody else. -/
theorem RowSound.frame {trace : List Mark} {row : PairingRow} {m : Mark}
    (h : RowSound digest trace row) (hgrant : ∀ g, m ≠ .granted g)
    (hrevoked : m ≠ .revoked row.id) : RowSound digest (trace ++ [m]) row := by
  obtain ⟨code, e, h⟩ := h
  refine ⟨code, e, by simp [h.issued], h.expires, h.hash, fun hr => ?_, fun hr g hg => ?_,
    fun t ht => ?_⟩
  · simp [h.unrevoked hr, Ne.symm hrevoked]
  · have hg : .granted g ∈ trace := by simpa [Ne.symm (hgrant g)] using hg
    exact h.unredeemed hr g hg
  · obtain ⟨first, hfirst, hrest⟩ := h.redeemed t ht
    exact ⟨first, by simp [hfirst], hrest⟩

/-- A grant for another code, or a repeated one. -/
theorem RowFor.granted {trace : List Mark} {row : PairingRow} {code : Utf16} {e : Int}
    {g : Grant} (h : RowFor digest trace row code e)
    (hg : g.code ≠ code ∨ ∃ t, row.redeemedAt = some t) :
    RowFor digest (trace ++ [.granted g]) row code e where
  issued := by simp [h.issued]
  expires := h.expires
  hash := h.hash
  unrevoked := by
    intro hr
    simp [h.unrevoked hr]
  unredeemed := by
    intro hr g' hg'
    rcases List.mem_append.1 hg' with hg' | hg'
    · exact h.unredeemed hr g' hg'
    · rcases hg with hg | ⟨t, ht⟩
      · cases List.mem_singleton.1 hg'
        exact hg
      · simp [hr] at ht
  redeemed := by
    intro t ht
    obtain ⟨first, hfirst, hrest⟩ := h.redeemed t ht
    exact ⟨first, by simp [hfirst], hrest⟩

variable {s s' : State}

/-- The row of a pairing has the code that was issued with its id. -/
theorem Inv.rowFor (hI : Inv digest s) {row : PairingRow} (hrow : row ∈ s.db.pairings.rows)
    {code : Utf16} {e : Int} (hissued : .issued row.id code e ∈ s.trace) :
    RowFor digest s.trace row code e := by
  obtain ⟨code', e', h⟩ := hI.rows row hrow
  obtain ⟨-, rfl, rfl⟩ := hI.distinct _ _ _ _ _ _ h.issued hissued (.inl rfl)
  exact h

/-! ## The steps -/

/-- Time and other people: the tables change without a mark. -/
theorem Inv.withDb (hI : Inv digest s) {db : Db}
    (hrows : ∀ row ∈ db.pairings.rows, RowSound digest s.trace row) :
    Inv digest { s with db := db } where
  rows := hrows
  pending := hI.pending
  distinct := hI.distinct
  codes := hI.codes
  grants := hI.grants
  revocations := hI.revocations
  oneHost := hI.oneHost

theorem Inv.issue (hI : Inv digest s) {id : String} {code : Utf16} (label : Option String)
    (now : Int) (hcode : isPairingCode code = true) (hnew : s.trace.any (Mark.draws id code) = false) :
    Inv digest { s with
      db := issueHostPairingCode digest s.db id code label now
      trace := s.trace ++ [.issued id code (now + hostPairingTtlMs)] } := by
  have hfresh : ∀ id' code' e, .issued id' code' e ∈ s.trace → id' ≠ id ∧ code' ≠ code := by
    intro id' code' e h
    have := List.any_eq_false.1 hnew _ h
    simpa [Mark.draws] using this
  refine ⟨?_, ?_, ?_, ?_, ?_, ?_, ?_⟩
  · intro row hrow
    have hcleaned := rowSound_cleanup hI.rows now
    simp only [issueHostPairingCode, Table.insert] at hrow
    split at hrow
    · exact (hcleaned row hrow).frame (by simp) (by simp)
    · rcases List.mem_append.1 hrow with hrow | hrow
      · exact (hcleaned row hrow).frame (by simp) (by simp)
      · cases List.mem_singleton.1 hrow
        refine ⟨code, now + hostPairingTtlMs, by simp, rfl, by simp, ?_, ?_, by simp⟩
        · intro _ hrev
          obtain ⟨code', e, hi⟩ := hI.revocations id (by simpa using hrev)
          exact (hfresh _ _ _ hi).1 rfl
        · intro _ g hg
          obtain ⟨id', e, hi⟩ := hI.grants g (by simpa using hg)
          exact (hfresh _ _ _ hi).2
  · intro p hp
    obtain ⟨e, hi, hlt⟩ := hI.pending p hp
    exact ⟨e, by simp [hi], hlt⟩
  · intro id₁ code₁ e₁ id₂ code₂ e₂ h₁ h₂ hsame
    simp only [List.mem_append, List.mem_singleton, Mark.issued.injEq] at h₁ h₂
    rcases h₁ with h₁ | ⟨rfl, rfl, rfl⟩ <;> rcases h₂ with h₂ | ⟨rfl, rfl, rfl⟩
    · exact hI.distinct _ _ _ _ _ _ h₁ h₂ hsame
    · have := hfresh _ _ _ h₁
      simp_all
    · have := hfresh _ _ _ h₂
      rcases hsame with hsame | hsame
      · exact absurd hsame.symm this.1
      · exact absurd hsame.symm this.2
    · exact ⟨rfl, rfl, rfl⟩
  · intro id' code' e h
    simp only [List.mem_append, List.mem_singleton, Mark.issued.injEq] at h
    rcases h with h | ⟨-, rfl, -⟩
    · exact hI.codes _ _ _ h
    · exact hcode
  · intro g hg
    obtain ⟨id', e, hi⟩ := hI.grants g (by simpa using hg)
    exact ⟨id', e, by simp [hi]⟩
  · intro id' hrev
    obtain ⟨code', e, hi⟩ := hI.revocations id' (by simpa using hrev)
    exact ⟨code', e, by simp [hi]⟩
  · exact hI.oneHost.concat (by simp)

/-- The row that a guarded update finds. -/
theorem exists_row {db : Db} {id : String} {p : PairingRow → Bool}
    (h : (db.pairings.get id).any p = true) :
    ∃ row ∈ db.pairings.rows, row.id = id ∧ p row = true := by
  cases hget : db.pairings.get id with
  | none => simp [hget] at h
  | some row => exact ⟨row, Table.get_mem hget, Table.get_key hget, by simpa [hget] using h⟩

/-- Two rows with one id are one row. -/
theorem row_unique {db : Db} {row row' : PairingRow} (h : row ∈ db.pairings.rows)
    (h' : row' ∈ db.pairings.rows) (hid : row.id = row'.id) : row = row' := by
  have hget := Table.get_of_mem h
  rw [hid, Table.get_of_mem h'] at hget
  exact (Option.some.inj hget).symm

theorem Inv.revoke (hI : Inv digest s) (id : String) (now : Int) :
    Inv digest { s with
      db := revokeHostPairing s.db id now
      trace := s.trace ++ if revocable s.db id then [.revoked id] else [] } := by
  by_cases hrev : revocable s.db id
  · rw [if_pos hrev]
    obtain ⟨found, hfound, hid, hunredeemed⟩ := exists_row hrev
    refine ⟨?_, ?_, ?_, ?_, ?_, ?_, ?_⟩
    · intro row hrow
      obtain ⟨old, hold, rfl⟩ := List.mem_map.1 hrow
      by_cases hk : old.id = id
      · have hsame : old = found := row_unique hold hfound (hk.trans hid.symm)
        subst hsame
        obtain ⟨code, e, h⟩ := hI.rows old hold
        simp only [hk, decide_true, if_true, hunredeemed]
        refine ⟨code, e, by simp [← hk, h.issued], h.expires, by simp, by simp,
          fun hr g hg => h.unredeemed hr g (by simpa using hg), fun t ht => ?_⟩
        obtain ⟨first, hfirst, hrest⟩ := h.redeemed t ht
        exact ⟨first, by simp [hfirst], hrest⟩
      · simp only [hk, decide_false]
        exact (hI.rows old hold).frame (by simp) (by simpa using Ne.symm hk)
    · intro p hp
      obtain ⟨e, hi, hlt⟩ := hI.pending p hp
      exact ⟨e, by simp [hi], hlt⟩
    · intro id₁ code₁ e₁ id₂ code₂ e₂ h₁ h₂
      exact hI.distinct _ _ _ _ _ _ (by simpa using h₁) (by simpa using h₂)
    · exact fun id' code' e h => hI.codes id' code' e (by simpa using h)
    · intro g hg
      obtain ⟨id', e, hi⟩ := hI.grants g (by simpa using hg)
      exact ⟨id', e, by simp [hi]⟩
    · intro id' h
      simp only [List.mem_append, List.mem_singleton, Mark.revoked.injEq] at h
      rcases h with h | rfl
      · obtain ⟨code', e, hi⟩ := hI.revocations id' h
        exact ⟨code', e, by simp [hi]⟩
      · obtain ⟨code', e, h⟩ := hI.rows found hfound
        exact ⟨code', e, by simpa [← hid] using h.issued⟩
    · exact hI.oneHost.concat (by simp)
  · rw [if_neg hrev, List.append_nil]
    refine hI.withDb fun row hrow => ?_
    -- a row with this id has been redeemed, and the guard spares it
    obtain ⟨old, hold, rfl⟩ := List.mem_map.1 hrow
    by_cases hk : old.id = id
    · have hget := Table.get_of_mem hold
      rw [hk] at hget
      have hguard : old.redeemedAt.isNone = false := by
        rw [revocable, hget, Option.any_some] at hrev
        exact eq_false_of_ne_true hrev
      simp only [hk, decide_true, if_true, hguard]
      exact hI.rows old hold
    · simp only [hk, decide_false]
      exact hI.rows old hold

/-- A grant: everything but the rows and the justification. -/
theorem Inv.grant (hI : Inv digest s) {db : Db} {g : Grant}
    (hrows : ∀ row ∈ db.pairings.rows, RowSound digest (s.trace ++ [.granted g]) row)
    (hcode : ∃ id e, .issued id g.code e ∈ s.trace) (hg : Justified s.trace g) :
    Inv digest { s with db := db, trace := s.trace ++ [.granted g] } where
  rows := hrows
  pending := by
    intro p hp
    obtain ⟨e, hi, hlt⟩ := hI.pending p hp
    exact ⟨e, by simp [hi], hlt⟩
  distinct := by
    intro id₁ code₁ e₁ id₂ code₂ e₂ h₁ h₂
    exact hI.distinct _ _ _ _ _ _ (by simpa using h₁) (by simpa using h₂)
  codes := fun id code e h => hI.codes id code e (by simpa using h)
  grants := by
    intro g' hg'
    have : ∃ id e, .issued id g'.code e ∈ s.trace := by
      rcases List.mem_append.1 hg' with hg' | hg'
      · exact hI.grants g' hg'
      · cases List.mem_singleton.1 hg'
        exact hcode
    obtain ⟨id, e, hi⟩ := this
    exact ⟨id, e, by simp [hi]⟩
  revocations := by
    intro id h
    obtain ⟨code, e, hi⟩ := hI.revocations id (by simpa using h)
    exact ⟨code, e, by simp [hi]⟩
  oneHost := hI.oneHost.concat fun g' h => by
    cases h
    exact hg

/-- A row is consumed: it was unredeemed and unrevoked, so this is the first grant for its
code. -/
theorem Inv.consume (hI : Inv digest s) {pairing : PairingRow} {code : Utf16} {e : Int}
    {input : RedeemInput} {draw : Draw} {now later : Int} {db : Db} {r : HostRegistration}
    (hissued : .issued pairing.id code e ∈ s.trace) (hcalled : now < e)
    (h : consumeHostPairing s.db pairing (sha256Hex digest input.requestId) input draw later =
      (db, some r)) :
    Inv digest { s with
      db := db
      trace := s.trace ++ [.granted ⟨code, input.requestId, r.hostId, now, later, true⟩] } := by
  unfold consumeHostPairing at h
  split at h
  · rename_i hcons
    obtain ⟨found, hfound, hid, hguard⟩ := exists_row hcons
    simp only [Bool.and_eq_true, Option.isNone_iff_eq_none] at hguard
    simp only [Prod.mk.injEq, Option.some.injEq] at h
    obtain ⟨rfl, rfl⟩ := h
    have hfor := hI.rowFor hfound (hid ▸ hissued)
    refine hI.grant ?_ ⟨_, e, hissued⟩ ?_
    · intro row hrow
      obtain ⟨mid, hmid, rfl⟩ := List.mem_map.1 hrow
      obtain ⟨old, hold, rfl⟩ := List.mem_map.1 hmid
      by_cases hk : old.id = pairing.id
      · have hsame : old = found := row_unique hold hfound (hk.trans hid.symm)
        subst hsame
        simp only [hk, decide_true, if_true]
        refine ⟨code, e, by simp [hissued], hfor.expires, hfor.hash, fun hr => ?_, by simp,
          fun t ht => ⟨_, List.mem_append_right _ (List.mem_singleton_self _), rfl, rfl, ?_, ?_, ?_⟩⟩
        · have := hfor.unrevoked hr
          simpa [hk] using this
        · cases ht
          change later / 1000 * 1000 ≤ later
          omega
        · rintro _ ⟨⟩
          rfl
        · rintro _ ⟨⟩
          rfl
      · simp only [hk, decide_false, Bool.false_eq_true, if_false]
        obtain ⟨code', e', h⟩ := hI.rows old hold
        refine ⟨code', e', h.granted (.inl fun heq => hk ?_)⟩
        exact (hI.distinct _ _ _ _ _ _ h.issued hissued (.inr heq.symm)).1
    · unfold Justified
      rw [if_pos rfl]
      exact ⟨hfor.unredeemed hguard.1, pairing.id, e, hissued, hcalled,
        hid ▸ hfor.unrevoked hguard.2⟩
  · cases h

/-- A consume that sees no row writes nothing. -/
theorem consume_none {db db' : Db} {pairing : PairingRow} {requestHash : String}
    {input : RedeemInput} {draw : Draw} {later : Int}
    (h : consumeHostPairing db pairing requestHash input draw later = (db', none)) : db' = db := by
  unfold consumeHostPairing at h
  split at h
  · cases h
  · cases h
    rfl

/-! ## What a redeem decides -/

/-- A redeem is refused, repeats an earlier one within the window, or found an unredeemed
row before its expiry. -/
theorem lookUp_cases (db : Db) (code requestId : Utf16) (now : Int) :
    lookUp digest db code requestId now = .refused ∨
    (∃ row ∈ db.pairings.rows, isLive digest code now row = true ∧ ∃ t hostId,
      row.redeemedAt = some t ∧ now - hostPairingRetryWindowMs < t * 1000 ∧
      row.redeemRequestHash = some (sha256Hex digest requestId) ∧ row.redeemedHostId = some hostId ∧
      lookUp digest db code requestId now = .retry hostId) ∨
    ∃ row ∈ db.pairings.rows, isLive digest code now row = true ∧ row.redeemedAt = none ∧
      now < row.expiresAt * 1000 ∧ lookUp digest db code requestId now = .consume row := by
  unfold lookUp
  cases hfind : findLivePairing digest db code now with
  | none => exact .inl rfl
  | some row =>
    have hmem := List.mem_of_find?_eq_some hfind
    have hlive := List.find?_some hfind
    simp only
    cases hr : row.redeemedAt with
    | none =>
      by_cases he : row.expiresAt * 1000 ≤ now
      · simp [he]
      · right; right
        exact ⟨row, hmem, hlive, hr, by omega, by simp [he]⟩
    | some t =>
      simp only
      by_cases hw : t * 1000 ≤ now - hostPairingRetryWindowMs
      · simp [hw]
      · rw [if_neg hw]
        cases hp : row.redeemRequestHash with
        | none => simp
        | some prior =>
          cases hh : row.redeemedHostId with
          | none => simp
          | some hostId =>
            simp only
            by_cases hno : prior = "" ∨ hostId = "" ∨ sha256Hex digest requestId ≠ prior
            · simp [hno]
            · rw [if_neg hno]
              simp only [not_or, not_not] at hno
              right; left
              exact ⟨row, hmem, hlive, t, hostId, hr, by omega, by simp [hp, hno.2.2], hh, rfl⟩

/-- A live row is the row of the code that is presented. -/
theorem Inv.live (hI : Inv digest s) (hinj : Function.Injective digest) {code : Utf16}
    {now : Int} {row : PairingRow} (hrow : row ∈ s.db.pairings.rows)
    (hlive : isLive digest code now row = true) :
    ∃ e, RowFor digest s.trace row code e := by
  obtain ⟨code', e, h⟩ := hI.rows row hrow
  simp only [isLive, Bool.and_eq_true, decide_eq_true_eq] at hlive
  have : code = code' :=
    eq_of_isPairingCode (hI.codes _ _ _ h.issued) (hinj (h.hash _ hlive.1.1))
  exact ⟨e, this ▸ h⟩

/-- An unredeemed row was found before its expiry. -/
theorem Inv.called (hI : Inv digest s) (hinj : Function.Injective digest) {code : Utf16}
    {now : Int} {row : PairingRow} (hrow : row ∈ s.db.pairings.rows)
    (hlive : isLive digest code now row = true) (hnow : now < row.expiresAt * 1000) :
    ∃ e, .issued row.id code e ∈ s.trace ∧ now < e := by
  obtain ⟨e, h⟩ := hI.live hinj hrow hlive
  have hexp := h.expires
  unfold seconds at hexp
  exact ⟨e, h.issued, by omega⟩

/-- A repeated redeem. -/
theorem Inv.retry (hI : Inv digest s) (hinj : Function.Injective digest)
    {code requestId : Utf16} {now t : Int} (later : Int) {hostId : HostId} {row : PairingRow}
    {hosts : Table HostRow HostRow.id} (hrow : row ∈ s.db.pairings.rows)
    (hlive : isLive digest code now row = true) (ht : row.redeemedAt = some t)
    (hwindow : now - hostPairingRetryWindowMs < t * 1000)
    (hhash : row.redeemRequestHash = some (sha256Hex digest requestId))
    (hhost : row.redeemedHostId = some hostId) :
    Inv digest { s with
      db := { s.db with hosts := hosts }
      trace := s.trace ++ [.granted ⟨code, requestId, hostId, now, later, false⟩] } := by
  obtain ⟨e, h⟩ := hI.live hinj hrow hlive
  obtain ⟨first, hfirst, hcreated, hcode, hat, hreq, hhid⟩ := h.redeemed t ht
  refine hI.grant ?_ ⟨_, e, h.issued⟩ ?_
  · intro row' hrow'
    obtain ⟨code', e', h'⟩ := hI.rows row' hrow'
    refine ⟨code', e', h'.granted ?_⟩
    by_cases hc : code = code'
    · -- the same code: the same row, which has been redeemed
      have hid := (hI.distinct _ _ _ _ _ _ h'.issued h.issued (.inr hc.symm)).1
      exact .inr ⟨t, (row_unique hrow' hrow hid) ▸ ht⟩
    · exact .inl hc
  · refine (if_neg (by simp)).mpr ⟨first, hfirst, hcreated, hcode, ?_, ?_, ?_⟩
    · exact (hinj (hreq _ hhash)).symm
    · exact (hhid _ hhost).symm
    · change now < first.grantedAt + hostPairingRetryWindowMs
      omega

theorem reissue_hostId {hosts hosts' : Table HostRow HostRow.id} {hostId : HostId} {draw : Draw}
    {now : Int} {r : HostRegistration}
    (h : reissuePairedIdentity hosts hostId draw now = some (hosts', r)) : r.hostId = hostId := by
  unfold reissuePairedIdentity at h
  cases hget : hosts.get hostId with
  | none => simp [hget] at h
  | some row =>
    simp only [hget] at h
    split at h
    · cases h
    split at h
    · cases h
    · cases h
      rfl

/-- **Every step keeps the invariant.** -/
theorem step_inv (hinj : Function.Injective digest) {e : Event} (hI : Inv digest s)
    (h : step digest s e = some s') : Inv digest s' := by
  cases e with
  | issue id code label now =>
    simp only [step] at h
    split at h
    · cases h
    · rename_i hnew
      cases h
      simp only [not_or, Bool.not_eq_false, Bool.not_eq_true] at hnew
      exact hI.issue label now hnew.1 hnew.2
  | list now =>
    cases h
    exact hI.withDb (rowSound_cleanup hI.rows now)
  | revoke id now =>
    cases h
    exact hI.revoke id now
  | hosts hosts =>
    cases h
    exact hI.withDb hI.rows
  | redeem code input draw now later =>
    simp only [step] at h
    split at h
    · cases h
    simp only [Option.some.injEq] at h
    subst h
    unfold redeemHostPairingCode
    rcases @lookUp_cases digest s.db code input.requestId now with hl |
      ⟨row, hrow, hlive, t, hostId, ht, hwindow, hhash, hhost, hl⟩ |
      ⟨row, hrow, hlive, hr, hnow, hl⟩
    · simp only [hl, grantMark, List.append_nil]
      exact hI
    · rw [hl]
      cases hre : reissuePairedIdentity s.db.hosts hostId draw later with
      | none =>
        simp only [hre, grantMark, List.append_nil]
        exact hI
      | some out =>
        obtain ⟨hosts, r⟩ := out
        simp only [hre, grantMark, reissue_hostId hre, Lookup.creates]
        exact hI.retry hinj later hrow hlive ht hwindow hhash hhost
    · obtain ⟨e, hissued, hcalled⟩ := hI.called hinj hrow hlive hnow
      rw [hl]
      simp only [Lookup.creates]
      generalize hout : consumeHostPairing s.db row (sha256Hex digest input.requestId) input draw later
        = out
      obtain ⟨db, result⟩ := out
      cases result with
      | none =>
        simp only [consume_none hout, grantMark, List.append_nil]
        exact hI
      | some r =>
        simp only [grantMark]
        exact hI.consume hissued hcalled hout
  | begin code input now =>
    simp only [step] at h
    rcases @lookUp_cases digest s.db code input.requestId now with hl |
      ⟨_, -, -, _, _, -, -, -, -, hl⟩ | ⟨row, hrow, hlive, -, hnow, hl⟩
    · simp [hl] at h
    · simp [hl] at h
    · simp only [hl, Option.some.injEq] at h
      subst h
      refine ⟨hI.rows, fun p hp => ?_, hI.distinct, hI.codes, hI.grants, hI.revocations,
        hI.oneHost⟩
      rcases List.mem_append.1 hp with hp | hp
      · exact hI.pending p hp
      · cases List.mem_singleton.1 hp
        exact hI.called hinj hrow hlive hnow
  | consume call draw later =>
    simp only [step] at h
    split at h
    · cases h
    rename_i hcall
    simp only [not_or, not_not] at hcall
    simp only [Option.some.injEq] at h
    subst h
    obtain ⟨e, hissued, hcalled⟩ := hI.pending call hcall.1
    generalize hout : consumeHostPairing s.db call.matched (sha256Hex digest call.input.requestId)
      call.input draw later = out
    obtain ⟨db, result⟩ := out
    cases result with
    | none =>
      simp only [consume_none hout, grantMark, List.append_nil]
      exact hI
    | some r =>
      simp only [grantMark]
      exact hI.consume hissued hcalled hout

/-! ## The table of hosts -/

/-- The host that a mark says was created. -/
def Mark.creates : Mark → Option HostId
  | .granted g => if g.created then some g.hostId else none
  | _ => none

/-- A step adds to the table of hosts one row for each host that its marks say was created,
and neither adds nor removes another; what else is done to the hosts redeems nothing. -/
def HostRows (s : State) (e : Event) (s' : State) : Prop :=
  ∃ marks, s'.trace = s.trace ++ marks ∧
    match e with
    | .hosts _ => marks = []
    | _ => s'.db.hosts.keys = s.db.hosts.keys ++ marks.filterMap Mark.creates

/-- A consume creates the host it returns, or nothing. -/
theorem keys_consume {db : Db} {pairing : PairingRow} {requestHash : String}
    {input : RedeemInput} {draw : Draw} (code : Utf16) (now : Int) {later : Int}
    (hdraw : draw.hostId ∉ db.hosts.keys) :
    (consumeHostPairing db pairing requestHash input draw later).1.hosts.keys =
      db.hosts.keys ++ (grantMark code input now later true
        (consumeHostPairing db pairing requestHash input draw later).2).filterMap
          Mark.creates := by
  unfold consumeHostPairing
  split
  · simp only [createPairedHost, grantMark, registration]
    rw [Table.keys_insert hdraw]
    rfl
  · simp [grantMark]

/-- A repeated redeem writes in the row that is there. -/
theorem keys_reissue {hosts hosts' : Table HostRow HostRow.id} {hostId : HostId} {draw : Draw}
    {now : Int} {r : HostRegistration}
    (h : reissuePairedIdentity hosts hostId draw now = some (hosts', r)) :
    hosts'.keys = hosts.keys := by
  unfold reissuePairedIdentity at h
  cases hget : hosts.get hostId with
  | none => simp [hget] at h
  | some row =>
    simp only [hget] at h
    split at h
    · cases h
    split at h
    · cases h
    · cases h
      exact Table.keys_update _ _ _ _

/-- **Every step writes the hosts as its marks say.** -/
theorem step_hostRows {e : Event} (h : step digest s e = some s') : HostRows s e s' := by
  cases e with
  | issue id code label now =>
    simp only [step] at h
    split at h
    · cases h
    · cases h
      exact ⟨_, rfl, by simp [issueHostPairingCode, cleanupHostPairings, Mark.creates]⟩
  | list now =>
    cases h
    exact ⟨[], by simp, by simp [cleanupHostPairings]⟩
  | revoke id now =>
    cases h
    refine ⟨_, rfl, ?_⟩
    by_cases hfound : revocable s.db id <;> simp [hfound, revokeHostPairing, Mark.creates]
  | hosts hosts =>
    cases h
    exact ⟨[], by simp, rfl⟩
  | redeem code input draw now later =>
    simp only [step] at h
    split at h
    · cases h
    rename_i hdraw
    cases h
    refine ⟨_, rfl, ?_⟩
    simp only [redeemHostPairingCode]
    cases hl : lookUp digest s.db code input.requestId now with
    | refused => simp [grantMark]
    | retry hostId =>
      cases hre : reissuePairedIdentity s.db.hosts hostId draw later with
      | none => simp [hre, grantMark]
      | some out => simp [hre, grantMark, Lookup.creates, Mark.creates, keys_reissue hre]
    | consume matched => exact keys_consume code now hdraw
  | begin code input now =>
    simp only [step] at h
    split at h
    · cases h
      exact ⟨[], by simp, by simp⟩
    · cases h
  | consume call draw later =>
    simp only [step] at h
    split at h
    · cases h
    rename_i hcall
    cases h
    exact ⟨_, rfl, keys_consume _ _ (not_or.1 hcall).2⟩

/-- **A pairing code yields one host.** In every interleaving, the first redeem that succeeds
for a code creates its host, in time and before any revocation, and each later one repeats
it; the table of hosts gains one row at the redeem that creates the host, and none at another
step; and whatever `pairingRedeemWouldProceed` turns away, `redeemHostPairingCode` refuses. -/
theorem one_host_per_code (digest : List Char → String) (hinj : Function.Injective digest)
    (hosts : Table HostRow HostRow.id) (events : List Event) :
    Run.Along (step digest) (fun s => OneHost s.trace) (State.initial hosts) events ∧
    Run.AlongSteps (step digest) HostRows (State.initial hosts) events ∧
    ∀ (db : Db) (code : Utf16) (input : RedeemInput) (draw : Draw) (now later : Int),
      pairingRedeemWouldProceed digest db code input.requestId now = false →
        (redeemHostPairingCode digest db code input draw now later).2 = none := by
  refine ⟨?_, ?_, fun db code input draw now later h => wouldProceed_false h⟩
  · exact Run.along_of_invariant (C := fun _ _ => True) (fun _ _ _ hI _ h => step_inv hinj hI h)
      (fun _ hI => hI.oneHost) (inv_initial hosts) (Run.Meets.of_forall (fun _ _ => trivial) _ _)
  · exact Run.AlongSteps.of_forall (Q := HostRows) (fun _ _ _ h => step_hostRows h) _ _

/-- A code as it is drawn. -/
def drawnCode : Utf16 := List.replicate 64 0x61

/-- One code, redeemed, and retried after its reply was lost. -/
def retriedRun (first second : Utf16) : List Event :=
  [.issue "p" drawnCode none 1000,
    .redeem drawnCode ⟨first, "mac", none, none, none, none⟩ ⟨"h", "s", "t", "u"⟩ 2000 2500,
    .redeem drawnCode ⟨second, "mac", none, none, none, none⟩ ⟨"h'", "s'", "t'", "u'"⟩ 9000 9000]

/-- The request id stays the same. -/
theorem one_host_per_code_retried :
    OneHost [.issued "p" drawnCode 601000,
      .granted ⟨drawnCode, List.replicate 8 0x72, "h", 2000, 2500, true⟩,
      .granted ⟨drawnCode, List.replicate 8 0x72, "h", 9000, 9000, false⟩] := by
  have h := (one_host_per_code String.ofList (fun _ _ h => String.ofList_injective h)
    Table.empty (retriedRun (List.replicate 8 0x72) (List.replicate 8 0x72))).1
  exact h.2.2.2

/-- Two request ids that differ in a lone surrogate are one text: the second redeem carries
another request id than the first, and gets its host. -/
theorem retried_with_another_request_id :
    (Run.play (step String.ofList) (State.initial Table.empty)
        (retriedRun (List.replicate 7 0x72 ++ [0xd800]) (List.replicate 7 0x72 ++ [0xd801]))).map
      (·.trace) =
    some [.issued "p" drawnCode 601000,
      .granted ⟨drawnCode, List.replicate 7 0x72 ++ [0xd800], "h", 2000, 2500, true⟩,
      .granted ⟨drawnCode, List.replicate 7 0x72 ++ [0xd801], "h", 9000, 9000, false⟩] := by
  rfl

end HostPairing
end Mullion
