import Mullion.Auth.HostIdentity

/-!
# Revocation is final, and renewals converge

Machine credentials are issued, replaced, accepted and revoked by nine calls that write overlapping
columns of one row. This file asks three things of every sequence of them: that a revoked row stays
closed until it gets a new token, that a row has at most two credentials which are accepted, the
newest and the one before it, and that an agent whose renewals get lost still ends up with the
current one.

What a call may do to the row of a host is said once (`RowStep`, `run_get`), and the rest is read
off it.

* **Slots.** `RowInv` places the columns in the list of the credentials that were ever issued: the
  current one is the newest of them, the replaced one comes next, and a revoked row has neither.
* **Revocation.** `HostRow.Closed` says that nothing opens the row; every step but that of a new
  token keeps it.
* **Renewal.** `World` has one agent that renews, with replies lost and requests repeated.
  `Settled` keeps its credential in one of the two slots, and there the reply to a renewal brings
  the current one.

`revoked_for_good_and_convergent` puts the three together. The columns store whole seconds, and
`retry_refused` shows that a grace period counted in milliseconds would be promised too much.
-/

namespace Mullion
namespace HostIdentity

open HostPairing (Draw seconds sessionTtlMs machineCredentialTtlMs hostName)

/-! ## What a call does to a row -/

/-- What a call may do to a row of the table. -/
inductive RowStep (hosts : Hosts) (call : Call) (now : Int) (row : HostRow) : HostRow → Prop
  | same : RowStep hosts call now row row
  | claimed {token : String} {input : RegisterAgentInput} {draw : Draw}
      (hcall : call = .claimHost token input draw)
      (hfind : hosts.rows.find? (claimable token) = some row) :
      RowStep hosts call now row ((row.claimed input).register input draw now)
  | enrolled {input : RegisterAgentInput} {draw : Draw} {baseUrl : String}
      (hcall : call = .enrollHost input draw) (hreusable : reusable baseUrl row) :
      RowStep hosts call now row ((row.enrolled input).issueSession draw now)
  | reissued {draw : Draw} (hcall : call = .reissuePairedIdentity row.id draw)
      (hlocal : row.id ≠ localHostId) (hrevoked : row.machineCredentialRevokedAt = none)
      (hissued : row.machineCredential.isSome) (hrotated : row.machineCredentialRotatedAt = none) :
      RowStep hosts call now row ((row.reissued draw now).issueSession draw now)
  | rotated {presented : String} {input : RegisterAgentInput} {draw : Draw}
      (hcall : call = .renewMachineCredential row.id presented input draw)
      (hlocal : row.id ≠ localHostId) (hrevoked : row.machineCredentialRevokedAt = none)
      (hunexpired : row.unexpired now) (hcurrent : row.machineCredential = some presented) :
      RowStep hosts call now row (((row.renewed input).rotate draw now).issueSession draw now)
  | slid {presented : String} {input : RegisterAgentInput} {draw : Draw}
      (hcall : call = .renewMachineCredential row.id presented input draw)
      (hlocal : row.id ≠ localHostId) (hrevoked : row.machineCredentialRevokedAt = none)
      (hunexpired : row.unexpired now) (hissued : row.machineCredential.isSome)
      (hprev : row.isPrev presented now) :
      RowStep hosts call now row (((row.renewed input).slide now).issueSession draw now)
  | resumed {presented : String} {draw : Draw}
      (hcall : call = .rotateSession row.id presented draw)
      (hsession : row.sessionId = some presented) :
      RowStep hosts call now row (row.issueSession draw now)
  | updated {input : UpdateHostInput} (hcall : call = .updateHost row.id input) :
      RowStep hosts call now row (row.updated input)
  | revoked (hcall : call = .revokeMachineIdentity row.id) (hlocal : row.id ≠ localHostId) :
      RowStep hosts call now row (row.revoked now)

section Get

variable {hosts : Hosts} {now : Int} {k : HostId}

/-- The row of a host after an insertion. -/
theorem get_insertEnrolledHost (hosts : Hosts) (input : RegisterAgentInput) (draw : Draw)
    (now : Int) (k : HostId) :
    (insertEnrolledHost hosts input draw now).1.get k = hosts.get k ∨
      hosts.get k = none ∧ k = draw.hostId ∧
        (insertEnrolledHost hosts input draw now).1.get k =
          some ((enrolledRow input draw).register input draw now) := by
  have hkey : ((enrolledRow input draw).register input draw now).key = draw.hostId := by
    unfold HostRow.register
    split
    · rfl
    · rfl
  rw [insertEnrolledHost]
  by_cases hfree : draw.hostId ∈ hosts.keys
  · left
    rw [Table.insert, dif_pos (by rw [hkey]; exact hfree)]
  · rw [Table.get_insert (by rw [hkey]; exact hfree), hkey]
    by_cases hk : k = draw.hostId
    · right
      rw [if_pos hk, Table.get_eq_none_iff, hk]
      exact ⟨hfree, rfl, rfl⟩
    · left
      rw [if_neg hk]

/-- An update of one row that may do `RowStep` to it. -/
theorem get_update_rowStep {call : Call} {id : HostId} {f : HostRow → HostRow}
    (hf : ∀ row, (f row).key = row.key) {row : HostRow} (hrow : hosts.get k = some row)
    (hstep : row.id = id → RowStep hosts call now row (f row)) :
    ∃ row', (hosts.update id f hf).get k = some row' ∧ RowStep hosts call now row row' := by
  have hid : row.key = k := Table.get_key hrow
  rw [Table.get_update, hrow]
  split
  · next hk => exact ⟨f row, rfl, hstep (hid.trans hk)⟩
  · exact ⟨row, rfl, .same⟩

end Get

/-- A row that was found by a scan. -/
theorem get_of_find {hosts : Hosts} {p : HostRow → Bool} {row : HostRow}
    (h : hosts.rows.find? p = some row) : hosts.get row.id = some row :=
  Table.get_of_mem (List.mem_of_find?_eq_some h)

theorem row_eq_of_get {hosts : Hosts} {row found : HostRow} {k id : HostId}
    (hfound : hosts.get id = some found) (hrow : hosts.get k = some row) (hid : row.id = id) :
    found = row := by
  have hk : row.key = k := Table.get_key hrow
  rw [← hid, show row.id = k from hk, hrow] at hfound
  exact (Option.some.inj hfound).symm

/-- The row of a host after a call, where it had one. -/
theorem run_get_some {hosts : Hosts} {k : HostId} {row : HostRow} (hrow : hosts.get k = some row)
    (call : Call) (now : Int) :
    ∃ row', (call.run hosts now).1.get k = some row' ∧ RowStep hosts call now row row' := by
  have hinsert : ∀ (input : RegisterAgentInput) (draw : Draw),
      ∃ row', (insertEnrolledHost hosts input draw now).1.get k = some row' ∧
        RowStep hosts call now row row' := by
    intro input draw
    rcases get_insertEnrolledHost hosts input draw now k with h | ⟨hnone, -⟩
    · exact ⟨row, h.trans hrow, .same⟩
    · rw [hrow] at hnone
      cases hnone
  cases call with
  | claimHost token input draw =>
    rw [Call.run, claimHost]
    cases hfind : hosts.rows.find? (claimable token) with
    | none => exact ⟨row, hrow, .same⟩
    | some found =>
      dsimp only
      refine get_update_rowStep _ hrow fun hid => ?_
      obtain rfl := row_eq_of_get (get_of_find hfind) hrow hid
      exact .claimed rfl hfind
  | enrollHost input draw =>
    rw [Call.run, enrollHost]
    split
    · next baseUrl hwants hurl =>
      cases hfind : hosts.rows.find? (reusable baseUrl) with
      | none => exact hinsert input draw
      | some found =>
        dsimp only
        refine get_update_rowStep _ hrow fun hid => ?_
        obtain rfl := row_eq_of_get (get_of_find hfind) hrow hid
        exact .enrolled rfl (List.find?_some hfind)
    · exact hinsert input draw
  | createPairedHost input draw => exact hinsert _ draw
  | reissuePairedIdentity hostId draw =>
    rw [Call.run, reissuePairedIdentity]
    cases hget : hosts.get hostId with
    | none => exact ⟨row, hrow, .same⟩
    | some found =>
      dsimp only
      by_cases hclosed : found.id = localHostId ∨ found.machineCredentialRevokedAt.isSome
      · rw [if_pos hclosed]
        exact ⟨row, hrow, .same⟩
      · rw [if_neg hclosed]
        by_cases hused : found.machineCredential.isNone ∨ found.machineCredentialRotatedAt.isSome
        · rw [if_pos hused]
          exact ⟨row, hrow, .same⟩
        · rw [if_neg hused]
          dsimp only
          refine get_update_rowStep _ hrow fun hid => ?_
          obtain rfl := row_eq_of_get hget hrow hid
          simp only [not_or, Bool.not_eq_true, Option.isSome_eq_false_iff,
            Option.isNone_iff_eq_none] at hclosed hused
          exact .reissued (by rw [hid]) hclosed.1 hclosed.2 (Option.isSome_iff_ne_none.2 hused.1)
            hused.2
  | renewMachineCredential hostId presented input draw =>
    rw [Call.run, renewMachineCredential]
    cases hget : hosts.get hostId with
    | none => exact ⟨row, hrow, .same⟩
    | some found =>
      dsimp only
      by_cases hnone : found.id = localHostId ∨ found.machineCredential.isNone
      · rw [if_pos hnone]
        exact ⟨row, hrow, .same⟩
      rw [if_neg hnone]
      by_cases hrevoked : found.machineCredentialRevokedAt.isSome
      · rw [if_pos hrevoked]
        exact ⟨row, hrow, .same⟩
      rw [if_neg hrevoked]
      by_cases hexpired : found.unexpired now = false
      · rw [if_pos hexpired]
        exact ⟨row, hrow, .same⟩
      rw [if_neg hexpired]
      simp only [not_or, Bool.not_eq_true, Option.isSome_eq_false_iff,
        Option.isNone_iff_eq_none] at hnone hrevoked
      rw [Bool.not_eq_false] at hexpired
      by_cases hcurrent : found.isCurrent presented
      · rw [if_pos hcurrent]
        dsimp only
        refine get_update_rowStep _ hrow fun hid => ?_
        obtain rfl := row_eq_of_get hget hrow hid
        exact .rotated (by rw [hid]) hnone.1 hrevoked hexpired (of_decide_eq_true hcurrent)
      rw [if_neg hcurrent]
      by_cases hprev : found.isPrev presented now
      · rw [if_pos hprev]
        dsimp only
        refine get_update_rowStep _ hrow fun hid => ?_
        obtain rfl := row_eq_of_get hget hrow hid
        exact .slid (by rw [hid]) hnone.1 hrevoked hexpired
          (Option.isSome_iff_ne_none.2 hnone.2) hprev
      · rw [if_neg hprev]
        exact ⟨row, hrow, .same⟩
  | checkMachineCredential hostId presented => exact ⟨row, hrow, .same⟩
  | rotateSession hostId presented draw =>
    rw [Call.run, rotateSession]
    cases hfind : findLiveSession hosts hostId presented now with
    | none => exact ⟨row, hrow, .same⟩
    | some found =>
      dsimp only [Option.map_some]
      refine get_update_rowStep _ hrow fun hid => ?_
      rw [findLiveSession, Option.filter_eq_some_iff] at hfind
      obtain rfl := row_eq_of_get hfind.1 hrow hid
      simp only [Bool.and_eq_true, decide_eq_true_eq] at hfind
      exact .resumed (by rw [hid]) hfind.2.1
  | updateHost id input =>
    unfold Call.run updateHost
    dsimp only
    exact get_update_rowStep _ hrow fun hid => .updated (by rw [hid])
  | revokeMachineIdentity hostId =>
    unfold Call.run revokeMachineIdentity Table.updateIf
    dsimp only
    refine get_update_rowStep _ hrow fun hid => ?_
    split
    · next hlocal => exact .revoked (by rw [hid]) (of_decide_eq_true hlocal)
    · exact .same

/-- A call leaves the table, updates the row of one key or inserts a row. -/
theorem run_hosts (hosts : Hosts) (call : Call) (now : Int) :
    (call.run hosts now).1 = hosts ∨
      (∃ id f hf, (call.run hosts now).1 = hosts.update id f hf) ∨
      ∃ input draw, call.draw = some draw ∧
        (call.run hosts now).1 = (insertEnrolledHost hosts input draw now).1 := by
  cases call with
  | claimHost token input draw =>
    rw [Call.run, claimHost]
    cases hosts.rows.find? (claimable token) with
    | none => exact Or.inl rfl
    | some found =>
      dsimp only
      exact Or.inr (Or.inl ⟨_, _, _, rfl⟩)
  | enrollHost input draw =>
    rw [Call.run, enrollHost]
    split
    · next baseUrl hwants hurl =>
      cases hosts.rows.find? (reusable baseUrl) with
      | none => exact Or.inr (Or.inr ⟨input, draw, rfl, rfl⟩)
      | some found =>
        exact Or.inr (Or.inl ⟨found.id, fun row => (row.enrolled input).issueSession draw now,
          fun _ => rfl, rfl⟩)
    · exact Or.inr (Or.inr ⟨input, draw, rfl, rfl⟩)
  | createPairedHost input draw => exact Or.inr (Or.inr ⟨_, draw, rfl, rfl⟩)
  | reissuePairedIdentity hostId draw =>
    rw [Call.run]
    split
    · next hreissue =>
      rw [reissuePairedIdentity] at hreissue
      split at hreissue
      · cases hreissue
      · split at hreissue
        · cases hreissue
        · split at hreissue
          · cases hreissue
          · cases hreissue
            exact Or.inr (Or.inl ⟨hostId, fun row => (row.reissued draw now).issueSession draw now,
              fun _ => rfl, rfl⟩)
    · exact Or.inl rfl
  | renewMachineCredential hostId presented input draw =>
    rw [Call.run]
    split
    · next hrenew =>
      rw [renewMachineCredential] at hrenew
      split at hrenew
      · cases hrenew
      · repeat' split at hrenew
        all_goals cases hrenew
        · exact Or.inr (Or.inl ⟨hostId, fun row =>
            ((row.renewed input).rotate draw now).issueSession draw now, fun _ => rfl, rfl⟩)
        · exact Or.inr (Or.inl ⟨hostId, fun row =>
            ((row.renewed input).slide now).issueSession draw now, fun _ => rfl, rfl⟩)
    · exact Or.inl rfl
  | checkMachineCredential hostId presented => exact Or.inl rfl
  | rotateSession hostId presented draw =>
    rw [Call.run, rotateSession]
    cases findLiveSession hosts hostId presented now with
    | none => exact Or.inl rfl
    | some found =>
      exact Or.inr (Or.inl ⟨hostId, HostRow.issueSession draw now, fun _ => rfl, rfl⟩)
  | updateHost id input => exact Or.inr (Or.inl ⟨id, HostRow.updated input, fun _ => rfl, rfl⟩)
  | revokeMachineIdentity hostId =>
    refine Or.inr (Or.inl ⟨hostId, fun row =>
      if decide (row.id ≠ localHostId) then row.revoked now else row, fun row => ?_, rfl⟩)
    dsimp only
    split
    · rfl
    · rfl

/-- The row of a host after a call, where it had none. -/
theorem run_get_none {hosts : Hosts} {k : HostId} (hrow : hosts.get k = none) (call : Call)
    (now : Int) {row' : HostRow} (hrow' : (call.run hosts now).1.get k = some row') :
    ∃ input draw, call.draw = some draw ∧ k = draw.hostId ∧
      row' = (enrolledRow input draw).register input draw now := by
  rcases run_hosts hosts call now with h | ⟨id, f, hf, h⟩ | ⟨input, draw, hdraw, h⟩
  · rw [h, hrow] at hrow'
    cases hrow'
  · rw [h, Table.get_update, hrow, Option.map_none, ite_self] at hrow'
    cases hrow'
  · rw [h] at hrow'
    rcases get_insertEnrolledHost hosts input draw now k with
      hsame | ⟨-, hk, hsome⟩
    · rw [hsame, hrow] at hrow'
      cases hrow'
    · rw [hsome] at hrow'
      exact ⟨input, draw, hdraw, hk, (Option.some.inj hrow').symm⟩

/-! ## Which credentials a row has -/

/-- The machine credential is the newest that was issued; the replaced one, while it may be
accepted, is the one before, and `rotated` says since when; a revoked row has neither, nor a
session; the row of the primary never has any. -/
structure RowInv (row : HostRow) : Prop where
  newest : ∀ c, row.machineCredential = some c → row.issued.head? = some c
  replaced : ∀ p r, row.machineCredentialPrev = some p → row.machineCredentialRotatedAt = some r →
    ∃ c rest t, row.machineCredential = some c ∧ row.issued = c :: p :: rest ∧
      row.rotated = some t ∧ r = seconds t
  revoked : row.machineCredentialRevokedAt.isSome →
    row.machineCredential = none ∧ row.sessionId = none
  primary : row.id = localHostId →
    row.machineCredential = none ∧ row.sessionId = none ∧ row.origin ≠ some .enrolled
  nodup : row.issued.Nodup

namespace RowInv

variable {row : HostRow} {draw : Draw} {now : Int}

/-- A session for a row that is neither revoked nor the primary's. -/
theorem issueSession (h : RowInv row) (hlocal : row.id ≠ localHostId)
    (hrevoked : row.machineCredentialRevokedAt = none) : RowInv (row.issueSession draw now) where
  newest := h.newest
  replaced := h.replaced
  revoked hsome := by
    rw [show (row.issueSession draw now).machineCredentialRevokedAt = none from hrevoked] at hsome
    cases hsome
  primary hid := absurd hid hlocal
  nodup := h.nodup

/-- The credential in the grace slot is the one that was current. -/
theorem issueMachineCredential_prev {p : String}
    (hp : (row.issueMachineCredential draw now).machineCredentialPrev = some p) :
    row.machineCredential = some p ∧
      (row.issueMachineCredential draw now).machineCredentialRotatedAt = some (seconds now) ∧
      (row.issueMachineCredential draw now).rotated = some now := by
  let replacesLive := row.machineCredential.isSome && row.machineCredentialRevokedAt.isNone &&
    row.machineCredentialExpiresAt.any fun expiresAt => now < expiresAt * 1000
  have hprev : (row.issueMachineCredential draw now).machineCredentialPrev =
      if replacesLive then row.machineCredential else none := rfl
  have hat : (row.issueMachineCredential draw now).machineCredentialRotatedAt =
      if replacesLive then some (seconds now) else none := rfl
  rw [hprev] at hp
  split at hp
  · next hlive =>
    rw [if_pos hlive] at hat
    have hrotated : (row.issueMachineCredential draw now).rotated =
        if (row.issueMachineCredential draw now).machineCredentialRotatedAt.isSome then some now
        else row.rotated := rfl
    rw [if_pos (by rw [hat]; rfl)] at hrotated
    exact ⟨hp, hat, hrotated⟩
  · cases hp

theorem issueMachineCredential (h : RowInv row) (hlocal : row.id ≠ localHostId)
    (hfresh : draw.credential ∉ row.issued) : RowInv (row.issueMachineCredential draw now) where
  newest c hc := hc
  replaced p r hp hr := by
    obtain ⟨hcurrent, hrotatedAt, hrotated⟩ := issueMachineCredential_prev hp
    obtain ⟨rest, hrest⟩ := List.head?_eq_some_iff.1 (h.newest p hcurrent)
    cases hrotatedAt.symm.trans hr
    exact ⟨draw.credential, rest, now, rfl, by rw [← hrest]; rfl, hrotated, rfl⟩
  revoked hsome := by cases hsome
  primary hid := absurd hid hlocal
  nodup := List.nodup_cons.2 ⟨hfresh, h.nodup⟩

theorem register (h : RowInv row) {input : RegisterAgentInput} (hlocal : row.id ≠ localHostId)
    (hrevoked : row.machineCredentialRevokedAt = none) (hfresh : draw.credential ∉ row.issued) :
    RowInv (row.register input draw now) := by
  rw [HostRow.register]
  split
  · exact (h.issueSession hlocal hrevoked).issueMachineCredential hlocal hfresh
  · exact h.issueSession hlocal hrevoked

end RowInv

/-- A call keeps what holds of a row. -/
theorem RowInv.step {hosts : Hosts} {call : Call} {now : Int} {row row' : HostRow} (h : RowInv row)
    (hfresh : ∀ draw ∈ call.draw, draw.credential ∉ row.issued)
    (hstep : RowStep hosts call now row row') : RowInv row' := by
  cases hstep with
  | same => exact h
  | @claimed token input draw hcall hfind =>
    have hclaimable := List.find?_some hfind
    simp only [claimable, Bool.and_eq_true, decide_eq_true_eq, Option.isNone_iff_eq_none]
      at hclaimable
    have hclaimed : RowInv (row.claimed input) :=
      { h with primary := fun hid => absurd hid hclaimable.1.1 }
    exact hclaimed.register hclaimable.1.1 hclaimable.1.2 (hfresh draw (by rw [hcall]; rfl))
  | @enrolled input draw baseUrl hcall hreusable =>
    simp only [reusable, Bool.and_eq_true, decide_eq_true_eq, Option.isNone_iff_eq_none]
      at hreusable
    have hlocal : row.id ≠ localHostId := fun hid => (h.primary hid).2.2 hreusable.1.1.1
    exact RowInv.issueSession { h with } hlocal hreusable.1.2
  | @reissued draw hcall hlocal hrevoked hissued hrotated =>
    refine RowInv.issueSession ?_ hlocal hrevoked
    exact
      { newest := fun c hc => hc
        replaced := fun p r _ hr => by cases hrotated.symm.trans hr
        revoked := fun hsome => by
          rw [show (row.reissued draw now).machineCredentialRevokedAt = none from hrevoked] at hsome
          cases hsome
        primary := fun hid => absurd hid hlocal
        nodup := List.nodup_cons.2 ⟨hfresh draw (by rw [hcall]; rfl), h.nodup⟩ }
  | @rotated presented input draw hcall hlocal hrevoked hunexpired hcurrent =>
    refine RowInv.issueSession ?_ hlocal hrevoked
    have hhead := h.newest presented hcurrent
    exact
      { newest := fun c hc => hc
        replaced := fun p r hp hr => by
          cases hr
          cases hp.symm.trans hcurrent
          obtain ⟨rest, hrest⟩ := List.head?_eq_some_iff.1 hhead
          exact ⟨draw.credential, rest, now, rfl, by rw [← hrest]; rfl, rfl, rfl⟩
        revoked := fun hsome => by
          rw [show ((row.renewed input).rotate draw now).machineCredentialRevokedAt = none
            from hrevoked] at hsome
          cases hsome
        primary := fun hid => absurd hid hlocal
        nodup := List.nodup_cons.2 ⟨hfresh draw (by rw [hcall]; rfl), h.nodup⟩ }
  | @slid presented input draw hcall hlocal hrevoked hunexpired hissued hprev =>
    refine RowInv.issueSession ?_ hlocal hrevoked
    exact
      { newest := h.newest
        replaced := fun p r hp hr => by
          cases hr
          simp only [HostRow.isPrev, HostRow.prevLive, Bool.and_eq_true, Option.any_eq_true]
            at hprev
          obtain ⟨⟨r, hr, -⟩, -⟩ := hprev
          obtain ⟨c, rest, t, hc, hrest, -, -⟩ := h.replaced p r hp hr
          exact ⟨c, rest, now, hc, hrest, rfl, rfl⟩
        revoked := fun hsome => by
          rw [show ((row.renewed input).slide now).machineCredentialRevokedAt = none
            from hrevoked] at hsome
          cases hsome
        primary := fun hid => absurd hid hlocal
        nodup := h.nodup }
  | @resumed presented draw hcall hsession =>
    apply h.issueSession
    · intro hid
      rw [(h.primary hid).2.1] at hsession
      cases hsession
    · by_contra hne
      rw [(h.revoked (Option.isSome_iff_ne_none.2 hne)).2] at hsession
      cases hsession
  | @updated input hcall =>
    have hsession : row.sessionId = none → (row.updated input).sessionId = none := by
      intro hnone
      dsimp only [HostRow.updated]
      rw [hnone, ite_self]
    exact
      { newest := h.newest
        replaced := h.replaced
        revoked := fun hsome => by
          have hbefore : row.machineCredentialRevokedAt.isSome := by
            dsimp only [HostRow.updated] at hsome
            split at hsome
            · cases hsome
            · exact hsome
          exact ⟨(h.revoked hbefore).1, hsession (h.revoked hbefore).2⟩
        primary := fun hid =>
          ⟨(h.primary hid).1, hsession (h.primary hid).2.1, (h.primary hid).2.2⟩
        nodup := h.nodup }
  | revoked hcall hlocal =>
    exact
      { newest := fun c hc => by cases hc
        replaced := fun p r hp hr => by cases hp
        revoked := fun _ => ⟨rfl, rfl⟩
        primary := fun hid => absurd hid hlocal
        nodup := h.nodup }

/-! ## The table -/

/-- Every row is as it must be. -/
def Inv (hosts : Hosts) : Prop := ∀ k row, hosts.get k = some row → RowInv row

theorem RowInv.unregistered {row : HostRow} (h : row.unregistered) : RowInv row := by
  obtain ⟨hsession, hcurrent, hprev, -, hissued, hlocal⟩ := h
  refine ⟨fun c hc => ?_, fun p r hp => ?_, fun _ => ⟨hcurrent, hsession⟩,
    fun hid => ⟨hcurrent, hsession, hlocal hid⟩, ?_⟩
  · rw [hcurrent] at hc
    cases hc
  · rw [hprev] at hp
    cases hp
  · rw [hissued]
    exact List.nodup_nil

theorem Inv.start {hosts : Hosts} (h : Unregistered hosts) : Inv hosts :=
  fun _ row hrow => .unregistered (h row (Table.get_mem hrow))

/-- A row that an enrollment inserts. -/
theorem RowInv.enrolledRow (input : RegisterAgentInput) {draw : Draw} (now : Int)
    (hlocal : draw.hostId ≠ localHostId) :
    RowInv ((HostIdentity.enrolledRow input draw).register input draw now) := by
  refine RowInv.register (.unregistered ⟨rfl, rfl, rfl, rfl, rfl, ?_⟩) hlocal rfl List.not_mem_nil
  exact fun hid => absurd hid hlocal

theorem Inv.run {hosts : Hosts} {call : Call} {now : Int} (h : Inv hosts)
    (hfresh : ∀ draw ∈ call.draw, Fresh hosts draw) : Inv (call.run hosts now).1 := by
  intro k row' hrow'
  cases hrow : hosts.get k with
  | none =>
    obtain ⟨input, draw, hdraw, -, rfl⟩ := run_get_none hrow call now hrow'
    exact .enrolledRow input now (List.ne_of_not_mem_cons (hfresh draw hdraw).1)
  | some row =>
    obtain ⟨found, hfound, hstep⟩ := run_get_some hrow call now
    cases hrow'.symm.trans hfound
    exact (h k row hrow).step
      (fun draw hdraw => (hfresh draw hdraw).2 row (Table.get_mem hrow)) hstep

/-! ## What is accepted -/

/-- A machine credential opens a check or a renewal. -/
def Accepts (hosts : Hosts) (host : HostId) (presented : String) (now : Int) : Prop :=
  checkMachineCredential hosts host presented now = .ok ∨
    ∃ input draw, (renewMachineCredential hosts host presented input draw now).isSome

/-- What the row says of an accepted credential. -/
structure HostRow.Opens (row : HostRow) (presented : String) (now : Int) : Prop where
  notLocal : row.id ≠ localHostId
  unrevoked : row.machineCredentialRevokedAt = none
  issued : row.machineCredential.isSome
  unexpired : row.unexpired now
  slot : row.isCurrent presented ∨ row.isPrev presented now

theorem opens_of_check {hosts : Hosts} {host : HostId} {presented : String} {now : Int}
    {row : HostRow} (hrow : hosts.get host = some row)
    (h : checkMachineCredential hosts host presented now = .ok) : row.Opens presented now := by
  rw [checkMachineCredential, hrow] at h
  dsimp only at h
  split at h
  · cases h
  next hlocal =>
  split at h
  · cases h
  next hrevoked =>
  split at h
  · cases h
  next hnone =>
  split at h
  · cases h
  next hexpired =>
  split at h
  · next hslot =>
    exact ⟨hlocal, by simpa using hrevoked, by simpa [Option.isSome_iff_ne_none] using hnone,
      by simpa using hexpired, by simpa using hslot⟩
  · cases h

theorem renew_eq {hosts : Hosts} {host : HostId} {row : HostRow} (hrow : hosts.get host = some row)
    (presented : String) (input : RegisterAgentInput) (draw : Draw) (now : Int) :
    (renewMachineCredential hosts host presented input draw now).isSome ↔
      row.Opens presented now := by
  rw [renewMachineCredential, hrow]
  dsimp only
  constructor
  · intro h
    split at h
    · cases h
    next hnone =>
    split at h
    · cases h
    next hrevoked =>
    split at h
    · cases h
    next hexpired =>
    rw [not_or] at hnone
    have hopens : row.isCurrent presented ∨ row.isPrev presented now → row.Opens presented now :=
      fun slot => ⟨hnone.1, by simpa using hrevoked,
        by simpa [Option.isSome_iff_ne_none] using hnone.2, by simpa using hexpired, slot⟩
    split at h
    · next hcurrent => exact hopens (Or.inl hcurrent)
    · split at h
      · next hprev => exact hopens (Or.inr hprev)
      · cases h
  · intro h
    rw [if_neg (by simp [h.notLocal, Option.isSome_iff_ne_none.1 h.issued]),
      if_neg (by simp [h.unrevoked]), if_neg (by simp [h.unexpired])]
    split
    · rfl
    · next hcurrent =>
      rw [if_pos (h.slot.resolve_left hcurrent)]
      rfl

/-- What a renewal hands out is the credential that the row then has. -/
theorem renew_some {hosts hosts' : Hosts} {host : HostId} {presented : String}
    {input : RegisterAgentInput} {draw : Draw} {now : Int} {reply : Registration}
    (h : renewMachineCredential hosts host presented input draw now = some (hosts', reply)) :
    ∃ row row', hosts.get host = some row ∧ row.Opens presented now ∧
      hosts'.get host = some row' ∧ reply.hostId = host ∧ row'.machineCredential.isSome ∧
      reply.machineCredential = row'.machineCredential ∧
      (row.isCurrent presented ∧
          row' = ((row.renewed input).rotate draw now).issueSession draw now ∨
        row.isPrev presented now ∧
          row' = ((row.renewed input).slide now).issueSession draw now) := by
  cases hrow : hosts.get host with
  | none =>
    rw [renewMachineCredential, hrow] at h
    cases h
  | some row =>
    have hopens := (renew_eq hrow presented input draw now).1 (by rw [h]; rfl)
    rw [renewMachineCredential, hrow] at h
    dsimp only at h
    rw [if_neg (by simp [hopens.notLocal, Option.isSome_iff_ne_none.1 hopens.issued]),
      if_neg (by simp [hopens.unrevoked]), if_neg (by simp [hopens.unexpired])] at h
    have hget : ∀ (f : HostRow → HostRow) (hf : ∀ row, (f row).key = row.key),
        (hosts.update host f hf).get host = some (f row) := by
      intro f hf
      rw [Table.get_update_self, hrow]
      rfl
    split at h
    · next hcurrent =>
      cases h
      exact ⟨row, ((row.renewed input).rotate draw now).issueSession draw now, rfl, hopens,
        hget _ _, rfl, rfl, rfl, Or.inl ⟨hcurrent, rfl⟩⟩
    · split at h
      · next hprev =>
        cases h
        exact ⟨row, ((row.renewed input).slide now).issueSession draw now, rfl, hopens,
          hget _ _, rfl, hopens.issued, rfl, Or.inr ⟨hprev, rfl⟩⟩
      · cases h

theorem Accepts.opens {hosts : Hosts} {host : HostId} {presented : String} {now : Int}
    {row : HostRow} (h : Accepts hosts host presented now) (hrow : hosts.get host = some row) :
    row.Opens presented now := by
  rcases h with h | ⟨input, draw, h⟩
  · exact opens_of_check hrow h
  · exact (renew_eq hrow presented input draw now).1 h

/-- At most the newest credential and the one it replaced are accepted, the latter in its grace
period. -/
def Slots (hosts : Hosts) : Prop :=
  ∀ host row presented now, hosts.get host = some row → Accepts hosts host presented now →
    row.issued.head? = some presented ∨
      row.issued[1]? = some presented ∧
        ∃ t, row.rotated = some t ∧ now - t < machineCredentialGraceMs

theorem Inv.slots {hosts : Hosts} (h : Inv hosts) : Slots hosts := by
  intro host row presented now hrow haccepts
  have hinv := h host row hrow
  rcases (haccepts.opens hrow).slot with hcurrent | hprev
  · exact Or.inl (hinv.newest presented (of_decide_eq_true hcurrent))
  · simp only [HostRow.isPrev, HostRow.prevLive, Bool.and_eq_true, Option.any_eq_true,
      decide_eq_true_eq] at hprev
    obtain ⟨⟨r, hr, hgrace⟩, hp⟩ := hprev
    obtain ⟨c, rest, t, -, hissued, hrotated, rfl⟩ := hinv.replaced presented r hp hr
    right
    refine ⟨by rw [hissued]; rfl, t, hrotated, ?_⟩
    -- the column has whole seconds, at or before the time itself
    have : seconds t * 1000 ≤ t := by
      rw [seconds]
      omega
    omega

/-! ## What is closed -/

/-- The row has no credential and no session, and none can be issued for it. -/
structure HostRow.Closed (row : HostRow) : Prop where
  credential : row.machineCredential = none
  session : row.sessionId = none
  shut : row.id = localHostId ∧ row.origin ≠ some .enrolled ∨
    row.machineCredentialRevokedAt.isSome

/-- The call sets a new token for the host. -/
def Call.rearms (host : HostId) : Call → Bool
  | .updateHost id input => id = host && input.token.isSome
  | _ => false

namespace HostRow.Closed

variable {hosts : Hosts} {call : Call} {now : Int} {row row' : HostRow}

/-- Neither revoked nor the primary's. -/
theorem not_open (h : row.Closed) (hlocal : row.id ≠ localHostId)
    (hrevoked : row.machineCredentialRevokedAt = none) : False := by
  rcases h.shut with ⟨hid, -⟩ | hsome
  · exact hlocal hid
  · rw [hrevoked] at hsome
    cases hsome

theorem not_claimable (h : row.Closed) (token : String) : ¬ claimable token row := by
  intro hclaimable
  simp only [claimable, Bool.and_eq_true, decide_eq_true_eq, Option.isNone_iff_eq_none]
    at hclaimable
  exact h.not_open hclaimable.1.1 hclaimable.1.2

theorem not_reusable (h : row.Closed) (baseUrl : String) : ¬ reusable baseUrl row := by
  intro hreusable
  simp only [reusable, Bool.and_eq_true, decide_eq_true_eq, Option.isNone_iff_eq_none]
    at hreusable
  rcases h.shut with ⟨-, horigin⟩ | hsome
  · exact horigin hreusable.1.1.1
  · rw [hreusable.1.2] at hsome
    cases hsome

/-- A closed row stays closed until it gets a new token. -/
theorem step (h : row.Closed) (hstep : RowStep hosts call now row row')
    (hcall : call.rearms row.id = false) : row'.Closed := by
  cases hstep with
  | same => exact h
  | claimed _ hfind => exact absurd (List.find?_some hfind) (h.not_claimable _)
  | enrolled _ hreusable => exact absurd hreusable (h.not_reusable _)
  | reissued _ hlocal hrevoked => exact (h.not_open hlocal hrevoked).elim
  | rotated _ hlocal hrevoked => exact (h.not_open hlocal hrevoked).elim
  | slid _ hlocal hrevoked => exact (h.not_open hlocal hrevoked).elim
  | resumed _ hsession =>
    rw [h.session] at hsession
    cases hsession
  | @updated input hupdate =>
    rw [hupdate, Call.rearms, decide_eq_true rfl, Bool.true_and] at hcall
    refine ⟨h.credential, ?_, ?_⟩
    · dsimp only [HostRow.updated]
      rw [h.session, ite_self]
    · dsimp only [HostRow.updated]
      rw [hcall, if_neg Bool.false_ne_true]
      exact h.shut
  | revoked _ hlocal => exact ⟨rfl, rfl, Or.inr rfl⟩

end HostRow.Closed

/-- Nothing opens the host, and nothing is issued for it. -/
structure Refuses (hosts : Hosts) (host : HostId) : Prop where
  credential : ∀ presented now, ¬ Accepts hosts host presented now
  session : ∀ presented now, findLiveSession hosts host presented now = none
  issued : ∀ (call : Call) now reply, (∀ draw ∈ call.draw, Fresh hosts draw) →
    (call.run hosts now).2 = some reply → reply.hostId ≠ host

/-- What a call hands out is for a new host or for one that is not closed. -/
theorem run_reply {hosts : Hosts} {call : Call} {now : Int} {reply : Registration}
    (h : (call.run hosts now).2 = some reply) :
    (∃ draw ∈ call.draw, reply.hostId = draw.hostId) ∨
      ∃ row, hosts.get reply.hostId = some row ∧ ¬ row.Closed := by
  cases call with
  | claimHost token input draw =>
    rw [Call.run, claimHost] at h
    cases hfind : hosts.rows.find? (claimable token) with
    | none =>
      rw [hfind] at h
      cases h
    | some found =>
      rw [hfind] at h
      cases h
      exact Or.inr ⟨found, get_of_find hfind, fun hclosed =>
        hclosed.not_claimable token (List.find?_some hfind)⟩
  | enrollHost input draw =>
    rw [Call.run, enrollHost] at h
    split at h
    · next baseUrl hwants hurl =>
      cases hfind : hosts.rows.find? (reusable baseUrl) with
      | none =>
        rw [hfind] at h
        cases h
        exact Or.inl ⟨draw, rfl, rfl⟩
      | some found =>
        rw [hfind] at h
        cases h
        exact Or.inr ⟨found, get_of_find hfind, fun hclosed =>
          hclosed.not_reusable baseUrl (List.find?_some hfind)⟩
    · cases h
      exact Or.inl ⟨draw, rfl, rfl⟩
  | createPairedHost input draw =>
    cases h
    exact Or.inl ⟨draw, rfl, rfl⟩
  | reissuePairedIdentity hostId draw =>
    rw [Call.run] at h
    split at h
    · next hosts' reply' hreissue =>
      cases h
      rw [reissuePairedIdentity] at hreissue
      cases hget : hosts.get hostId with
      | none =>
        rw [hget] at hreissue
        cases hreissue
      | some found =>
        rw [hget] at hreissue
        dsimp only at hreissue
        split at hreissue
        · cases hreissue
        next hopen =>
        split at hreissue
        · cases hreissue
        · cases hreissue
          refine Or.inr ⟨found, hget, fun hclosed => ?_⟩
          rw [not_or] at hopen
          exact hclosed.not_open hopen.1 (by simpa using hopen.2)
    · cases h
  | renewMachineCredential hostId presented input draw =>
    rw [Call.run] at h
    split at h
    · next hosts' reply' hrenew =>
      cases h
      obtain ⟨row, row', hrow, hopens, -, rfl, -⟩ := renew_some hrenew
      exact Or.inr ⟨row, hrow, fun hclosed => hclosed.not_open hopens.notLocal hopens.unrevoked⟩
    · cases h
  | checkMachineCredential hostId presented => cases h
  | rotateSession hostId presented draw =>
    rw [Call.run, rotateSession] at h
    cases hfind : findLiveSession hosts hostId presented now with
    | none =>
      rw [hfind] at h
      cases h
    | some found =>
      rw [hfind] at h
      cases h
      rw [findLiveSession, Option.filter_eq_some_iff] at hfind
      refine Or.inr ⟨found, hfind.1, fun hclosed => ?_⟩
      simp [hclosed.session] at hfind
  | updateHost id input => cases h
  | revokeMachineIdentity hostId => cases h

theorem HostRow.Closed.refuses {hosts : Hosts} {host : HostId} {row : HostRow} (h : row.Closed)
    (hrow : hosts.get host = some row) : Refuses hosts host where
  credential presented now haccepts := by
    have hopens := haccepts.opens hrow
    exact h.not_open hopens.notLocal hopens.unrevoked
  session presented now := by
    rw [findLiveSession, hrow]
    simp [h.session]
  issued call now reply hfresh hreply := by
    rintro rfl
    rcases run_reply hreply with ⟨draw, hdraw, hid⟩ | ⟨found, hfound, hopen⟩
    · apply (hfresh draw hdraw).1
      rw [← hid]
      exact List.mem_cons_of_mem _ (Table.mem_keys_iff.2 ⟨row, hrow⟩)
    · rw [hrow] at hfound
      cases hfound
      exact hopen h

/-- The host has a closed row. -/
def Shut (host : HostId) (s : State) : Prop := ∃ row, s.hosts.get host = some row ∧ row.Closed

theorem step_run {s s' : State} {label : Call × Int} (h : step s label = some s') :
    s.now ≤ label.2 ∧ (∀ draw ∈ label.1.draw, Fresh s.hosts draw) ∧
      s' = ⟨(label.1.run s.hosts label.2).1, label.2⟩ := by
  rw [step] at h
  split at h
  · cases h
  · next hok =>
    cases h
    rw [not_or, not_not, not_lt] at hok
    exact ⟨hok.1, hok.2, rfl⟩

theorem Shut.step {host : HostId} {s s' : State} {label : Call × Int} (h : Shut host s)
    (hstep : step s label = some s') (hlabel : label.1.rearms host = false) : Shut host s' := by
  obtain ⟨-, -, rfl⟩ := step_run hstep
  obtain ⟨row, hrow, hclosed⟩ := h
  obtain ⟨row', hrow', hrowStep⟩ := run_get_some hrow label.1 label.2
  have hid : row.key = host := Table.get_key hrow
  exact ⟨row', hrow', hclosed.step hrowStep (by rw [← hid] at hlabel; exact hlabel)⟩

/-- A revocation closes the row of the host. -/
theorem Inv.shut_revoked {hosts : Hosts} (h : Inv hosts) {host : HostId}
    (hhost : host ∈ hosts.keys) (now : Int) :
    Shut host ⟨(Call.run hosts now (.revokeMachineIdentity host)).1, now⟩ := by
  obtain ⟨row, hrow⟩ := Table.mem_keys_iff.1 hhost
  refine ⟨if row.id ≠ localHostId then row.revoked now else row, ?_, ?_⟩
  · change (revokeMachineIdentity hosts host now).get host = _
    rw [revokeMachineIdentity, Table.get_updateIf, hrow]
    simp
  · by_cases hlocal : row.id = localHostId
    · rw [if_neg (not_not.2 hlocal)]
      obtain ⟨hcurrent, hsession, horigin⟩ := (h host row hrow).primary hlocal
      exact ⟨hcurrent, hsession, Or.inl ⟨hlocal, horigin⟩⟩
    · rw [if_pos hlocal]
      exact ⟨rfl, rfl, Or.inr rfl⟩

/-! ## One agent that renews -/

/-- The table, and an agent that renews the credential of one host: what it holds, what it has
sent, which may arrive any number of times, and the replies, any of which may be lost. -/
structure World where
  hosts : Hosts
  now : Int
  held : String
  sent : List String
  replies : List String

/-- What a renewal with `held` leaves. -/
def World.start (s : State) (held : String) (reply : Registration) : World :=
  ⟨s.hosts, s.now, held, [held], reply.machineCredential.toList⟩

inductive World.Label
  /-- A call that is not the agent's renewal. -/
  | call (call : Call) (now : Int)
  /-- The agent sends a renewal. -/
  | send
  /-- A renewal that was sent arrives. -/
  | deliver (presented : String) (input : RegisterAgentInput) (draw : Draw) (now : Int)
  /-- A reply arrives. -/
  | take (credential : String)

/-- The credentials issued for the host, the newest first. -/
def issuedFor (hosts : Hosts) (host : HostId) : List String :=
  ((hosts.get host).map HostRow.issued).getD []

/-- The newer of two credentials. -/
def newer (issued : List String) (held received : String) : String :=
  if issued.idxOf received < issued.idxOf held then received else held

namespace World

def step (host : HostId) (w : World) : Label → Option World
  | .call call now =>
    (HostIdentity.step ⟨w.hosts, w.now⟩ (call, now)).map fun s =>
      { w with hosts := s.hosts, now := s.now }
  | .send => some { w with sent := w.held :: w.sent }
  | .deliver presented input draw now =>
    if presented ∈ w.sent then
      let renewal := Call.renewMachineCredential host presented input draw
      let credential := (renewal.run w.hosts now).2.bind Registration.machineCredential
      (HostIdentity.step ⟨w.hosts, w.now⟩ (renewal, now)).map fun s =>
        { w with hosts := s.hosts, now := s.now, replies := credential.toList ++ w.replies }
    else none
  | .take credential =>
    if credential ∈ w.replies then
      some { w with held := newer (issuedFor w.hosts host) w.held credential }
    else none

/-- The agent holds the current credential, which has not expired. -/
def Current (host : HostId) (w : World) (now : Int) : Prop :=
  ∃ row, w.hosts.get host = some row ∧ row.machineCredential = some w.held ∧ row.unexpired now

/-- The host is not revoked, nobody else renews with its credentials, and a claim of the host
issues a credential only while the agent holds the current one. -/
def Alone (host : HostId) (w : World) : Label → Prop
  | .call (.revokeMachineIdentity id) _ => id ≠ host
  | .call (.renewMachineCredential id presented input draw) now =>
    id = host → renewMachineCredential w.hosts id presented input draw now = none
  | .call (.claimHost token input _) now =>
    input.wantsMachineCredential → (∃ row, w.hosts.rows.find? (claimable token) = some row ∧
      row.id = host) → w.Current host now
  | _ => True

/-- Whenever the agent retries in the grace period and before expiry, as the columns count them,
it is accepted, and the reply has the current credential. -/
def Converges (host : HostId) (w : World) : Prop :=
  ∃ row t expiresAt, w.hosts.get host = some row ∧ row.rotated = some t ∧
    row.machineCredentialExpiresAt = some expiresAt ∧
    ∀ now input draw, now < seconds t * 1000 + machineCredentialGraceMs → now < expiresAt * 1000 →
      ∃ hosts' reply row',
        renewMachineCredential w.hosts host w.held input draw now = some (hosts', reply) ∧
        hosts'.get host = some row' ∧ row'.machineCredential.isSome ∧
        reply.machineCredential = row'.machineCredential

end World

/-- A row after a renewal: the current credential, the one it replaced, and those before. -/
structure HostRow.Renewed (row : HostRow) (c p : String) (rest : List String) : Prop where
  notLocal : row.id ≠ localHostId
  unrevoked : row.machineCredentialRevokedAt = none
  current : row.machineCredential = some c
  prev : row.machineCredentialPrev = some p
  rotatedAt : row.machineCredentialRotatedAt.isSome
  expiresAt : row.machineCredentialExpiresAt.isSome
  issued : row.issued = c :: p :: rest

section Renewed

variable {hosts : Hosts} {call : Call} {now : Int} {row row' : HostRow} {c p : String}
  {rest : List String}

/-- A credential issued by a claim replaces the current one, unless that has expired. -/
theorem HostRow.Renewed.claimed (h : row.Renewed c p rest) {input : RegisterAgentInput}
    (draw : Draw) (hwants : input.wantsMachineCredential) (hunexpired : row.unexpired now) :
    ((row.claimed input).register input draw now).Renewed draw.credential c (p :: rest) := by
  rw [HostRow.register, if_pos hwants]
  have hlive : ((row.claimed input).issueSession draw now).machineCredential.isSome &&
      ((row.claimed input).issueSession draw now).machineCredentialRevokedAt.isNone &&
      (((row.claimed input).issueSession draw now).machineCredentialExpiresAt.any fun expiresAt =>
        now < expiresAt * 1000) := by
    change row.machineCredential.isSome && row.machineCredentialRevokedAt.isNone &&
      row.unexpired now
    rw [h.current, h.unrevoked, hunexpired]
    rfl
  refine ⟨h.notLocal, rfl, rfl, ?_, ?_, rfl, ?_⟩
  · exact (if_pos hlive).trans h.current
  · change (if _ then some (seconds now) else none).isSome
    rw [if_pos hlive]
    rfl
  · exact congrArg (draw.credential :: ·) h.issued

/-- What a call does to a row after a renewal. -/
theorem HostRow.Renewed.step (h : row.Renewed c p rest) (hstep : RowStep hosts call now row row') :
    row'.Renewed c p rest ∨
      (∃ input draw, call = .renewMachineCredential row.id c input draw ∧ row.unexpired now ∧
        row'.Renewed draw.credential c (p :: rest)) ∨
      (∃ token input draw, call = .claimHost token input draw ∧ input.wantsMachineCredential ∧
        hosts.rows.find? (claimable token) = some row ∧
        (row.unexpired now → row'.Renewed draw.credential c (p :: rest))) ∨
      call = .revokeMachineIdentity row.id := by
  cases hstep with
  | same => exact Or.inl h
  | @claimed token input draw hcall hfind =>
    by_cases hwants : input.wantsMachineCredential
    · exact Or.inr (Or.inr (Or.inl ⟨token, input, draw, hcall, hwants, hfind,
        h.claimed draw hwants⟩))
    · left
      rw [HostRow.register, if_neg hwants]
      exact { h with }
  | enrolled _ hreusable =>
    simp [reusable, h.current] at hreusable
  | reissued _ _ _ _ hrotated =>
    have hsome := h.rotatedAt
    rw [hrotated] at hsome
    cases hsome
  | @rotated presented input draw hcall _ _ hunexpired hcurrent =>
    cases hcurrent.symm.trans h.current
    exact Or.inr (Or.inl ⟨input, draw, hcall, hunexpired,
      h.notLocal, h.unrevoked, rfl, h.current, rfl, rfl, congrArg (draw.credential :: ·) h.issued⟩)
  | slid =>
    exact Or.inl ⟨h.notLocal, h.unrevoked, h.current, h.prev, rfl, rfl, h.issued⟩
  | resumed => exact Or.inl { h with }
  | updated =>
    left
    refine { h with unrevoked := ?_ }
    dsimp only [HostRow.updated]
    rw [h.unrevoked, ite_self]
  | revoked hcall => exact Or.inr (Or.inr (Or.inr hcall))

end Renewed

/-- The agent holds the current credential or the one it replaced, and no renewal with a current
credential that it does not hold is on the way. -/
structure Settled (host : HostId) (w : World) : Prop where
  inv : Inv w.hosts
  slots : ∃ row c p rest, w.hosts.get host = some row ∧ row.Renewed c p rest ∧
    (w.held = c ∨ w.held = p) ∧ (c ∈ w.sent → w.held = c) ∧ ∀ x ∈ w.sent, x ∈ row.issued

theorem newer_eq {c p : String} {rest : List String} (hnodup : (c :: p :: rest).Nodup)
    {held : String} (hheld : held = c ∨ held = p) (received : String) :
    newer (c :: p :: rest) held received = c ∨ newer (c :: p :: rest) held received = held := by
  rw [newer]
  split
  · next hlt =>
    left
    have hle : (c :: p :: rest).idxOf held ≤ 1 := by
      rcases hheld with rfl | rfl
      · simp
      · rw [List.idxOf_cons_ne _ (by rintro rfl; simp at hnodup), List.idxOf_cons_self]
    have hzero : (c :: p :: rest).idxOf received = 0 := by omega
    by_contra hne
    rw [List.idxOf_cons_ne _ (Ne.symm hne)] at hzero
    cases hzero
  · exact Or.inr rfl

namespace Settled

variable {host : HostId} {w w' : World}

/-- A new credential has replaced the one that the agent holds. -/
theorem replaced {hosts : Hosts} (hinv : Inv hosts) {now : Int} {sent replies : List String}
    {held : String} {row : HostRow} {d : String} {rest : List String}
    (hrow : hosts.get host = some row) (h : row.Renewed d held rest)
    (hsent : ∀ x ∈ sent, x ∈ held :: rest) : Settled host ⟨hosts, now, held, sent, replies⟩ := by
  refine ⟨hinv, row, d, held, rest, hrow, h, Or.inr rfl, fun hd => ?_, fun x hx => ?_⟩
  · have hnodup := (hinv host row hrow).nodup
    rw [h.issued, List.nodup_cons] at hnodup
    exact absurd (hsent d hd) hnodup.1
  · rw [h.issued]
    exact List.mem_cons_of_mem _ (hsent x hx)

theorem start {s s₁ : State} (hinv : Inv s.hosts) {held : String} {input : RegisterAgentInput}
    {draw : Draw} {now : Int} {reply : Registration}
    (hstep : HostIdentity.step s (.renewMachineCredential host held input draw, now) = some s₁)
    (hreply : ((Call.renewMachineCredential host held input draw).run s.hosts now).2 =
      some reply) : Settled host (.start s₁ held reply) := by
  obtain ⟨-, hfresh, rfl⟩ := step_run hstep
  have hinv' : Inv ((Call.renewMachineCredential host held input draw).run s.hosts now).1 :=
    hinv.run hfresh
  rw [World.start]
  revert hinv'
  rw [Call.run] at hreply ⊢
  cases hrenew : renewMachineCredential s.hosts host held input draw now with
  | none =>
    rw [hrenew] at hreply
    cases hreply
  | some renewal =>
    obtain ⟨hosts', reply'⟩ := renewal
    intro hinv'
    obtain ⟨row, row', hrow, hopens, hrow', -, -, -, hshape⟩ := renew_some hrenew
    have hinvRow := hinv host row hrow
    rcases hshape with ⟨hcurrent, rfl⟩ | ⟨hprev, rfl⟩
    · have hheld := of_decide_eq_true hcurrent
      obtain ⟨rest, hrest⟩ := List.head?_eq_some_iff.1 (hinvRow.newest held hheld)
      refine replaced hinv' hrow' ⟨hopens.notLocal, hopens.unrevoked, rfl, hheld, rfl, rfl,
        congrArg (draw.credential :: ·) hrest⟩ fun x hx => ?_
      rw [List.mem_singleton.1 hx]
      exact List.mem_cons_self
    · simp only [HostRow.isPrev, HostRow.prevLive, Bool.and_eq_true, Option.any_eq_true,
        decide_eq_true_eq] at hprev
      obtain ⟨⟨r, hr, -⟩, hheld⟩ := hprev
      obtain ⟨c, rest, t, hc, hissued, -, -⟩ := hinvRow.replaced held r hheld hr
      refine replaced hinv' hrow' ⟨hopens.notLocal, hopens.unrevoked, hc, hheld, rfl, rfl,
        hissued⟩ fun x hx => ?_
      rw [List.mem_singleton.1 hx]
      exact List.mem_cons_self

/-- A call that is not a renewal of the agent. -/
theorem call (h : Settled host w) {call : Call} {now : Int}
    (halone : w.Alone host (.call call now))
    (hstep : w.step host (.call call now) = some w') : Settled host w' := by
  rw [World.step, Option.map_eq_some_iff] at hstep
  obtain ⟨s, hs, rfl⟩ := hstep
  obtain ⟨-, hfresh, rfl⟩ := step_run hs
  obtain ⟨hinv, row, c, p, rest, hrow, hrenewed, hheld, hcurrent, hsent⟩ := h
  have hinv' : Inv (call.run w.hosts now).1 := hinv.run hfresh
  obtain ⟨row', hrow', hrowStep⟩ := run_get_some hrow call now
  have hid : row.key = host := Table.get_key hrow
  rcases hrenewed.step hrowStep with hsame | ⟨input, draw, rfl, hunexpired, -⟩ |
    ⟨token, input, draw, rfl, hwants, hfind, hclaimed⟩ | rfl
  · refine ⟨hinv', row', c, p, rest, hrow', hsame, hheld, hcurrent, fun x hx => ?_⟩
    rw [hsame.issued, ← hrenewed.issued]
    exact hsent x hx
  · -- somebody else's renewal is refused
    have hnone := halone hid
    have hget : w.hosts.get row.id = some row := by
      rw [← hid] at hrow
      exact hrow
    have hsome := (renew_eq hget c input draw now).2 ⟨hrenewed.notLocal, hrenewed.unrevoked,
      by rw [hrenewed.current]; rfl, hunexpired, Or.inl (decide_eq_true hrenewed.current)⟩
    rw [hnone] at hsome
    cases hsome
  · obtain ⟨found, hfound, hheldCurrent, hunexpired⟩ := halone hwants ⟨row, hfind, hid⟩
    cases hrow.symm.trans hfound
    cases hrenewed.current.symm.trans hheldCurrent
    refine replaced hinv' hrow' (hclaimed hunexpired) fun x hx => ?_
    rw [← hrenewed.issued]
    exact hsent x hx
  · exact absurd hid halone

/-- A renewal that the agent has sent. -/
theorem deliver (h : Settled host w) {presented : String} {input : RegisterAgentInput}
    {draw : Draw} {now : Int}
    (hstep : w.step host (.deliver presented input draw now) = some w') : Settled host w' := by
  rw [World.step] at hstep
  split at hstep
  · next hpresented =>
    rw [Option.map_eq_some_iff] at hstep
    obtain ⟨s, hs, rfl⟩ := hstep
    obtain ⟨-, hfresh, rfl⟩ := step_run hs
    obtain ⟨hinv, row, c, p, rest, hrow, hrenewed, hheld, hcurrent, hsent⟩ := h
    have hinv' : Inv ((Call.renewMachineCredential host presented input draw).run w.hosts now).1 :=
      hinv.run hfresh
    obtain ⟨row', hrow', hrowStep⟩ := run_get_some hrow
      (.renewMachineCredential host presented input draw) now
    rcases hrenewed.step hrowStep with hsame | ⟨input, draw, heq, -, hrotated⟩ |
      ⟨token, input, draw, heq, -⟩ | heq
    · refine ⟨hinv', row', c, p, rest, hrow', hsame, hheld, hcurrent, fun x hx => ?_⟩
      rw [hsame.issued, ← hrenewed.issued]
      exact hsent x hx
    · cases heq
      -- the credential was current, so the agent holds it
      have hheld := hcurrent hpresented
      subst hheld
      refine replaced hinv' hrow' hrotated fun x hx => ?_
      rw [← hrenewed.issued]
      exact hsent x hx
    · cases heq
    · cases heq
  · cases hstep

theorem step (h : Settled host w) {label : World.Label} (halone : w.Alone host label)
    (hstep : w.step host label = some w') : Settled host w' := by
  cases label with
  | call call now => exact h.call halone hstep
  | send =>
    cases hstep
    obtain ⟨hinv, row, c, p, rest, hrow, hrenewed, hheld, hcurrent, hsent⟩ := h
    refine ⟨hinv, row, c, p, rest, hrow, hrenewed, hheld, fun hc => ?_, fun x hx => ?_⟩
    · rcases List.mem_cons.1 hc with hc | hc
      · exact hc.symm
      · exact hcurrent hc
    · rcases List.mem_cons.1 hx with rfl | hx
      · rw [hrenewed.issued]
        rcases hheld with hheld | hheld
        · simp [hheld]
        · simp [hheld]
      · exact hsent x hx
  | deliver presented input draw now => exact h.deliver hstep
  | take credential =>
    rw [World.step] at hstep
    split at hstep
    · cases hstep
      obtain ⟨hinv, row, c, p, rest, hrow, hrenewed, hheld, hcurrent, hsent⟩ := h
      have hissued : issuedFor w.hosts host = c :: p :: rest := by
        rw [issuedFor, hrow]
        exact hrenewed.issued
      have hnodup := (hinv host row hrow).nodup
      rw [hrenewed.issued] at hnodup
      have hnewer := newer_eq hnodup hheld credential
      rw [← hissued] at hnewer
      refine ⟨hinv, row, c, p, rest, hrow, hrenewed, ?_, fun hc => ?_, hsent⟩
      · rcases hnewer with hnewer | hnewer
        · exact Or.inl hnewer
        · exact hheld.imp hnewer.trans hnewer.trans
      · rcases hnewer with hnewer | hnewer
        · exact hnewer
        · exact hnewer.trans (hcurrent hc)
    · cases hstep

/-- The agent is accepted when it retries in time. -/
theorem converges (h : Settled host w) : w.Converges host := by
  obtain ⟨hinv, row, c, p, rest, hrow, hrenewed, hheld, -⟩ := h
  obtain ⟨r, hr⟩ := Option.isSome_iff_exists.1 hrenewed.rotatedAt
  obtain ⟨e, he⟩ := Option.isSome_iff_exists.1 hrenewed.expiresAt
  obtain ⟨-, -, t, -, -, hrotated, rfl⟩ := (hinv host row hrow).replaced p r hrenewed.prev hr
  refine ⟨row, t, e, hrow, hrotated, he, fun now input draw hgrace hunexpired => ?_⟩
  have hopens : row.Opens w.held now := by
    refine ⟨hrenewed.notLocal, hrenewed.unrevoked, by rw [hrenewed.current]; rfl, ?_, ?_⟩
    · rw [HostRow.unexpired, he]
      exact decide_eq_true hunexpired
    · rcases hheld with hheld | hheld
      · left
        rw [hheld]
        exact decide_eq_true hrenewed.current
      · right
        rw [HostRow.isPrev, HostRow.prevLive, hr, hrenewed.prev, hheld]
        simp only [Option.any_some, decide_true, Bool.and_true, decide_eq_true_eq]
        omega
  obtain ⟨⟨hosts', reply⟩, hrenew⟩ :=
    Option.isSome_iff_exists.1 ((renew_eq hrow w.held input draw now).2 hopens)
  obtain ⟨-, row', -, -, hrow', -, hsome, hreply, -⟩ := renew_some hrenew
  exact ⟨hosts', reply, row', hrenew, hrow', hsome, hreply⟩

end Settled

/-! ## Every run -/

theorem Inv.play {s s' : State} {labels : List (Call × Int)} (h : Inv s.hosts)
    (hplay : Run.play step s labels = some s') : Inv s'.hosts := by
  have halong : Run.Along step (fun s : State => Inv s.hosts) s labels := by
    refine Run.along_of_invariant (I := fun s : State => Inv s.hosts) (C := fun _ _ => True) ?_
      (fun _ => id) h (.of_forall (fun _ _ => trivial) _ _)
    intro s label s' hinv _ hstep
    obtain ⟨-, hfresh, rfl⟩ := step_run hstep
    exact hinv.run hfresh
  exact halong.last hplay

/-- After a revocation nothing opens the host until it gets a new token. -/
theorem Inv.revoked_for_good {s s₁ : State} (h : Inv s.hosts) {host : HostId}
    (hhost : host ∈ s.hosts.keys) {now : Int}
    (hstep : step s (.revokeMachineIdentity host, now) = some s₁) {labels : List (Call × Int)}
    (hlabels : ∀ label ∈ labels, label.1.rearms host = false) :
    Run.Along step (fun s => Refuses s.hosts host) s₁ labels := by
  obtain ⟨-, -, rfl⟩ := step_run hstep
  refine Run.along_of_invariant (I := Shut host) (C := fun _ label => label.1.rearms host = false)
    (fun s label s' hshut hlabel hstep => hshut.step hstep hlabel) ?_ (h.shut_revoked hhost now)
    (.of_forall_mem (fun label hlabel _ => hlabels label hlabel) _)
  rintro s ⟨row, hrow, hclosed⟩
  exact hclosed.refuses hrow

/-- **Revocation is final, and renewals converge.** In every run: after a revocation nothing opens
the host and nothing is issued for it until it gets a new token; at most the newest machine
credential and the one it replaced are accepted, the latter in its grace period; and after a
renewal an agent that alone renews is accepted whenever it retries in time, and is handed the
current credential. -/
theorem revoked_for_good_and_convergent (hosts : Hosts) (start : Int) (hstart : Unregistered hosts)
    (calls : List (Call × Int)) (s : State) (hs : Run.play step ⟨hosts, start⟩ calls = some s) :
    (∀ host ∈ s.hosts.keys, ∀ now s₁, step s (.revokeMachineIdentity host, now) = some s₁ →
      ∀ labels : List (Call × Int), (∀ label ∈ labels, label.1.rearms host = false) →
        Run.Along step (fun s => Refuses s.hosts host) s₁ labels) ∧
    Slots s.hosts ∧
    (∀ host held input draw now s₁ reply,
      step s (.renewMachineCredential host held input draw, now) = some s₁ →
      ((Call.renewMachineCredential host held input draw).run s.hosts now).2 = some reply →
      ∀ labels, Run.Meets (World.step host) (World.Alone host) (.start s₁ held reply) labels →
        Run.Along (World.step host) (World.Converges host) (.start s₁ held reply) labels) := by
  have hinv : Inv s.hosts := (Inv.start hstart).play hs
  refine ⟨fun host hhost now s₁ hstep labels hlabels => hinv.revoked_for_good hhost hstep hlabels,
    hinv.slots, fun host held input draw now s₁ reply hstep hreply labels hmeets => ?_⟩
  exact Run.along_of_invariant (fun w label w' h halone hw => h.step halone hw)
    (fun w h => h.converges) (Settled.start hinv hstep hreply) hmeets

/-- An enrolled agent renews, loses the reply and tries again. -/
theorem lost_reply_converges :
    ∃ s s₁ reply,
      Run.play step ⟨Table.empty, 0⟩
        [(.enrollHost { hostname := "box", wantsMachineCredential := true }
          ⟨"h1", "s0", "k0", "c0"⟩, 0)] = some s ∧
      step s (.renewMachineCredential "h1" "c0" { hostname := "box" } ⟨"u1", "s1", "k1", "c1"⟩,
        1000) = some s₁ ∧
      ((Call.renewMachineCredential "h1" "c0" { hostname := "box" } ⟨"u1", "s1", "k1", "c1"⟩).run
        s.hosts 1000).2 = some reply ∧
      Run.Along (World.step "h1") (World.Converges "h1") (.start s₁ "c0" reply)
        [.send, .deliver "c0" { hostname := "box" } ⟨"u2", "s2", "k2", "c2"⟩ 2000, .take "c1"] := by
  refine ⟨_, _, _, rfl, rfl, rfl, ?_⟩
  have hempty : Unregistered Table.empty := by
    intro row hrow
    cases hrow
  have hrun := revoked_for_good_and_convergent Table.empty 0 hempty
    [(.enrollHost { hostname := "box", wantsMachineCredential := true }
      ⟨"h1", "s0", "k0", "c0"⟩, 0)] _ rfl
  exact hrun.2.2 "h1" "c0" _ _ 1000 _ _ rfl rfl _ ⟨trivial, trivial, trivial, trivial⟩

/-- A retry in the last half second of the grace period is refused, for the column has whole
seconds; and so is one after two claims of the host that the agent knows nothing of. -/
theorem retry_refused :
    (∃ s, Run.play step ⟨Table.empty, 0⟩
        [(.enrollHost { hostname := "box", wantsMachineCredential := true }
            ⟨"h1", "s0", "k0", "c0"⟩, 0),
          (.renewMachineCredential "h1" "c0" { hostname := "box" } ⟨"u1", "s1", "k1", "c1"⟩, 999)] =
        some s ∧
      86400500 - 999 < machineCredentialGraceMs ∧ 86400500 - 999 < machineCredentialTtlMs ∧
      renewMachineCredential s.hosts "h1" "c0" { hostname := "box" } ⟨"u2", "s2", "k2", "c2"⟩
        86400500 = none) ∧
    ∃ s, Run.play step ⟨Table.insert Table.empty
          { id := "h1", name := "box", baseUrl := none, hostname := "box", capabilities := none,
            platform := none, authToken := some "t" }, 0⟩
        [(.claimHost "t" { hostname := "box", wantsMachineCredential := true }
            ⟨"u0", "s0", "k0", "c0"⟩, 0),
          (.renewMachineCredential "h1" "c0" { hostname := "box" } ⟨"u1", "s1", "k1", "c1"⟩, 1000),
          (.claimHost "t" { hostname := "other", wantsMachineCredential := true }
            ⟨"u2", "s2", "k2", "c2"⟩, 2000),
          (.claimHost "t" { hostname := "other", wantsMachineCredential := true }
            ⟨"u3", "s3", "k3", "c3"⟩, 3000)] = some s ∧
      renewMachineCredential s.hosts "h1" "c1" { hostname := "box" } ⟨"u4", "s4", "k4", "c4"⟩
        4000 = none := by
  refine ⟨⟨_, rfl, by decide, by decide, by decide⟩, _, rfl, by decide⟩

end HostIdentity
end Mullion
