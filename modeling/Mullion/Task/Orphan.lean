import Mullion.Lib.Run
import Mullion.Task.Reseed

/-!
# No orphan worker, no overwritten decision

What the last write of a dispatch, of a retry and of a re-seed does to a task that others write
meanwhile. Every session that a call spawns should end bound to its task or killed, and no call
should overwrite what another writer has decided.

A call works on a task over several segments, and in between the task may have gone through any
number of statuses and even come back. So a row has a spell, a number that grows with each decision,
and a call has the spell in which it reserved the task (`Call.reservation`, `held`). What every
segment keeps is `Evolves`: rows stay, a spell only grows, and a row of the same spell has the same
status. The last write of a call is `finalWrite`, of one of three kinds, and each has one lemma that
says what it does where its guard lets it through (`release_exact`, `commit_exact`, `adopt_exact`).
A write that lands in the call's own spell respects what others decided. One that lands in another
spell does not, and a commit that asks for the id of the task alone does nothing against it
(`decision_overwritten`). `no_orphan_iff` has both promises along a run exactly when each last write
that lands finds the task in the call's own spell.
-/

namespace Mullion
namespace Claim

/-! ## What a segment keeps -/

/-- What a segment keeps of the task rows. -/
structure Evolves (db db' : Db) : Prop where
  keys : db'.tasks.keys = db.tasks.keys
  next : db.nextSessionId ≤ db'.nextSessionId
  spell : ∀ t a a', db.tasks.get t = some a → db'.tasks.get t = some a' → a.spell ≤ a'.spell
  status : ∀ t a a', db.tasks.get t = some a → db'.tasks.get t = some a' → a'.spell = a.spell →
    a'.status = a.status
  session : ∀ t a a' x, db.tasks.get t = some a → db'.tasks.get t = some a' →
    a'.sessionId = some x → a.sessionId = some x ∨ x < db'.nextSessionId

/-- A segment that adds no session. -/
structure Quiet (db db' : Db) : Prop extends Evolves db db' where
  sessions : db'.sessions.keys = db.sessions.keys

/-- A row that is there stays there. -/
theorem Evolves.get {db db' : Db} (h : Evolves db db') {t : Nat} {a : Task}
    (ha : db.tasks.get t = some a) : ∃ a', db'.tasks.get t = some a' := by
  have hmem : t ∈ db.tasks.keys := Table.mem_keys_iff.2 ⟨a, ha⟩
  rw [← h.keys] at hmem
  exact Table.mem_keys_iff.1 hmem

/-- A row was there before. -/
theorem Evolves.get_before {db db' : Db} (h : Evolves db db') {t : Nat} {a' : Task}
    (ha' : db'.tasks.get t = some a') : ∃ a, db.tasks.get t = some a := by
  have hmem : t ∈ db'.tasks.keys := Table.mem_keys_iff.2 ⟨a', ha'⟩
  rw [h.keys] at hmem
  exact Table.mem_keys_iff.1 hmem

/-- The same tasks. -/
theorem Evolves.of_tasks {db db' : Db} (h : db'.tasks = db.tasks)
    (hn : db.nextSessionId ≤ db'.nextSessionId) : Evolves db db' := by
  refine ⟨by rw [h], hn, ?_, ?_, ?_⟩
  · intro t a a' ha ha'
    rw [h, ha] at ha'
    cases ha'
    exact le_refl _
  · intro t a a' ha ha' _
    rw [h, ha] at ha'
    cases ha'
    rfl
  · intro t a a' x ha ha' hx
    rw [h, ha] at ha'
    cases ha'
    exact Or.inl hx

theorem Quiet.refl (db : Db) : Quiet db db := ⟨.of_tasks rfl (le_refl _), rfl⟩

theorem Evolves.trans {db db' db'' : Db} (h : Evolves db db') (h' : Evolves db' db'') :
    Evolves db db'' := by
  refine ⟨h'.keys.trans h.keys, h.next.trans h'.next, ?_, ?_, ?_⟩
  · intro t a a'' ha ha''
    obtain ⟨a', ha'⟩ := h.get ha
    exact (h.spell t a a' ha ha').trans (h'.spell t a' a'' ha' ha'')
  · intro t a a'' ha ha'' heq
    obtain ⟨a', ha'⟩ := h.get ha
    have hle := h.spell t a a' ha ha'
    have hle' := h'.spell t a' a'' ha' ha''
    exact (h'.status t a' a'' ha' ha'' (by omega)).trans (h.status t a a' ha ha' (by omega))
  · intro t a a'' x ha ha'' hx
    obtain ⟨a', ha'⟩ := h.get ha
    rcases h'.session t a' a'' x ha' ha'' hx with hx' | hlt
    · rcases h.session t a a' x ha ha' hx' with hx | hlt
      · exact Or.inl hx
      · exact Or.inr (hlt.trans_le h'.next)
    · exact Or.inr hlt

theorem Quiet.trans {db db' db'' : Db} (h : Quiet db db') (h' : Quiet db' db'') :
    Quiet db db'' :=
  ⟨h.toEvolves.trans h'.toEvolves, h'.sessions.trans h.sessions⟩

/-- What a patch of a row may do: it keeps the status and the spell or opens a new
spell, and it names a session that exists. -/
structure Patch (next : Nat) (f : Task → Task) : Prop where
  status : ∀ a, (f a).status = a.status ∧ (f a).spell = a.spell ∨ a.spell < (f a).spell
  session : ∀ a x, (f a).sessionId = some x → a.sessionId = some x ∨ x < next

/-- A patch of other columns. -/
theorem Patch.of_keeps {next : Nat} {f : Task → Task} (hs : ∀ a, (f a).status = a.status)
    (hsp : ∀ a, (f a).spell = a.spell) (hse : ∀ a, (f a).sessionId = a.sessionId) :
    Patch next f :=
  ⟨fun a => Or.inl ⟨hs a, hsp a⟩, fun a _ hx => Or.inl ((hse a).symm.trans hx)⟩

/-- A patch that opens a new spell and names no other session. -/
theorem Patch.of_spell {next : Nat} {f : Task → Task} (hsp : ∀ a, (f a).spell = a.spell + 1)
    (hse : ∀ a, (f a).sessionId = a.sessionId ∨ (f a).sessionId = none) : Patch next f := by
  refine ⟨fun a => Or.inr (by rw [hsp]; exact Nat.lt_succ_self _), fun a x hx => ?_⟩
  rcases hse a with h | h
  · exact Or.inl (h.symm.trans hx)
  · rw [h] at hx
    cases hx

/-- A guarded write of one row. -/
theorem Quiet.update {db : Db} {f : Task → Task} (id : Nat) (g : Task → Bool)
    (hf : ∀ t, (f t).id = t.id) (hp : Patch db.nextSessionId f) :
    Quiet db (db.updateTask id g f hf) := by
  have hoff := db.sameOff_updateTask id g f hf
  -- the row after the write: patched, or as it was
  have hrow : ∀ t a a', db.tasks.get t = some a → (db.updateTask id g f hf).tasks.get t = some a' →
      a' = f a ∨ a' = a := by
    intro t a a' ha ha'
    by_cases ht : t = id
    · subst ht
      rw [Db.get_updateTask, ha] at ha'
      by_cases hg : g a
      · simp only [Option.map_some, hg, if_true, Option.some.injEq] at ha'
        exact Or.inl ha'.symm
      · simp only [Option.map_some, hg, Option.some.injEq] at ha'
        exact Or.inr (by simpa using ha'.symm)
    · rw [hoff.get t ht, ha] at ha'
      cases ha'
      exact Or.inr rfl
  refine ⟨⟨hoff.keys, le_refl _, ?_, ?_, ?_⟩, rfl⟩
  · intro t a a' ha ha'
    rcases hrow t a a' ha ha' with rfl | rfl
    · rcases hp.status a with ⟨-, h⟩ | h
      · exact h.ge
      · exact h.le
    · exact le_refl _
  · intro t a a' ha ha' heq
    rcases hrow t a a' ha ha' with rfl | rfl
    · rcases hp.status a with ⟨h, -⟩ | h
      · exact h
      · omega
    · rfl
  · intro t a a' x ha ha' hx
    rcases hrow t a a' ha ha' with rfl | rfl
    · exact hp.session a x hx
    · exact Or.inl hx

theorem Quiet.setSessionStatus (db : Db) (id : Nat) (old new : SessionStatus) :
    Quiet db (db.setSessionStatus id old new) :=
  ⟨.of_tasks rfl (le_refl _), Table.keys_updateIf _ _ _ _ (by intro; rfl)⟩

theorem Quiet.killSession (db : Db) (id : Nat) : Quiet db (db.killSession id) := by
  unfold Db.killSession
  split
  · exact .refl db
  · split
    · exact .setSessionStatus db id _ _
    · exact .setSessionStatus db id _ _
    · exact .refl db

theorem Evolves.insertSession (db : Db) (row : Session) : Evolves db (db.insertSession row) :=
  .of_tasks rfl (Nat.le_succ _)

/-! ## The segments -/

theorem quiet_enqueueTask (db : Db) (now id : Nat) (auto seedCapable quarantined : Bool) :
    Quiet db (enqueueTask db now id auto seedCapable quarantined).1 := by
  unfold enqueueTask
  split
  · exact .refl db
  · split
    · exact .refl db
    · repeat' split
      all_goals first
        | exact .refl db
        | exact .update _ _ _ (.of_spell (fun _ => rfl) fun _ => Or.inl rfl)

theorem quiet_failQueuedTask (db : Db) (id : Nat) (detail : String) (forget : Bool) :
    Quiet db (failQueuedTask db id detail forget).1 := by
  unfold failQueuedTask
  split
  · exact .refl db
  · split
    · exact .refl db
    · exact .update _ _ _ (.of_spell (fun _ => rfl) fun _ => Or.inl rfl)

theorem quiet_giveUpIfOverdue (db : Db) (id now : Nat) :
    Quiet db (giveUpIfOverdue db id now).1 := by
  unfold giveUpIfOverdue
  split
  · exact .refl db
  · split
    · exact .refl db
    · split
      · exact .refl db
      · exact quiet_failQueuedTask db id _ _

/-- A write of other columns is quiet. -/
theorem Quiet.of_keeps (db : Db) (id : Nat) (g : Task → Bool) {f : Task → Task}
    (hf : ∀ t, (f t).id = t.id) (hs : ∀ a, (f a).status = a.status)
    (hsp : ∀ a, (f a).spell = a.spell) (hse : ∀ a, (f a).sessionId = a.sessionId) :
    Quiet db (db.updateTask id g f hf) :=
  .update id g hf (.of_keeps hs hsp hse)

theorem quiet_holdClaim (db : Db) (now : Nat) (task : Task) (since : Option Nat)
    (detail : String) : Quiet db (holdClaim db now task since detail).1 := by
  unfold holdClaim
  simp only
  split
  · exact .of_keeps db _ _ _ (fun _ => rfl) (fun _ => rfl) (fun _ => rfl)
  · exact .refl db

theorem quiet_dropHold (db : Db) (task : Task) : Quiet db (dropHold db task) := by
  unfold dropHold
  split
  · exact .of_keeps db _ _ _ (fun _ => rfl) (fun _ => rfl) (fun _ => rfl)
  · exact .refl db

theorem quiet_dispatchBlockers (db : Db) (task : Task) (project : Project) (gate : Gate) :
    Quiet db (dispatchBlockers db task project gate).1 := by
  have hkeep : ∀ reason, Quiet db (db.updateTask task.id isClaimed
      (fun t => { t with failureReason := reason })) :=
    fun reason => .of_keeps db _ _ _ (fun _ => rfl) (fun _ => rfl) (fun _ => rfl)
  cases gate with
  | unresolved => exact .refl db
  | blocked blockers =>
    simp only [dispatchBlockers, blockedHold]
    split
    · exact hkeep _
    · exact .refl db
  | clear =>
    simp only [dispatchBlockers, blockedHold]
    split
    · exact hkeep _
    · exact .refl db

theorem quiet_dispatchPlace (db : Db) (now max : Nat) (task : Task) (project : Project)
    (command : String) (reading : PlacementReading) :
    Quiet db (dispatchPlace db now max task project command reading).1 := by
  cases reading with
  | transient detail => exact quiet_holdClaim db now task _ detail
  | refused detail => exact quiet_failQueuedTask db task.id detail true
  | chosen hostId checkout =>
    cases checkout with
    | preparing => exact quiet_holdClaim db now task _ _
    | failed jobDetail =>
      exact .of_keeps db _ _ _ (fun _ => rfl) (fun _ => rfl) (fun _ => rfl)
    | present =>
      have hdrop := quiet_dropHold db task
      simp only [dispatchPlace]
      split
      · exact hdrop.trans (quiet_failQueuedTask _ task.id _ false)
      · split
        · exact hdrop
        · exact hdrop.trans (.update _ _ _ (.of_spell (fun _ => rfl) fun _ => Or.inl rfl))

theorem quiet_dispatchRelease (db : Db) (now : Nat) (r : Reservation) (reason : String) :
    Quiet db (dispatchRelease db now r reason) :=
  .update _ _ _ (.of_spell (fun _ => rfl) fun _ => Or.inl rfl)

theorem quiet_retryRelease (db : Db) (r : RetryReservation) (reason : String) :
    Quiet db (retryRelease db r reason) :=
  .update _ _ _ (.of_spell (fun _ => rfl) fun _ => Or.inl rfl)

theorem quiet_retryResume (db : Db) (r : RetryReservation) : Quiet db (retryResume db r).1 := by
  unfold retryResume
  simp only
  split
  · exact quiet_retryRelease db r _
  · exact .refl db

theorem quiet_retryStart (cfg : Config) (db : Db) (now id : Nat) :
    Quiet db (retryStart cfg db now id).1 := by
  unfold retryStart
  split
  · exact .refl db
  · have hreserve : Quiet db (db.updateTask id (fun t => t.status = .failed)
        (retryReservePatch now)) :=
      .update _ _ _ (.of_spell (fun _ => rfl) fun _ => Or.inr rfl)
    simp only
    split
    · exact hreserve.trans (.killSession _ _)
    · exact hreserve.trans (quiet_retryResume _ _)

theorem quiet_reseedStart (db : Db) (task : Task) (force : Bool) :
    Quiet db (reseedStart db task force).1 := by
  unfold reseedStart
  split
  · simp only
    split
    · split
      · split
        · exact .setSessionStatus db _ _ _
        · exact .refl db
      · exact .refl db
    · exact .refl db
  · exact .refl db

/-! ## The last write of a call -/

/-- The write with which a call leaves its task. -/
structure Final where
  taskId : Nat
  /-- The call's own spell of the task. -/
  spell : Option Nat
  guard : Task → Bool
  /-- A session was spawned, and only this write can bind it. -/
  binds : Bool

/-- A write that lands finds the call's own spell; a write that must bind lands. -/
def Final.Undisturbed (db : Db) (final : Final) : Prop :=
  (∀ a ∈ db.tasks.get final.taskId, final.guard a = true → some a.spell = final.spell) ∧
    (final.binds = true → db.taskMatches final.taskId final.guard = true)

instance (db : Db) (final : Final) : Decidable (final.Undisturbed db) :=
  inferInstanceAs (Decidable ((∀ a ∈ db.tasks.get final.taskId, final.guard a = true →
    some a.spell = final.spell) ∧
      (final.binds = true → db.taskMatches final.taskId final.guard = true)))

/-- The commit of a dispatch. -/
def Reservation.committed (r : Reservation) : Final where
  taskId := r.task.id
  spell := some r.spell
  guard := fun _ => true
  binds := true

/-- The adoption of a session whose spawn may have landed. -/
def Reservation.adopted (r : Reservation) : Final where
  taskId := r.task.id
  spell := some r.spell
  guard := isInProgress
  binds := false

/-- The release of the task. -/
def Reservation.released (r : Reservation) : Final where
  taskId := r.task.id
  spell := some r.spell
  guard := isReservedByDispatch
  binds := false

/-- The last write of a dispatch, if the segment makes it. -/
def dispatchFinal : DispatchPc → Answer → Option Final
  | .spawning r _, .spawn (.created _ _) => some r.committed
  | .spawning r _, .spawn (.outcomeUnknown _ (some _)) => some r.adopted
  | .spawning r _, .spawn _ => some r.released
  | .clearing r, .notCleared _ | .clearing r, .clearUnknown _ | .clearing r, .threw _ =>
    some r.released
  | .baseRef r, .baseRefFailed _ | .baseRef r, .threw _ => some r.released
  | .prompt r _, .threw _ | .killing r _, .threw _ => some r.released
  | _, _ => none

/-- The commit of a retry. -/
def RetryReservation.committed (r : RetryReservation) : Final where
  taskId := r.task.id
  spell := some r.spell
  guard := fun _ => true
  binds := true

/-- The release of the task, and the adoption of a session whose spawn may have
landed: both ask for the status of the reservation. -/
def RetryReservation.released (r : RetryReservation) : Final where
  taskId := r.task.id
  spell := some r.spell
  guard := isClaimed
  binds := false

/-- The last write of a retry, if the segment makes it. -/
def retryFinal (db : Db) : RetryPc → Answer → Option Final
  | .killingOld r, .settled | .killingOld r, .threw _ =>
    match projectCwdOnHost r.project (db.resolveTaskWorkerHost r.task) with
    | none => some r.released
    | some _ => none
  | .resuming r _, .noWorktree | .resuming r _, .notSupported | .resuming r _, .threw _ =>
    some r.released
  | .spawning r _ _, .spawn (.created _ _) => some r.committed
  | .spawning r _ _, .spawn (.outcomeUnknown _ (some _)) => some r.released
  | .cleaning r _, .settled | .cleaning r _, .threw _ => some r.released
  | _, _ => none

/-- The commit of a re-seed, or its adoption. -/
def reseeded (task : Task) (spell : Option Nat) (binds : Bool) : Final where
  taskId := task.id
  spell := spell
  guard := isInProgress
  binds := binds

/-- The last write of a re-seed, if the segment makes it. -/
def reseedFinal : ReseedPc → Answer → Option Final
  | .spawning task _ spell, .spawn (.created _ _) => some (reseeded task spell true)
  | .spawning task _ spell, .spawn (.outcomeUnknown _ (some _)) => some (reseeded task spell false)
  | _, _ => none

/-- The last write that a step makes. -/
def finalWrite (b : Board) : Event → Option Final
  | .call (.resume call answer) =>
    match b.world.calls[call]? with
    | some (.dispatch pc) => dispatchFinal pc answer
    | some (.retry pc) => retryFinal b.world.db pc answer
    | _ => none
  | .resumeReseed call answer =>
    match b.reseeds[call]? with
    | some pc => reseedFinal pc answer
    | none => none
  | _ => none

/-! ## What a call may do to its task -/

/-- The task a call has reserved, the spell this began, and its status. -/
def Call.reservation : Call → Option (Nat × Nat × TaskStatus)
  | .dispatch (.clearing r) | .dispatch (.baseRef r) | .dispatch (.prompt r _)
  | .dispatch (.spawning r _) | .dispatch (.killing r _) =>
    some (r.task.id, r.spell, .inProgress)
  | .retry (.killingOld r) | .retry (.resuming r _) | .retry (.prompt r _ _)
  | .retry (.spawning r _ _) | .retry (.cleaning r _) => some (r.task.id, r.spell, .claimed)
  | _ => none

/-- The task of a re-seed, and its spell when the call began. -/
def ReseedPc.reservation : ReseedPc → Option (Nat × Option Nat)
  | .terminating task _ spell | .spawning task _ spell => some (task.id, spell)
  | _ => none

/-- The task of the call that a step resumes, and the call's own spell of it. -/
def held (b : Board) : Event → Option (Nat × Option Nat)
  | .call (.resume call _) =>
    ((b.world.calls[call]?).bind Call.reservation).map fun (id, spell, _) => (id, some spell)
  | .resumeReseed call _ => (b.reseeds[call]?).bind ReseedPc.reservation
  | _ => none

/-- Every session that the step spawned for a task is the session of that task, which
is running, or is killed. -/
def Accounted (db db' : Db) : Prop :=
  ∀ x s t, x ∉ db.sessions.keys → db'.sessions.get x = some s → s.spawnedFor = some t →
    s.status = .killed ∨
      ∃ a, db'.tasks.get t = some a ∧ a.sessionId = some x ∧ a.status = .inProgress

/-- A call that changes the status or the session of its task finds it in the call's
own spell: nobody else has written the status. -/
def Respects (own : Option (Nat × Option Nat)) (db db' : Db) : Prop :=
  ∀ t spell a a', own = some (t, spell) → db.tasks.get t = some a → db'.tasks.get t = some a' →
    a'.status ≠ a.status ∨ a'.sessionId ≠ a.sessionId → some a.spell = spell

/-- What a step should do. -/
def LeavesNoOrphan (b : Board) (e : Event) (b' : Board) : Prop :=
  Accounted b.world.db b'.world.db ∧ Respects (held b e) b.world.db b'.world.db

/-- The last write of a step, if it makes one, is undisturbed. -/
def Undisturbed (b : Board) (e : Event) : Prop :=
  ∀ final ∈ finalWrite b e, final.Undisturbed b.world.db

instance (b : Board) (e : Event) : Decidable (Undisturbed b e) :=
  inferInstanceAs (Decidable (∀ final ∈ finalWrite b e, final.Undisturbed b.world.db))

/-! ## The three kinds of last writes -/

/-- A segment that adds no session has none to account for. -/
theorem Accounted.of_sessions {db db' : Db} (h : db'.sessions.keys = db.sessions.keys) :
    Accounted db db' := by
  intro x s t hx hs
  have hmem : x ∈ db'.sessions.keys := Table.mem_keys_iff.2 ⟨s, hs⟩
  rw [h] at hmem
  exact absurd hmem hx

/-- A segment that writes no task overwrites nothing. -/
theorem Respects.of_tasks {own : Option (Nat × Option Nat)} {db db' : Db}
    (h : db'.tasks = db.tasks) : Respects own db db' := by
  rintro t spell a a' - ha ha' hne
  rw [h, ha] at ha'
  cases ha'
  rcases hne with hne | hne <;> exact absurd rfl hne

theorem Respects.of_free (db db' : Db) : Respects none db db' := by
  intro t spell a a' h
  cases h

/-- No row names a session that does not exist yet. -/
def NamesSessions (db : Db) : Prop :=
  ∀ t a x, db.tasks.get t = some a → a.sessionId = some x → x < db.nextSessionId

/-- **A release**: a guarded write that moves the task. -/
theorem release_exact {db : Db} {f : Task → Task} (hf : ∀ t, (f t).id = t.id) (final : Final)
    (hb : final.binds = false) (hs : ∀ a, final.guard a = true → (f a).status ≠ a.status) :
    Accounted db (db.updateTask final.taskId final.guard f hf) ∧
      Respects (some (final.taskId, final.spell)) db
        (db.updateTask final.taskId final.guard f hf) ↔ final.Undisturbed db := by
  constructor
  · rintro ⟨-, hresp⟩
    refine ⟨fun a ha hg => ?_, fun h => absurd h (by simp [hb])⟩
    have ha' : (db.updateTask final.taskId final.guard f hf).tasks.get final.taskId = some (f a) := by
      rw [Db.get_updateTask, ha, Option.map_some, if_pos hg]
    exact hresp _ _ a (f a) rfl ha ha' (Or.inl (hs a hg))
  · rintro ⟨hspell, -⟩
    refine ⟨.of_sessions rfl, ?_⟩
    intro t spell a a' hown ha ha' hne
    cases hown
    rw [Db.get_updateTask, ha, Option.map_some] at ha'
    by_cases hg : final.guard a
    · exact hspell a ha hg
    · rw [if_neg hg] at ha'
      cases ha'
      rcases hne with hne | hne <;> exact absurd rfl hne

/-- The session that a spawn adds is the only new one. -/
theorem get_spawned {db : Db} {row : Session} {x : Nat} {s : Session}
    (hx : x ∉ db.sessions.keys) (hs : (db.insertSession row).sessions.get x = some s) :
    x = db.nextSessionId ∧ s = { row with id := db.nextSessionId } := by
  rw [Db.get_insertSession] at hs
  by_cases hxn : x = db.nextSessionId
  · rw [if_pos hxn] at hs
    exact ⟨hxn, (Option.some.inj hs).symm⟩
  · rw [if_neg hxn] at hs
    exact absurd (Table.mem_keys_iff.2 ⟨s, hs⟩) hx

/-- **A commit**: the spawned session is bound by a guarded write. What the write makes
of the status is asked for only where the write is undisturbed. -/
theorem commit_exact {db : Db} (row : Session) {f : Task → Task} (hf : ∀ t, (f t).id = t.id)
    (final : Final) (hnames : NamesSessions db) (hfor : row.spawnedFor = some final.taskId)
    (hactive : row.status = .active) (hse : ∀ a, (f a).sessionId = some db.nextSessionId)
    (hs : ∀ a, db.tasks.get final.taskId = some a → final.guard a = true →
      some a.spell = final.spell → (f a).status = .inProgress) :
    Accounted db ((db.insertSession row).updateTask final.taskId final.guard f hf) ∧
      Respects (some (final.taskId, final.spell)) db
        ((db.insertSession row).updateTask final.taskId final.guard f hf) ↔
    db.taskMatches final.taskId final.guard = true ∧
      ∀ a ∈ db.tasks.get final.taskId, final.guard a = true → some a.spell = final.spell := by
  have hget : ∀ a, db.tasks.get final.taskId = some a →
      ((db.insertSession row).updateTask final.taskId final.guard f hf).tasks.get final.taskId =
        some (if final.guard a then f a else a) := by
    intro a ha
    rw [Db.get_updateTask, Db.tasks_insertSession, ha, Option.map_some]
  have hnew : (db.insertSession row).sessions.get db.nextSessionId =
      some { row with id := db.nextSessionId } := by
    rw [Db.get_insertSession, if_pos rfl]
  constructor
  · rintro ⟨hacc, hresp⟩
    -- the new session is not killed, so the row names it
    have hbound := hacc db.nextSessionId _ final.taskId db.nextSessionId_fresh hnew hfor
    rw [hactive] at hbound
    obtain ⟨a', ha', hid, -⟩ := hbound.resolve_left (by simp)
    obtain ⟨a, ha⟩ : ∃ a, db.tasks.get final.taskId = some a := by
      rw [Db.get_updateTask, Db.tasks_insertSession] at ha'
      obtain ⟨a, ha, -⟩ := Option.map_eq_some_iff.1 ha'
      exact ⟨a, ha⟩
    have hg : final.guard a = true := by
      by_contra hg
      rw [hget a ha, if_neg hg] at ha'
      rw [Option.some.inj ha'] at ha
      exact absurd (hnames _ a' _ ha hid) (lt_irrefl _)
    refine ⟨Db.taskMatches_iff.2 ⟨a, ha, hg⟩, fun b hb _ => ?_⟩
    rw [ha] at hb
    cases hb
    refine hresp _ _ a _ rfl ha (hget a ha) (Or.inr ?_)
    rw [if_pos hg, hse]
    intro heq
    exact absurd (hnames _ a _ ha heq.symm) (lt_irrefl _)
  · rintro ⟨hm, hspell⟩
    obtain ⟨a, ha, hg⟩ := Db.taskMatches_iff.1 hm
    have hown := hspell a ha hg
    constructor
    · intro x s t hx hsx ht
      obtain ⟨rfl, rfl⟩ := get_spawned hx hsx
      have hid : final.taskId = t := Option.some.inj (hfor.symm.trans ht)
      refine Or.inr ⟨f a, ?_, hse a, hs a ha hg hown⟩
      rw [← hid, hget a ha, if_pos hg]
    · intro t spell b b' ht hb _ _
      cases ht
      rw [ha] at hb
      cases hb
      exact hown

/-- **An adoption**: the session is bound where the guard holds, and killed where it
does not. -/
theorem adopt_exact {db : Db} (row : Session) {f : Task → Task} (hf : ∀ t, (f t).id = t.id)
    (final : Final) (hb : final.binds = false) (hnames : NamesSessions db)
    (hfor : row.spawnedFor = some final.taskId) (hactive : row.status = .active)
    (hse : ∀ a, (f a).sessionId = some db.nextSessionId)
    (hs : ∀ a, final.guard a = true → (f a).status = .inProgress) {db' : Db}
    (hdb : db' = if db.taskMatches final.taskId final.guard then
      (db.insertSession row).updateTask final.taskId final.guard f hf
      else (db.insertSession row).killSession db.nextSessionId) :
    Accounted db db' ∧ Respects (some (final.taskId, final.spell)) db db' ↔
      final.Undisturbed db := by
  by_cases hm : db.taskMatches final.taskId final.guard
  · rw [if_pos hm] at hdb
    rw [hdb, commit_exact row hf final hnames hfor hactive hse fun a _ hg _ => hs a hg]
    exact ⟨fun h => ⟨h.2, fun h => absurd h (by simp [hb])⟩, fun h => ⟨hm, h.1⟩⟩
  · rw [if_neg hm] at hdb
    have hund : final.Undisturbed db :=
      ⟨fun a ha hg => absurd (Db.taskMatches_iff.2 ⟨a, ha, hg⟩) hm,
        fun h => absurd h (by simp [hb])⟩
    refine ⟨fun _ => hund, fun _ => ⟨?_, .of_tasks (by rw [hdb]; simp)⟩⟩
    intro x s t hx hsx _
    rw [hdb, Db.get_killSession] at hsx
    by_cases hxn : x = db.nextSessionId
    · rw [if_pos hxn] at hsx
      obtain ⟨s₀, -, rfl⟩ := Option.map_eq_some_iff.1 hsx
      exact Or.inl rfl
    · rw [if_neg hxn] at hsx
      exact absurd (get_spawned hx hsx).1 hxn

/-! ## What a reservation is worth -/

/-- The task that a call has reserved is there, and in the call's own spell it still
has the status of the reservation. -/
def Reserved (db : Db) (c : Call) : Prop :=
  ∀ id spell status, c.reservation = some (id, spell, status) →
    ∃ a, db.tasks.get id = some a ∧ spell ≤ a.spell ∧ (a.spell = spell → a.status = status)

theorem Reserved.evolves {db db' : Db} {c : Call} (h : Reserved db c) (he : Evolves db db') :
    Reserved db' c := by
  intro id spell status hres
  obtain ⟨a, ha, hle, hst⟩ := h id spell status hres
  obtain ⟨a', ha'⟩ := he.get ha
  have hle' := he.spell id a a' ha ha'
  refine ⟨a', ha', hle.trans hle', fun heq => ?_⟩
  exact (he.status id a a' ha ha' (by omega)).trans (hst (by omega))

theorem Reserved.of_free (db : Db) {c : Call} (h : c.reservation = none) : Reserved db c := by
  intro id spell status hres
  rw [h] at hres
  cases hres

/-- A call that holds on to what it had. -/
theorem Reserved.same {db : Db} {c c' : Call} (h : Reserved db c)
    (heq : c'.reservation = c.reservation) : Reserved db c' := by
  intro id spell status hres
  exact h id spell status (heq ▸ hres)

/-- The reservation opens the spell that the call remembers. -/
theorem Reserved.of_reserve {db : Db} {id : Nat} {g : Task → Bool} {f : Task → Task}
    (hf : ∀ t, (f t).id = t.id) {a : Task} (ha : db.tasks.get id = some a) (hg : g a) {c : Call}
    (hc : c.reservation = some (id, (f a).spell, (f a).status)) :
    Reserved (db.updateTask id g f hf) c := by
  intro id' spell status hres
  rw [hc] at hres
  cases hres
  refine ⟨f a, ?_, le_refl _, fun _ => rfl⟩
  rw [Db.get_updateTask, ha, Option.map_some, if_pos hg]

theorem reserved_dispatchPlace (db : Db) (now max : Nat) (task : Task) (project : Project)
    (command : String) (reading : PlacementReading) :
    Reserved (dispatchPlace db now max task project command reading).1
      (.dispatch (dispatchPlace db now max task project command reading).2) := by
  cases reading with
  | transient detail => exact .of_free _ rfl
  | refused detail => exact .of_free _ rfl
  | chosen hostId checkout =>
    cases checkout with
    | preparing => exact .of_free _ rfl
    | failed jobDetail => exact .of_free _ rfl
    | present =>
      simp only [dispatchPlace]
      split
      · exact .of_free _ rfl
      · rename_i cwd _
        split
        · exact .of_free _ rfl
        · rename_i r hr
          obtain ⟨htask, -, row, hrow, hst, -, hsp⟩ := dispatchReservation_ok hr
          refine .of_reserve _ hrow (by simpa [isClaimed] using hst) ?_
          simp only [Call.reservation, htask, hsp]
          rfl

theorem reserved_retryStart (cfg : Config) (db : Db) (now id : Nat) :
    Reserved (retryStart cfg db now id).1 (.retry (retryStart cfg db now id).2) := by
  unfold retryStart
  cases hr : retryReservation cfg db id with
  | error outcome => exact .of_free _ rfl
  | ok r =>
    obtain ⟨hget, hst, -, -, hsp⟩ := retryReservation_ok hr
    have hid : r.task.id = id := Table.get_key hget
    have hres : ∀ c : Call, c.reservation = some (r.task.id, r.spell, .claimed) →
        Reserved (db.updateTask id (fun t => t.status = .failed) (retryReservePatch now)) c := by
      intro c hc
      refine .of_reserve _ hget (by simpa using hst) ?_
      rw [hc, hid, hsp]
      rfl
    simp only
    split
    · exact (hres _ rfl).evolves (Quiet.killSession _ _).toEvolves
    · simp only [retryResume]
      split
      · exact .of_free _ rfl
      · exact hres _ rfl

/-! ## Dispatch -/

/-- A step that adds no session and leaves the call's task alone is what it should
be. -/
theorem leaves_of_quiet {own : Option (Nat × Option Nat)} {db db' : Db}
    (hk : db'.sessions.keys = db.sessions.keys) (ht : own = none ∨ db'.tasks = db.tasks) :
    Accounted db db' ∧ Respects own db db' := by
  refine ⟨.of_sessions hk, ?_⟩
  rcases ht with rfl | ht
  · exact .of_free db db'
  · exact .of_tasks ht

/-- No last write, and nothing to ask for. -/
theorem exact_of_quiet {own : Option (Nat × Option Nat)} {db db' : Db}
    (hk : db'.sessions.keys = db.sessions.keys) (ht : own = none ∨ db'.tasks = db.tasks) :
    Accounted db db' ∧ Respects own db db' ↔ ∀ final ∈ (none : Option Final), final.Undisturbed db :=
  ⟨fun _ => nofun, fun _ => leaves_of_quiet hk ht⟩

/-- One last write. -/
theorem exact_of_final {own : Option (Nat × Option Nat)} {db db' : Db} {final : Final}
    (h : Accounted db db' ∧ Respects own db db' ↔ final.Undisturbed db) :
    Accounted db db' ∧ Respects own db db' ↔ ∀ f ∈ some final, f.Undisturbed db := by
  rw [h]
  exact ⟨fun h f hf => (Option.some.inj hf) ▸ h, fun h => h final rfl⟩

theorem dispatchRelease_exact (db : Db) (now : Nat) (r : Reservation) (reason : String) :
    Accounted db (dispatchRelease db now r reason) ∧
      Respects (some (r.task.id, some r.spell)) db (dispatchRelease db now r reason) ↔
    ∀ final ∈ some r.released, final.Undisturbed db := by
  refine exact_of_final (release_exact _ r.released rfl fun a hg => ?_)
  have hst : a.status = .inProgress := by
    simp only [Reservation.released, isReservedByDispatch, Bool.and_eq_true,
      decide_eq_true_eq] at hg
    exact hg.1
  rw [hst]
  simp [dispatchReleasePatch, Task.setStatus]

theorem dispatchSpawn_exact (db : Db) (now : Nat) (r : Reservation) (baseSha : Option String)
    (answer : SpawnAnswer) (hnames : NamesSessions db)
    (hres : Reserved db (.dispatch (.spawning r baseSha))) :
    Accounted db (dispatchSpawn db now r baseSha answer).1 ∧
      Respects (some (r.task.id, some r.spell)) db (dispatchSpawn db now r baseSha answer).1 ↔
    ∀ final ∈ dispatchFinal (.spawning r baseSha) (.spawn answer), final.Undisturbed db := by
  cases answer with
  | created cwd seedDelivered =>
    refine exact_of_final ((commit_exact
      (spawnedSession now r.task.id r.task.projectId r.hostId cwd)
      (fun _ => rfl) r.committed hnames rfl rfl
      (f := dispatchCommitPatch r baseSha db.nextSessionId cwd seedDelivered none)
      (fun _ => rfl) ?_).trans ?_)
    · -- in its own spell the row is still `in_progress`, and the patch leaves that
      intro a ha _ hown
      obtain ⟨b, hb, -, hst⟩ := hres _ _ _ rfl
      obtain rfl : b = a := Option.some.inj (hb.symm.trans ha)
      exact hst (Option.some.inj hown)
    · exact ⟨fun h => ⟨h.2, fun _ => h.1⟩, fun h => ⟨h.2 rfl, h.1⟩⟩
  | outcomeUnknown detail kept =>
    cases kept with
    | none => exact dispatchRelease_exact db now r _
    | some cwd =>
      refine exact_of_final (adopt_exact
        (spawnedSession now r.task.id r.task.projectId r.hostId cwd)
        (fun _ => rfl) r.adopted rfl hnames rfl rfl
        (f := dispatchCommitPatch r baseSha db.nextSessionId cwd false
          (some (outcomeUnknownReason r.hostId detail)))
        (fun _ => rfl) (fun a hg => by
          simpa [dispatchCommitPatch, Reservation.adopted, isInProgress] using hg) ?_)
      simp only [dispatchSpawn]
      split
      · rename_i hm
        exact (if_pos hm).symm
      · rename_i hm
        exact (if_neg hm).symm
  | worktreeFailed detail => exact dispatchRelease_exact db now r _
  | hostUnsupported detail => exact dispatchRelease_exact db now r _
  | refused => exact dispatchRelease_exact db now r _
  | threw message => exact dispatchRelease_exact db now r _

/-- The part of a reservation that counts for `Respects`. -/
def Call.own (c : Call) : Option (Nat × Option Nat) :=
  c.reservation.map fun (id, spell, _) => (id, some spell)

/-- **A segment of a dispatch** does what it should exactly when its last write, if it
makes one, is undisturbed. -/
theorem dispatchResume_exact {cfg : Config} {db db' : Db} {now : Nat} {pc pc' : DispatchPc}
    {a : Answer} (hnames : NamesSessions db) (hres : Reserved db (.dispatch pc))
    (h : dispatchResume cfg db now pc a = some (db', pc')) :
    Accounted db db' ∧ Respects (Call.dispatch pc).own db db' ↔
      ∀ final ∈ dispatchFinal pc a, final.Undisturbed db := by
  unfold dispatchResume at h
  split at h
  -- in the order of the definition: before the reservation, holding it, and after
  · simp only [Option.some.injEq] at h
    have hquiet := quiet_dispatchBlockers db ‹_› ‹_› ‹_›
    rw [h] at hquiet
    exact exact_of_quiet hquiet.sessions (Or.inl rfl)
  · simp only [Option.some.injEq] at h
    have hquiet := quiet_dispatchPlace db now cfg.maxConcurrent ‹_› ‹_›
      (cfg.resolveAgentCommand ‹_› ‹_›) ‹_›
    rw [h] at hquiet
    exact exact_of_quiet hquiet.sessions (Or.inl rfl)
  · cases h; exact exact_of_quiet rfl (Or.inl rfl)
  · cases h; exact exact_of_quiet rfl (Or.inr rfl)
  · cases h; exact dispatchRelease_exact db now _ _
  · cases h; exact dispatchRelease_exact db now _ _
  · cases h; exact exact_of_quiet rfl (Or.inr rfl)
  · cases h; exact dispatchRelease_exact db now _ _
  · cases h; exact exact_of_quiet rfl (Or.inr rfl)
  · rename_i r baseSha answer
    simp only [Option.some.injEq] at h
    have hexact := dispatchSpawn_exact db now r baseSha answer hnames hres
    rw [h] at hexact
    exact hexact
  · cases h; exact exact_of_quiet rfl (Or.inr rfl)
  · cases h; exact exact_of_quiet rfl (Or.inl rfl)
  · cases h; exact exact_of_quiet rfl (Or.inl rfl)
  · cases h; exact dispatchRelease_exact db now _ _
  · cases h; exact dispatchRelease_exact db now _ _
  · cases h; exact dispatchRelease_exact db now _ _
  · cases h; exact dispatchRelease_exact db now _ _
  · cases h

/-- A spawn, and a write that binds the new session and keeps the rest or opens a new
spell. -/
theorem Evolves.spawn_update {db : Db} {row : Session} {id : Nat} {g : Task → Bool}
    {f : Task → Task} (hf : ∀ t, (f t).id = t.id)
    (hs : ∀ a, (f a).status = a.status ∧ (f a).spell = a.spell ∨ a.spell < (f a).spell)
    (hse : ∀ a, (f a).sessionId = some db.nextSessionId) :
    Evolves db ((db.insertSession row).updateTask id g f hf) := by
  refine (Evolves.insertSession db row).trans (Quiet.update id g hf ⟨hs, fun a x hx => ?_⟩).toEvolves
  rw [hse] at hx
  cases hx
  exact Or.inr (Nat.lt_succ_self _)

theorem evolves_dispatchSpawn (db : Db) (now : Nat) (r : Reservation) (baseSha : Option String)
    (answer : SpawnAnswer) : Evolves db (dispatchSpawn db now r baseSha answer).1 := by
  cases answer with
  | created cwd seedDelivered =>
    exact .spawn_update _ (fun _ => Or.inl ⟨rfl, rfl⟩) fun _ => rfl
  | outcomeUnknown detail kept =>
    cases kept with
    | none => exact (quiet_dispatchRelease db now r _).toEvolves
    | some cwd =>
      simp only [dispatchSpawn]
      split
      · exact .spawn_update _ (fun _ => Or.inl ⟨rfl, rfl⟩) fun _ => rfl
      · exact (Evolves.insertSession db _).trans (Quiet.killSession _ _).toEvolves
  | worktreeFailed detail => exact (quiet_dispatchRelease db now r _).toEvolves
  | hostUnsupported detail => exact (quiet_dispatchRelease db now r _).toEvolves
  | refused => exact (quiet_dispatchRelease db now r _).toEvolves
  | threw message => exact (quiet_dispatchRelease db now r _).toEvolves

theorem reservation_dispatchSpawn (db : Db) (now : Nat) (r : Reservation)
    (baseSha : Option String) (answer : SpawnAnswer) :
    (Call.dispatch (dispatchSpawn db now r baseSha answer).2).reservation = none ∨
      (Call.dispatch (dispatchSpawn db now r baseSha answer).2).reservation =
        (Call.dispatch (.spawning r baseSha)).reservation := by
  cases answer with
  | outcomeUnknown detail kept =>
    cases kept with
    | none => exact Or.inl rfl
    | some cwd =>
      simp only [dispatchSpawn]
      split
      · exact Or.inl rfl
      · exact Or.inr rfl
  | _ => exact Or.inl rfl

/-- **A segment of a dispatch** keeps the rows and what it has reserved. -/
theorem dispatchResume_keeps {cfg : Config} {db db' : Db} {now : Nat} {pc pc' : DispatchPc}
    {a : Answer} (hres : Reserved db (.dispatch pc))
    (h : dispatchResume cfg db now pc a = some (db', pc')) :
    Evolves db db' ∧ Reserved db' (.dispatch pc') := by
  unfold dispatchResume at h
  split at h
  -- in the order of the definition: before the reservation, holding it, and after
  · rename_i task project gate
    simp only [Option.some.injEq] at h
    have hquiet := quiet_dispatchBlockers db task project gate
    have hfree : (Call.dispatch (dispatchBlockers db task project gate).2).reservation = none := by
      cases gate with
      | unresolved => rfl
      | blocked blockers => rfl
      | clear => rfl
    rw [h] at hquiet hfree
    exact ⟨hquiet.toEvolves, .of_free _ hfree⟩
  · simp only [Option.some.injEq] at h
    have hquiet := quiet_dispatchPlace db now cfg.maxConcurrent ‹_› ‹_›
      (cfg.resolveAgentCommand ‹_› ‹_›) ‹_›
    have hreserved := reserved_dispatchPlace db now cfg.maxConcurrent ‹_› ‹_›
      (cfg.resolveAgentCommand ‹_› ‹_›) ‹_›
    rw [h] at hquiet hreserved
    exact ⟨hquiet.toEvolves, hreserved⟩
  · cases h; exact ⟨(Quiet.refl _).toEvolves, .of_free _ rfl⟩
  · cases h; exact ⟨(Quiet.refl _).toEvolves, hres.same rfl⟩
  · cases h; exact ⟨(quiet_dispatchRelease db now _ _).toEvolves, .of_free _ rfl⟩
  · cases h; exact ⟨(quiet_dispatchRelease db now _ _).toEvolves, .of_free _ rfl⟩
  · cases h; exact ⟨(Quiet.refl _).toEvolves, hres.same rfl⟩
  · cases h; exact ⟨(quiet_dispatchRelease db now _ _).toEvolves, .of_free _ rfl⟩
  · cases h; exact ⟨(Quiet.refl _).toEvolves, hres.same rfl⟩
  · rename_i r baseSha answer
    simp only [Option.some.injEq] at h
    have hevolves := evolves_dispatchSpawn db now r baseSha answer
    have hreservation := reservation_dispatchSpawn db now r baseSha answer
    rw [h] at hevolves hreservation
    refine ⟨hevolves, ?_⟩
    rcases hreservation with hfree | hsame
    · exact .of_free _ hfree
    · exact (hres.evolves hevolves).same hsame
  · cases h; exact ⟨(Quiet.refl _).toEvolves, .of_free _ rfl⟩
  · cases h; exact ⟨(Quiet.refl _).toEvolves, .of_free _ rfl⟩
  · cases h; exact ⟨(Quiet.refl _).toEvolves, .of_free _ rfl⟩
  · cases h; exact ⟨(quiet_dispatchRelease db now _ _).toEvolves, .of_free _ rfl⟩
  · cases h; exact ⟨(quiet_dispatchRelease db now _ _).toEvolves, .of_free _ rfl⟩
  · cases h; exact ⟨(quiet_dispatchRelease db now _ _).toEvolves, .of_free _ rfl⟩
  · cases h; exact ⟨(quiet_dispatchRelease db now _ _).toEvolves, .of_free _ rfl⟩
  · cases h

/-! ## Retry -/

theorem retryRelease_exact (db : Db) (r : RetryReservation) (reason : String) :
    Accounted db (retryRelease db r reason) ∧
      Respects (some (r.task.id, some r.spell)) db (retryRelease db r reason) ↔
    ∀ final ∈ some r.released, final.Undisturbed db := by
  refine exact_of_final (release_exact _ r.released rfl fun a hg => ?_)
  have hst : a.status = .claimed := by simpa [RetryReservation.released, isClaimed] using hg
  rw [hst]
  simp [retryReleasePatch, Task.setStatus]

theorem retrySpawn_exact (db : Db) (now : Nat) (r : RetryReservation) (host : RetryHost)
    (path : String) (answer : SpawnAnswer) (hnames : NamesSessions db) :
    Accounted db (retrySpawn db now r host answer).1 ∧
      Respects (some (r.task.id, some r.spell)) db (retrySpawn db now r host answer).1 ↔
    ∀ final ∈ retryFinal db (.spawning r host path) (.spawn answer), final.Undisturbed db := by
  cases answer with
  | created cwd seedDelivered =>
    refine exact_of_final ((commit_exact
      (spawnedSession now r.task.id r.task.projectId host.hostId cwd)
      (fun _ => rfl) r.committed hnames rfl rfl
      (f := retryCommitPatch now r db.nextSessionId cwd seedDelivered)
      (fun _ => rfl) fun _ _ _ _ => rfl).trans ?_)
    exact ⟨fun h => ⟨h.2, fun _ => h.1⟩, fun h => ⟨h.2 rfl, h.1⟩⟩
  | outcomeUnknown detail kept =>
    cases kept with
    | none => exact exact_of_quiet rfl (Or.inr rfl)
    | some cwd =>
      refine exact_of_final (adopt_exact
        (spawnedSession now r.task.id r.task.projectId host.hostId cwd)
        (fun _ => rfl) r.released rfl hnames rfl rfl
        (f := retryAdoptPatch now r db.nextSessionId cwd
          (detail.getD "session spawn outcome unknown"))
        (fun _ => rfl) (fun _ _ => rfl) ?_)
      simp only [retrySpawn]
      split
      · rename_i hm
        exact (if_pos hm).symm
      · rename_i hm
        exact (if_neg hm).symm
  | worktreeFailed detail => exact exact_of_quiet rfl (Or.inr rfl)
  | hostUnsupported detail => exact exact_of_quiet rfl (Or.inr rfl)
  | refused => exact exact_of_quiet rfl (Or.inr rfl)
  | threw message => exact exact_of_quiet rfl (Or.inr rfl)

theorem retryResume_exact (db : Db) (r : RetryReservation) (a : Answer)
    (ha : a = .settled ∨ ∃ message, a = .threw message) :
    Accounted db (retryResume db r).1 ∧
      Respects (some (r.task.id, some r.spell)) db (retryResume db r).1 ↔
    ∀ final ∈ retryFinal db (.killingOld r) a, final.Undisturbed db := by
  have hfinal : retryFinal db (.killingOld r) a =
      match projectCwdOnHost r.project (db.resolveTaskWorkerHost r.task) with
      | none => some r.released
      | some _ => none := by
    rcases ha with rfl | ⟨message, rfl⟩ <;> rfl
  rw [hfinal, retryResume]
  cases projectCwdOnHost r.project (db.resolveTaskWorkerHost r.task) with
  | none => exact retryRelease_exact db r _
  | some cwd => exact exact_of_quiet rfl (Or.inr rfl)

/-- **A later segment of a retry** does what it should exactly when its last write, if
it makes one, is undisturbed. -/
theorem retryResumeStep_exact {db db' : Db} {now : Nat} {pc pc' : RetryPc} {a : Answer}
    (hnames : NamesSessions db) (h : retryResumeStep db now pc a = some (db', pc')) :
    Accounted db db' ∧ Respects (Call.retry pc).own db db' ↔
      ∀ final ∈ retryFinal db pc a, final.Undisturbed db := by
  unfold retryResumeStep at h
  split at h
  · simp only [Option.some.injEq] at h
    have hexact := retryResume_exact db ‹_› .settled (Or.inl rfl)
    rw [h] at hexact
    exact hexact
  · simp only [Option.some.injEq] at h
    have hexact := retryResume_exact db ‹_› (.threw ‹_›) (Or.inr ⟨_, rfl⟩)
    rw [h] at hexact
    exact hexact
  · cases h; exact exact_of_quiet rfl (Or.inr rfl)
  · cases h; exact retryRelease_exact db _ _
  · cases h; exact retryRelease_exact db _ _
  · cases h; exact retryRelease_exact db _ _
  · cases h; exact exact_of_quiet rfl (Or.inr rfl)
  · cases h; exact exact_of_quiet rfl (Or.inr rfl)
  · rename_i r host path answer
    simp only [Option.some.injEq] at h
    have hexact := retrySpawn_exact db now r host path answer hnames
    rw [h] at hexact
    exact hexact
  · cases h; exact retryRelease_exact db _ _
  · cases h; exact retryRelease_exact db _ _
  · cases h; exact exact_of_quiet rfl (Or.inr rfl)
  · cases h; exact exact_of_quiet rfl (Or.inr rfl)
  · cases h; exact exact_of_quiet rfl (Or.inr rfl)
  · cases h; exact exact_of_quiet rfl (Or.inr rfl)
  · cases h

theorem evolves_retrySpawn (db : Db) (now : Nat) (r : RetryReservation) (host : RetryHost)
    (answer : SpawnAnswer) : Evolves db (retrySpawn db now r host answer).1 := by
  cases answer with
  | created cwd seedDelivered =>
    exact .spawn_update _ (fun _ => Or.inr (Nat.lt_succ_self _)) fun _ => rfl
  | outcomeUnknown detail kept =>
    cases kept with
    | none => exact (Quiet.refl db).toEvolves
    | some cwd =>
      simp only [retrySpawn]
      split
      · exact .spawn_update _ (fun _ => Or.inr (Nat.lt_succ_self _)) fun _ => rfl
      · exact (Evolves.insertSession db _).trans (Quiet.killSession _ _).toEvolves
  | worktreeFailed detail => exact (Quiet.refl db).toEvolves
  | hostUnsupported detail => exact (Quiet.refl db).toEvolves
  | refused => exact (Quiet.refl db).toEvolves
  | threw message => exact (Quiet.refl db).toEvolves

theorem reservation_retrySpawn (db : Db) (now : Nat) (r : RetryReservation) (host : RetryHost)
    (path : String) (answer : SpawnAnswer) :
    (Call.retry (retrySpawn db now r host answer).2).reservation = none ∨
      (Call.retry (retrySpawn db now r host answer).2).reservation =
        (Call.retry (.spawning r host path)).reservation := by
  cases answer with
  | outcomeUnknown detail kept =>
    cases kept with
    | none => exact Or.inr rfl
    | some cwd =>
      simp only [retrySpawn]
      split
      · exact Or.inl rfl
      · exact Or.inl rfl
  | created cwd seedDelivered => exact Or.inl rfl
  | _ => exact Or.inr rfl

theorem reservation_retryResume (db : Db) (r : RetryReservation) :
    (Call.retry (retryResume db r).2).reservation = none ∨
      (Call.retry (retryResume db r).2).reservation = (Call.retry (.killingOld r)).reservation := by
  unfold retryResume
  simp only
  split
  · exact Or.inl rfl
  · exact Or.inr rfl

/-- **A later segment of a retry** keeps the rows and what it has reserved. -/
theorem retryResumeStep_keeps {db db' : Db} {now : Nat} {pc pc' : RetryPc} {a : Answer}
    (hres : Reserved db (.retry pc)) (h : retryResumeStep db now pc a = some (db', pc')) :
    Evolves db db' ∧ Reserved db' (.retry pc') := by
  -- a segment that gives its reservation up or keeps it
  have hmove : ∀ {p : Db × RetryPc}, Evolves db p.1 →
      (Call.retry p.2).reservation = none ∨
        (Call.retry p.2).reservation = (Call.retry pc).reservation →
      p = (db', pc') → Evolves db db' ∧ Reserved db' (.retry pc') := by
    rintro p hevolves hreservation rfl
    refine ⟨hevolves, ?_⟩
    rcases hreservation with hfree | hsame
    · exact .of_free _ hfree
    · exact (hres.evolves hevolves).same hsame
  unfold retryResumeStep at h
  split at h <;> simp only [Option.some.injEq, reduceCtorEq] at h
  · exact hmove (quiet_retryResume db _).toEvolves (reservation_retryResume db _) h
  · exact hmove (quiet_retryResume db _).toEvolves (reservation_retryResume db _) h
  · exact hmove (Quiet.refl db).toEvolves (Or.inr rfl) h
  · exact hmove (quiet_retryRelease db _ _).toEvolves (Or.inl rfl) h
  · exact hmove (quiet_retryRelease db _ _).toEvolves (Or.inl rfl) h
  · exact hmove (quiet_retryRelease db _ _).toEvolves (Or.inl rfl) h
  · exact hmove (Quiet.refl db).toEvolves (Or.inr rfl) h
  · exact hmove (Quiet.refl db).toEvolves (Or.inr rfl) h
  · exact hmove (evolves_retrySpawn db now _ _ _) (reservation_retrySpawn db now _ _ _ _) h
  · exact hmove (quiet_retryRelease db _ _).toEvolves (Or.inl rfl) h
  · exact hmove (quiet_retryRelease db _ _).toEvolves (Or.inl rfl) h
  · exact hmove (Quiet.refl db).toEvolves (Or.inl rfl) h
  · exact hmove (Quiet.refl db).toEvolves (Or.inl rfl) h
  · exact hmove (Quiet.refl db).toEvolves (Or.inl rfl) h
  · exact hmove (Quiet.refl db).toEvolves (Or.inl rfl) h

/-! ## Re-seed -/

theorem reseedSpawn_exact (db : Db) (now : Nat) (task : Task) (hostId : HostId)
    (spell : Option Nat) (answer : SpawnAnswer) (hnames : NamesSessions db) :
    Accounted db (reseedSpawn db now task hostId answer).1 ∧
      Respects (some (task.id, spell)) db (reseedSpawn db now task hostId answer).1 ↔
    ∀ final ∈ reseedFinal (.spawning task hostId spell) (.spawn answer), final.Undisturbed db := by
  have hrunning : ∀ (a : Task) (id : Nat) (delivered : Bool), isInProgress a = true →
      (reseedPatch id delivered a).status = .inProgress :=
    fun a _ _ hg => by simpa [reseedPatch, isInProgress] using hg
  cases answer with
  | created cwd seedDelivered =>
    refine exact_of_final ((commit_exact
      (spawnedSession now task.id task.projectId hostId cwd)
      (fun _ => rfl) (reseeded task spell true) hnames rfl rfl
      (f := reseedPatch db.nextSessionId seedDelivered)
      (fun _ => rfl) fun a _ hg _ => hrunning a _ _ hg).trans ?_)
    exact ⟨fun h => ⟨h.2, fun _ => h.1⟩, fun h => ⟨h.2 rfl, h.1⟩⟩
  | outcomeUnknown detail kept =>
    cases kept with
    | none => exact exact_of_quiet rfl (Or.inr rfl)
    | some cwd =>
      refine exact_of_final (adopt_exact
        (spawnedSession now task.id task.projectId hostId cwd)
        (fun _ => rfl) (reseeded task spell false) rfl hnames rfl rfl
        (f := reseedPatch db.nextSessionId false)
        (fun _ => rfl) (fun a hg => hrunning a _ _ hg) ?_)
      simp only [reseedSpawn]
      split
      · rename_i hm
        exact (if_pos hm).symm
      · rename_i hm
        exact (if_neg hm).symm
  | worktreeFailed detail => exact exact_of_quiet rfl (Or.inr rfl)
  | hostUnsupported detail => exact exact_of_quiet rfl (Or.inr rfl)
  | refused => exact exact_of_quiet rfl (Or.inr rfl)
  | threw message => exact exact_of_quiet rfl (Or.inr rfl)

theorem evolves_reseedSpawn (db : Db) (now : Nat) (task : Task) (hostId : HostId)
    (answer : SpawnAnswer) : Evolves db (reseedSpawn db now task hostId answer).1 := by
  cases answer with
  | created cwd seedDelivered =>
    exact .spawn_update _ (fun _ => Or.inl ⟨rfl, rfl⟩) fun _ => rfl
  | outcomeUnknown detail kept =>
    cases kept with
    | none => exact (Quiet.refl db).toEvolves
    | some cwd =>
      simp only [reseedSpawn]
      split
      · exact .spawn_update _ (fun _ => Or.inl ⟨rfl, rfl⟩) fun _ => rfl
      · exact (Evolves.insertSession db _).trans (Quiet.killSession _ _).toEvolves
  | worktreeFailed detail => exact (Quiet.refl db).toEvolves
  | hostUnsupported detail => exact (Quiet.refl db).toEvolves
  | refused => exact (Quiet.refl db).toEvolves
  | threw message => exact (Quiet.refl db).toEvolves

/-- **A later segment of a re-seed** does what it should exactly when its last write,
if it makes one, is undisturbed. -/
theorem reseedResume_exact {db db' : Db} {now : Nat} {pc pc' : ReseedPc} {a : Answer}
    (hnames : NamesSessions db) (h : reseedResume db now pc a = some (db', pc')) :
    (Accounted db db' ∧ Respects pc.reservation db db' ↔
      ∀ final ∈ reseedFinal pc a, final.Undisturbed db) ∧ Evolves db db' := by
  unfold reseedResume at h
  split at h
  · cases h
    exact ⟨exact_of_quiet rfl (Or.inr rfl), (Quiet.refl db).toEvolves⟩
  · cases h
    have hquiet := Quiet.setSessionStatus db ‹_› .killed .active
    exact ⟨exact_of_quiet hquiet.sessions (Or.inr rfl), hquiet.toEvolves⟩
  · rename_i task hostId spell answer
    simp only [Option.some.injEq] at h
    have hexact := reseedSpawn_exact db now task hostId spell answer hnames
    have hevolves := evolves_reseedSpawn db now task hostId answer
    rw [h] at hexact hevolves
    exact ⟨hexact, hevolves⟩
  · cases h
    exact ⟨exact_of_quiet rfl (Or.inl rfl), (Quiet.refl db).toEvolves⟩
  · cases h
    exact ⟨exact_of_quiet rfl (Or.inl rfl), (Quiet.refl db).toEvolves⟩
  · cases h

/-! ## The board -/

/-- What holds of every reachable board: rows name sessions that exist, and every
reservation is worth what it was. -/
structure Standing (db : Db) (calls : List Call) : Prop where
  names : NamesSessions db
  reserved : ∀ c ∈ calls, Reserved db c

theorem NamesSessions.evolves {db db' : Db} (h : NamesSessions db) (he : Evolves db db') :
    NamesSessions db' := by
  intro t a' x ha' hx
  obtain ⟨a, ha⟩ := he.get_before ha'
  rcases he.session t a a' x ha ha' hx with hold | hlt
  · exact (h t a x ha hold).trans_le he.next
  · exact hlt

/-- The database evolves, and the calls that moved are as good as they were. -/
theorem Standing.evolves {db db' : Db} {calls calls' : List Call} (h : Standing db calls)
    (he : Evolves db db') (hc : ∀ c ∈ calls', c ∈ calls ∨ Reserved db' c) : Standing db' calls' := by
  refine ⟨h.names.evolves he, fun c hmem => ?_⟩
  rcases hc c hmem with hold | hnew
  · exact (h.reserved c hold).evolves he
  · exact hnew

theorem mem_append_singleton {c d : Call} {calls : List Call} (h : c ∈ calls ++ [d]) :
    c ∈ calls ∨ c = d := by
  simpa using h

theorem reservation_dispatchStart (db : Db) (id : Nat) :
    (Call.dispatch (dispatchStart db id)).reservation = none := by
  unfold dispatchStart
  split
  · rfl
  · split
    · rfl
    · split <;> rfl

/-- **A step of the calls** keeps the rows and every reservation. -/
theorem step_keeps {cfg : Config} {w w' : World} {l : Label} (hs : Standing w.db w.calls)
    (h : step cfg w l = some w') : Evolves w.db w'.db ∧ Standing w'.db w'.calls := by
  -- the calls are the old ones and one that is as good as the step leaves it
  have hmove : ∀ c, Evolves w.db w'.db → Reserved w'.db c →
      (∀ d ∈ w'.calls, d ∈ w.calls ∨ d = c) → Evolves w.db w'.db ∧ Standing w'.db w'.calls := by
    intro c he hc hcalls
    refine ⟨he, hs.evolves he fun d hd => ?_⟩
    rcases hcalls d hd with hold | rfl
    · exact Or.inl hold
    · exact Or.inr hc
  cases l with
  | enqueue id auto seedCapable quarantined =>
    cases h
    have hquiet := quiet_enqueueTask w.db w.now id auto seedCapable quarantined
    exact ⟨hquiet.toEvolves, hs.evolves hquiet.toEvolves fun c hc => Or.inl hc⟩
  | tick ms =>
    cases h
    exact ⟨(Quiet.refl _).toEvolves, hs⟩
  | dispatch id =>
    cases h
    exact hmove _ (Quiet.refl _).toEvolves (.of_free _ (reservation_dispatchStart w.db id))
      fun d hd => mem_append_singleton hd
  | retry id =>
    cases h
    exact hmove _ (quiet_retryStart cfg w.db w.now id).toEvolves
      (reserved_retryStart cfg w.db w.now id) fun d hd => mem_append_singleton hd
  | sweep =>
    simp only [step] at h
    split at h
    · cases h
      exact ⟨(Quiet.refl _).toEvolves, hs⟩
    · cases h
      exact hmove (.sweep .starting) (Quiet.refl _).toEvolves (.of_free _ rfl)
        fun d hd => mem_append_singleton hd
  | resume call answer =>
    simp only [step, resume] at h
    cases hc : w.calls[call]? with
    | none => rw [hc] at h; cases h
    | some c =>
      rw [hc] at h
      have hmem : c ∈ w.calls := List.mem_of_getElem? hc
      cases c with
      | dispatch pc =>
        simp only at h
        cases hr : dispatchResume cfg w.db w.now pc answer with
        | none => rw [hr] at h; cases h
        | some p =>
          rw [hr] at h
          cases h
          obtain ⟨hevolves, hreserved⟩ := dispatchResume_keeps (hs.reserved _ hmem) hr
          exact hmove _ hevolves hreserved fun d hd => List.mem_or_eq_of_mem_set hd
      | retry pc =>
        simp only at h
        cases hr : retryResumeStep w.db w.now pc answer with
        | none => rw [hr] at h; cases h
        | some p =>
          rw [hr] at h
          cases h
          obtain ⟨hevolves, hreserved⟩ := retryResumeStep_keeps (hs.reserved _ hmem) hr
          exact hmove _ hevolves hreserved fun d hd => List.mem_or_eq_of_mem_set hd
      | sweep pc =>
        simp only at h
        cases hr : sweepResume cfg w pc answer with
        | none => rw [hr] at h; cases h
        | some p =>
          obtain ⟨w₁, pc'⟩ := p
          rw [hr] at h
          cases h
          obtain ⟨hdb, hcalls⟩ := sweepResume_spec hr
          have hevolves : Evolves w.db w₁.db := by
            rcases hdb with hdb | ⟨id, now, hdb⟩
            · rw [hdb]
              exact (Quiet.refl _).toEvolves
            · rw [hdb]
              exact (quiet_giveUpIfOverdue w.db id now).toEvolves
          refine ⟨hevolves, hs.evolves hevolves fun d hd => ?_⟩
          rcases List.mem_or_eq_of_mem_set hd with hd | rfl
          · rcases hcalls with hcalls | ⟨db, id, hcalls⟩
            · rw [hcalls] at hd
              exact Or.inl hd
            · rw [hcalls] at hd
              rcases mem_append_singleton hd with hd | rfl
              · exact Or.inl hd
              · exact Or.inr (.of_free _ (reservation_dispatchStart db id))
          · exact Or.inr (.of_free _ rfl)

/-- **A step of the calls** leaves no orphan exactly when its last write, if it makes
one, is undisturbed. -/
theorem step_exact {cfg : Config} {b : Board} {w' : World} {l : Label}
    (hs : Standing b.world.db b.world.calls) (h : step cfg b.world l = some w') :
    LeavesNoOrphan b (.call l) { b with world := w' } ↔ Undisturbed b (.call l) := by
  cases l with
  | enqueue id auto seedCapable quarantined =>
    cases h
    exact exact_of_quiet (quiet_enqueueTask _ _ id auto seedCapable quarantined).sessions (Or.inl rfl)
  | tick ms =>
    cases h
    exact exact_of_quiet rfl (Or.inl rfl)
  | dispatch id =>
    cases h
    exact exact_of_quiet rfl (Or.inl rfl)
  | retry id =>
    cases h
    exact exact_of_quiet (quiet_retryStart cfg b.world.db b.world.now id).sessions (Or.inl rfl)
  | sweep =>
    simp only [step] at h
    split at h <;> cases h <;> exact exact_of_quiet rfl (Or.inl rfl)
  | resume call answer =>
    simp only [step, resume] at h
    cases hc : b.world.calls[call]? with
    | none => rw [hc] at h; cases h
    | some c =>
      rw [hc] at h
      have hmem : c ∈ b.world.calls := List.mem_of_getElem? hc
      have hheld : held b (.call (.resume call answer)) = c.own := by
        simp only [held, hc, Option.bind_some]
        rfl
      cases c with
      | dispatch pc =>
        simp only at h
        cases hr : dispatchResume cfg b.world.db b.world.now pc answer with
        | none => rw [hr] at h; cases h
        | some p =>
          rw [hr] at h
          cases h
          have hfinal : finalWrite b (.call (.resume call answer)) = dispatchFinal pc answer := by
            simp only [finalWrite, hc]
          rw [LeavesNoOrphan, Undisturbed, hheld, hfinal]
          exact dispatchResume_exact hs.names (hs.reserved _ hmem) hr
      | retry pc =>
        simp only at h
        cases hr : retryResumeStep b.world.db b.world.now pc answer with
        | none => rw [hr] at h; cases h
        | some p =>
          rw [hr] at h
          cases h
          have hfinal : finalWrite b (.call (.resume call answer)) =
              retryFinal b.world.db pc answer := by
            simp only [finalWrite, hc]
          rw [LeavesNoOrphan, Undisturbed, hheld, hfinal]
          exact retryResumeStep_exact hs.names hr
      | sweep pc =>
        simp only at h
        cases hr : sweepResume cfg b.world pc answer with
        | none => rw [hr] at h; cases h
        | some p =>
          obtain ⟨w₁, pc'⟩ := p
          rw [hr] at h
          cases h
          have hfinal : finalWrite b (.call (.resume call answer)) = none := by
            simp only [finalWrite, hc]
          have hsessions : w₁.db.sessions.keys = b.world.db.sessions.keys := by
            rcases (sweepResume_spec hr).1 with hdb | ⟨id, now, hdb⟩
            · rw [hdb]
            · rw [hdb]
              exact (quiet_giveUpIfOverdue b.world.db id now).sessions
          rw [LeavesNoOrphan, Undisturbed, hheld, hfinal]
          exact exact_of_quiet hsessions (Or.inl rfl)

/-- **A step of the board** keeps what stands, and leaves no orphan exactly when its
last write, if it makes one, is undisturbed. -/
theorem boardStep_exact {cfg : Config} {b b' : Board} {e : Event}
    (hs : Standing b.world.db b.world.calls) (h : boardStep cfg b e = some b') :
    Standing b'.world.db b'.world.calls ∧ (LeavesNoOrphan b e b' ↔ Undisturbed b e) := by
  have hkeep : ∀ db, Evolves b.world.db db → Standing db b.world.calls :=
    fun db he => hs.evolves he fun c hc => Or.inl hc
  cases e with
  | call l =>
    obtain ⟨w', hw', rfl⟩ := Option.map_eq_some_iff.1 h
    exact ⟨(step_keeps hs hw').2, step_exact hs hw'⟩
  | reseed task force =>
    cases h
    have hquiet := quiet_reseedStart b.world.db task force
    exact ⟨hkeep _ hquiet.toEvolves, exact_of_quiet hquiet.sessions (Or.inl rfl)⟩
  | resumeReseed call answer =>
    simp only [boardStep] at h
    cases hc : b.reseeds[call]? with
    | none => rw [hc] at h; cases h
    | some pc =>
      rw [hc] at h
      simp only at h
      cases hr : reseedResume b.world.db b.world.now pc answer with
      | none => rw [hr] at h; cases h
      | some p =>
        rw [hr] at h
        cases h
        obtain ⟨hexact, hevolves⟩ := reseedResume_exact hs.names hr
        refine ⟨hkeep _ hevolves, ?_⟩
        have hheld : held b (.resumeReseed call answer) = pc.reservation := by
          simp only [held, hc, Option.bind_some]
        have hfinal : finalWrite b (.resumeReseed call answer) = reseedFinal pc answer := by
          simp only [finalWrite, hc]
        rw [LeavesNoOrphan, Undisturbed, hheld, hfinal]
        exact hexact
  | write id row =>
    simp only [boardStep] at h
    split at h
    · rename_i hrow
      cases h
      have hquiet : Quiet b.world.db (b.world.db.updateTask id (fun _ => true) (writePatch row)) := by
        refine .update id _ _ ⟨fun a => Or.inr (Nat.lt_succ_self _), fun a x hx => Or.inr ?_⟩
        have hx : row.sessionId = some x := hx
        rw [hx, Option.all_some, decide_eq_true_eq] at hrow
        exact hrow
      exact ⟨hkeep _ hquiet.toEvolves, exact_of_quiet hquiet.sessions (Or.inl rfl)⟩
    · cases h
  | session id old new =>
    cases h
    have hquiet := Quiet.setSessionStatus b.world.db id old new
    exact ⟨hkeep _ hquiet.toEvolves, exact_of_quiet hquiet.sessions (Or.inl rfl)⟩

/-- No call of any kind is in flight. -/
def Board.Idle (b : Board) : Prop := b.world.calls = [] ∧ b.reseeds = []

/-- **No orphan worker, no overwritten decision.** From any state with no call in
flight whose rows name existing sessions, and for every interleaving of dispatches,
retries, sweeps and re-seeds with all other writers: every session that a call spawns
ends as the session of its running task or killed, and no call moves or re-points a
task that another writer has taken, exactly when each last write of a call that lands
finds the task in the call's own spell, and the commit of a re-seed lands. -/
theorem no_orphan_iff (cfg : Config) (b : Board) (run : List Event) (hidle : b.Idle)
    (hnames : NamesSessions b.world.db) :
    Run.AlongSteps (boardStep cfg) LeavesNoOrphan b run ↔
      Run.Meets (boardStep cfg) Undisturbed b run := by
  refine Run.alongSteps_iff_meets (I := fun b => Standing b.world.db b.world.calls)
    (fun s e s' hs _ h => (boardStep_exact hs h).1) (fun s e s' hs h => (boardStep_exact hs h).2) ?_
  refine ⟨hnames, fun c hc => ?_⟩
  rw [hidle.1] at hc
  cases hc

/-- A board with one queued task. -/
def queuedBoard : Board where
  world := demoWorld (demoDb [{ id := 1, projectId := 1, status := .claimed }] [] 1
    nodup_one List.nodup_nil fresh_one)
  reseeds := []

/-- A dispatch that waits for the outcome of its spawn. -/
def spawningRun : List Event :=
  [.call (.dispatch 1), .call (.resume 0 (.gate .clear)),
    .call (.resume 0 (.placement (.chosen "local" .present))), .call (.resume 0 .cleared),
    .call (.resume 0 (.baseRef none)), .call (.resume 0 .settled)]

/-- The dispatch runs alone. -/
theorem no_orphan_of_dispatch :
    Run.AlongSteps (boardStep demoConfig) LeavesNoOrphan queuedBoard
      (spawningRun ++ [.call (.resume 0 (.spawn (.created "/p/w" true)))]) := by
  refine (no_orphan_iff demoConfig queuedBoard _ ⟨rfl, rfl⟩ ?_).2 (by decide)
  intro t a x ha hx
  obtain rfl : a = { id := 1, projectId := 1, status := .claimed } := by
    simpa [queuedBoard, demoWorld, demoDb] using Table.get_mem ha
  cases hx

/-- **A decision is overwritten.** While the worker of a dispatch is spawning the task
is given up; the commit asks for the task's id alone and gives the failed task a live
session. -/
theorem decision_overwritten :
    ¬ ∀ (cfg : Config) (b : Board) (run : List Event), b.Idle → NamesSessions b.world.db →
      Run.AlongSteps (boardStep cfg) LeavesNoOrphan b run := by
  intro h
  have hsteps := h demoConfig queuedBoard
    ((spawningRun ++ [.write 1 { id := 1, projectId := 1, status := .failed }]) ++
      [.call (.resume 0 (.spawn (.created "/p/w" true)))]) ⟨rfl, rfl⟩ (by
    intro t a x ha hx
    obtain rfl : a = { id := 1, projectId := 1, status := .claimed } := by
      simpa [queuedBoard, demoWorld, demoDb] using Table.get_mem ha
    cases hx)
  have hplay : (Run.play (boardStep demoConfig) queuedBoard
      (spawningRun ++ [.write 1 { id := 1, projectId := 1, status := .failed }])).map (fun b =>
        (decide (1 ∈ b.world.db.sessions.keys),
          (boardStep demoConfig b (.call (.resume 0 (.spawn (.created "/p/w" true))))).map fun b' =>
            ((b'.world.db.sessions.get 1).map fun s =>
                decide (s.spawnedFor = some 1 ∧ s.status = .active),
              (b'.world.db.tasks.get 1).map Task.status))) =
      some (false, some (some true, some .failed)) := by decide
  obtain ⟨b, hb, hview⟩ := Option.map_eq_some_iff.1 hplay
  simp only [Prod.mk.injEq, decide_eq_false_iff_not] at hview
  obtain ⟨hnew, hnext⟩ := hview
  obtain ⟨b', hb', hview'⟩ := Option.map_eq_some_iff.1 hnext
  simp only [Prod.mk.injEq] at hview'
  obtain ⟨hsession, htask⟩ := hview'
  obtain ⟨s, hs, hsview⟩ := Option.map_eq_some_iff.1 hsession
  rw [decide_eq_true_eq] at hsview
  -- the session is live, and its task is not running
  rcases (hsteps.last hb hb').1 1 s 1 hnew hs hsview.1 with hkilled | ⟨a, ha, -, hrunning⟩
  · rw [hsview.2] at hkilled
    cases hkilled
  · rw [ha, Option.map_some, hrunning] at htask
    cases htask

end Claim
end Mullion
