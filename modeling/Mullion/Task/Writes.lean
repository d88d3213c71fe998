import Mullion.Task.Reseed

/-!
# What the calls write

Every segment of a dispatch, of a retry, of a sweep and of a re-seed writes with
four statements only: a guarded update of one task, a guarded change of a session's
status, and the insertion of a session.

* `Writes` — a sequence of such writes;
* `Writes.next_le`, `Writes.session` — what it leaves alone: no id is handed out twice, and of
  the sessions that were there every column but the status stays;
* `boardStep_writes` — a step of the board is such a sequence.
-/

namespace Mullion
namespace Claim

/-- A sequence of the writes that the calls make. -/
inductive Writes : Db → Db → Prop
  | refl (db : Db) : Writes db db
  | task (db : Db) (id : Nat) (g : Task → Bool) (f : Task → Task) (hf : ∀ t, (f t).id = t.id) :
    Writes db (db.updateTask id g f hf)
  | status (db : Db) (id : Nat) (old new : SessionStatus) :
    Writes db (db.setSessionStatus id old new)
  | insert (db : Db) (row : Session) : Writes db (db.insertSession row)
  | trans {db db' db'' : Db} : Writes db db' → Writes db' db'' → Writes db db''

/-! ## What they leave alone -/

theorem Writes.next_le {db db' : Db} (h : Writes db db') :
    db.nextSessionId ≤ db'.nextSessionId := by
  induction h with
  | insert => exact Nat.le_succ _
  | trans _ _ ih ih' => exact ih.trans ih'
  | _ => exact le_refl _

/-- The session after a change of status. -/
theorem get_setSessionStatus (db : Db) (id : Nat) (old new : SessionStatus) (i : Nat) :
    (db.setSessionStatus id old new).sessions.get i =
      if i = id then
        (db.sessions.get i).map (fun s => if s.status = old then { s with status := new } else s)
      else db.sessions.get i := by
  by_cases hi : i = id
  · subst hi
    rw [if_pos rfl, Db.setSessionStatus, Table.get_updateIf]
    simp
  · rw [if_neg hi]
    have hoff : Table.SameOff id db.sessions (db.setSessionStatus id old new).sessions :=
      Table.sameOff_updateIf _ _ _ _ (by intro; rfl)
    exact hoff.get i hi

/-- A session that was there keeps every column but its status. -/
theorem Writes.session {db db' : Db} (h : Writes db db') {id : Nat} {s : Session}
    (hs : db.sessions.get id = some s) :
    ∃ status, db'.sessions.get id = some { s with status } := by
  induction h generalizing s with
  | refl => exact ⟨s.status, hs⟩
  | task => exact ⟨s.status, hs⟩
  | status db i old new =>
    rw [get_setSessionStatus]
    by_cases hi : id = i
    · rw [if_pos hi, hs, Option.map_some]
      by_cases ho : s.status = old
      · exact ⟨new, by rw [if_pos ho]⟩
      · exact ⟨s.status, by rw [if_neg ho]⟩
    · rw [if_neg hi]
      exact ⟨s.status, hs⟩
  | insert db row =>
    rw [Db.get_insertSession]
    have hne : id ≠ db.nextSessionId := by
      rintro rfl
      exact db.nextSessionId_fresh (Table.mem_keys_iff.2 ⟨s, hs⟩)
    rw [if_neg hne]
    exact ⟨s.status, hs⟩
  | trans _ _ ih ih' =>
    obtain ⟨status, hs⟩ := ih hs
    obtain ⟨status', hs'⟩ := ih' hs
    exact ⟨status', hs'⟩

/-- A session that appears has an id that was never given. -/
theorem Writes.fresh {db db' : Db} (h : Writes db db') {id : Nat}
    (hs : db.sessions.get id = none) (hid : id < db.nextSessionId) :
    db'.sessions.get id = none := by
  induction h with
  | refl => exact hs
  | task => exact hs
  | status db i old new =>
    rw [get_setSessionStatus, hs]
    split <;> rfl
  | insert db row =>
    rw [Db.get_insertSession, if_neg (Nat.ne_of_lt hid)]
    exact hs
  | trans h _ ih ih' => exact ih' (ih hs hid) (hid.trans_le h.next_le)

/-! ## The segments -/

theorem writes_killSession (db : Db) (id : Nat) : Writes db (db.killSession id) := by
  unfold Db.killSession
  split
  · exact .refl db
  · split
    · exact .status db id _ _
    · exact .status db id _ _
    · exact .refl db

theorem writes_enqueueTask (db : Db) (now id : Nat) (auto seedCapable quarantined : Bool) :
    Writes db (enqueueTask db now id auto seedCapable quarantined).1 := by
  unfold enqueueTask
  split
  · exact .refl db
  · split
    · exact .refl db
    · repeat' split
      all_goals first
        | exact .refl db
        | exact .task _ _ _ _ _

theorem writes_failQueuedTask (db : Db) (id : Nat) (detail : String) (forget : Bool) :
    Writes db (failQueuedTask db id detail forget).1 := by
  unfold failQueuedTask
  split
  · exact .refl db
  · split
    · exact .refl db
    · exact .task _ _ _ _ _

theorem writes_giveUpIfOverdue (db : Db) (id now : Nat) :
    Writes db (giveUpIfOverdue db id now).1 := by
  unfold giveUpIfOverdue
  split
  · exact .refl db
  · split
    · exact .refl db
    · split
      · exact .refl db
      · exact writes_failQueuedTask db id _ _

theorem writes_holdClaim (db : Db) (now : Nat) (task : Task) (since : Option Nat)
    (detail : String) : Writes db (holdClaim db now task since detail).1 := by
  unfold holdClaim
  simp only
  split
  · exact .task _ _ _ _ _
  · exact .refl db

theorem writes_dropHold (db : Db) (task : Task) : Writes db (dropHold db task) := by
  unfold dropHold
  split
  · exact .task _ _ _ _ _
  · exact .refl db

theorem writes_dispatchBlockers (db : Db) (task : Task) (project : Project) (gate : Gate) :
    Writes db (dispatchBlockers db task project gate).1 := by
  cases gate with
  | unresolved => exact .refl db
  | blocked blockers =>
    simp only [dispatchBlockers, blockedHold]
    split
    · exact .task _ _ _ _ _
    · exact .refl db
  | clear =>
    simp only [dispatchBlockers, blockedHold]
    split
    · exact .task _ _ _ _ _
    · exact .refl db

theorem writes_dispatchPlace (db : Db) (now max : Nat) (task : Task) (project : Project)
    (command : String) (reading : PlacementReading) :
    Writes db (dispatchPlace db now max task project command reading).1 := by
  cases reading with
  | transient detail => exact writes_holdClaim db now task _ detail
  | refused detail => exact writes_failQueuedTask db task.id detail true
  | chosen hostId checkout =>
    cases checkout with
    | preparing => exact writes_holdClaim db now task _ _
    | failed jobDetail => exact .task _ _ _ _ _
    | present =>
      have hdrop := writes_dropHold db task
      simp only [dispatchPlace]
      split
      · exact hdrop.trans (writes_failQueuedTask _ task.id _ false)
      · split
        · exact hdrop
        · exact hdrop.trans (.task _ _ _ _ _)

theorem writes_dispatchSpawn (db : Db) (now : Nat) (r : Reservation) (baseSha : Option String)
    (answer : SpawnAnswer) : Writes db (dispatchSpawn db now r baseSha answer).1 := by
  cases answer with
  | created cwd seedDelivered => exact .trans (.insert _ _) (.task _ _ _ _ _)
  | outcomeUnknown detail kept =>
    cases kept with
    | none => exact .task _ _ _ _ _
    | some cwd =>
      simp only [dispatchSpawn]
      split
      · exact .trans (.insert _ _) (.task _ _ _ _ _)
      · exact .trans (.insert _ _) (writes_killSession _ _)
  | _ => exact .task _ _ _ _ _

/-- **A segment of a dispatch.** -/
theorem writes_dispatchResume {cfg : Config} {db db' : Db} {now : Nat} {pc pc' : DispatchPc}
    {a : Answer} (h : dispatchResume cfg db now pc a = some (db', pc')) : Writes db db' := by
  unfold dispatchResume at h
  split at h
  case h_1 =>
    have hw := writes_dispatchBlockers db ‹Task› ‹Project› ‹Gate›
    simp only [Option.some.injEq] at h
    rwa [h] at hw
  case h_2 =>
    simp only [Option.some.injEq] at h
    have hw := congrArg Prod.fst h
    simp only at hw
    rw [← hw]
    exact writes_dispatchPlace _ _ _ _ _ _ _
  case h_10 =>
    simp only [Option.some.injEq] at h
    have hw := congrArg Prod.fst h
    simp only at hw
    rw [← hw]
    exact writes_dispatchSpawn _ _ _ _ _
  all_goals first
    | cases h; exact .refl db
    | cases h; exact .task _ _ _ _ _
    | cases h

theorem writes_retryResume (db : Db) (r : RetryReservation) : Writes db (retryResume db r).1 := by
  unfold retryResume
  simp only
  split
  · exact .task _ _ _ _ _
  · exact .refl db

theorem writes_retryStart (cfg : Config) (db : Db) (now id : Nat) :
    Writes db (retryStart cfg db now id).1 := by
  unfold retryStart
  split
  · exact .refl db
  · simp only
    split
    · exact .trans (.task _ _ _ _ _) (writes_killSession _ _)
    · exact .trans (.task _ _ _ _ _) (writes_retryResume _ _)

theorem writes_retrySpawn (db : Db) (now : Nat) (r : RetryReservation) (host : RetryHost)
    (answer : SpawnAnswer) : Writes db (retrySpawn db now r host answer).1 := by
  cases answer with
  | created cwd seedDelivered => exact .trans (.insert _ _) (.task _ _ _ _ _)
  | outcomeUnknown detail kept =>
    cases kept with
    | none => exact .refl db
    | some cwd =>
      simp only [retrySpawn]
      split
      · exact .trans (.insert _ _) (.task _ _ _ _ _)
      · exact .trans (.insert _ _) (writes_killSession _ _)
  | _ => exact .refl db

/-- **A segment of a retry.** -/
theorem writes_retryResumeStep {db db' : Db} {now : Nat} {pc pc' : RetryPc} {a : Answer}
    (h : retryResumeStep db now pc a = some (db', pc')) : Writes db db' := by
  have hfst : ∀ {x : Db × RetryPc}, some x = some (db', pc') → Writes db x.1 → Writes db db' := by
    rintro x hx hw
    cases hx
    exact hw
  unfold retryResumeStep at h
  split at h
  case h_1 | h_2 => exact hfst h (writes_retryResume db _)
  case h_9 => exact hfst h (writes_retrySpawn db now _ _ _)
  all_goals first
    | cases h; exact .refl db
    | cases h; exact .task _ _ _ _ _
    | cases h

theorem writes_sweepResume {cfg : Config} {w w' : World} {pc pc' : SweepPc} {a : Answer}
    (h : sweepResume cfg w pc a = some (w', pc')) : Writes w.db w'.db := by
  obtain ⟨hdb, -⟩ := sweepResume_spec h
  rcases hdb with hdb | ⟨id, now, hdb⟩
  · rw [hdb]
    exact .refl _
  · rw [hdb]
    exact writes_giveUpIfOverdue _ _ _

theorem step_writes {cfg : Config} {w w' : World} {l : Label} (h : step cfg w l = some w') :
    Writes w.db w'.db := by
  cases l with
  | enqueue id auto seedCapable quarantined =>
    cases h
    exact writes_enqueueTask _ _ _ _ _ _
  | retry id =>
    cases h
    exact writes_retryStart _ _ _ _
  | sweep =>
    simp only [step] at h
    split at h <;> cases h <;> exact .refl _
  | resume call answer =>
    simp only [step, resume] at h
    split at h
    · cases h
    · split at h
      · cases h
      · cases h
        exact writes_dispatchResume ‹_›
    · split at h
      · cases h
      · cases h
        exact writes_retryResumeStep ‹_›
    · split at h
      · cases h
      · rename_i hr
        have hw := writes_sweepResume hr
        cases h
        exact hw
  | _ =>
    cases h
    exact .refl _

theorem writes_reseedStart (db : Db) (task : Task) (force : Bool) :
    Writes db (reseedStart db task force).1 := by
  unfold reseedStart
  split
  · simp only
    split
    · split
      · split
        · exact .status db _ _ _
        · exact .refl db
      · exact .refl db
    · exact .refl db
  · exact .refl db

theorem writes_reseedSpawn (db : Db) (now : Nat) (task : Task) (hostId : HostId)
    (answer : SpawnAnswer) : Writes db (reseedSpawn db now task hostId answer).1 := by
  cases answer with
  | created cwd seedDelivered => exact .trans (.insert _ _) (.task _ _ _ _ _)
  | outcomeUnknown detail kept =>
    cases kept with
    | none => exact .refl db
    | some cwd =>
      simp only [reseedSpawn]
      split
      · exact .trans (.insert _ _) (.task _ _ _ _ _)
      · exact .trans (.insert _ _) (writes_killSession _ _)
  | _ => exact .refl db

/-- **A segment of a re-seed.** -/
theorem writes_reseedResume {db db' : Db} {now : Nat} {pc pc' : ReseedPc} {a : Answer}
    (h : reseedResume db now pc a = some (db', pc')) : Writes db db' := by
  unfold reseedResume at h
  split at h
  · cases h
    exact .refl db
  · cases h
    exact .status db _ _ _
  · simp only [Option.some.injEq] at h
    have hw := congrArg Prod.fst h
    simp only at hw
    rw [← hw]
    exact writes_reseedSpawn _ _ _ _ _
  all_goals cases h
  all_goals exact .refl db

/-- **A step of the board.** -/
theorem boardStep_writes {cfg : Config} {b b' : Board} {e : Event}
    (h : boardStep cfg b e = some b') : Writes b.world.db b'.world.db := by
  cases e with
  | call label =>
    simp only [boardStep] at h
    obtain ⟨w, hw, rfl⟩ := Option.map_eq_some_iff.1 h
    exact step_writes hw
  | reseed task force =>
    cases h
    exact writes_reseedStart _ _ _
  | resumeReseed call answer =>
    simp only [boardStep] at h
    split at h
    · cases h
    · split at h
      · cases h
      · cases h
        exact writes_reseedResume ‹_›
  | write taskId row =>
    simp only [boardStep] at h
    split at h
    · cases h
      exact .task _ _ _ _ _
    · cases h
  | session sessionId old new =>
    cases h
    exact .status _ _ _ _

/-! ## The clock -/

theorem sweepLoop_now (cfg : Config) (w : World) (now : Nat) (queue : List Nat) :
    (sweepLoop cfg w now queue).1.now = w.now := by
  induction queue with
  | nil => rfl
  | cons id queue ih =>
    rw [sweepLoop]
    split
    · exact ih
    · split <;> rfl

theorem sweepOutcome_now (w : World) (id now : Nat) (outcome : DispatchTaskOutcome) :
    (sweepOutcome w id now outcome).1.now = w.now := by
  unfold sweepOutcome
  split
  any_goals rfl
  all_goals split <;> rfl

theorem sweepResume_now {cfg : Config} {w w' : World} {pc pc' : SweepPc} {a : Answer}
    (h : sweepResume cfg w pc a = some (w', pc')) : w'.now = w.now := by
  unfold sweepResume at h
  split at h
  · simp only [Option.some.injEq] at h
    have hnow := sweepLoop_now cfg { w with sweepPending := false } w.now (queuedTasks w.db)
    rw [h] at hnow
    exact hnow
  · split at h
    · cases h
      rfl
    · rename_i call id queue now _ outcome _ _
      have hout := sweepOutcome_now w id now outcome
      split at h
      · rename_i w₁ hw₁
        rw [hw₁] at hout
        simp only [Option.some.injEq] at h
        have hnow := sweepLoop_now cfg w₁ now queue
        rw [h] at hnow
        exact hnow.trans hout
      · rename_i w₁ hw₁
        rw [hw₁] at hout
        cases h
        exact hout
    · cases h
  · split at h <;> cases h <;> rfl
  · cases h

/-- **Time does not run back.** -/
theorem boardStep_now {cfg : Config} {b b' : Board} {e : Event}
    (h : boardStep cfg b e = some b') : b.world.now ≤ b'.world.now := by
  cases e with
  | call label =>
    simp only [boardStep] at h
    obtain ⟨w, hw, rfl⟩ := Option.map_eq_some_iff.1 h
    cases label with
    | tick ms =>
      cases hw
      exact Nat.le_add_right _ _
    | sweep =>
      simp only [step] at hw
      split at hw <;> cases hw <;> exact le_refl _
    | resume call answer =>
      simp only [step, resume] at hw
      split at hw
      · cases hw
      · split at hw <;> cases hw
        exact le_refl _
      · split at hw <;> cases hw
        exact le_refl _
      · split at hw
        · cases hw
        · rename_i hr
          have hnow := sweepResume_now hr
          cases hw
          exact hnow.ge
    | _ =>
      cases hw
      exact le_refl _
  | resumeReseed call answer =>
    simp only [boardStep] at h
    split at h
    · cases h
    · split at h <;> cases h
      exact le_refl _
  | write taskId row =>
    simp only [boardStep] at h
    split at h <;> cases h
    exact le_refl _
  | _ =>
    cases h
    exact le_refl _

end Claim
end Mullion
