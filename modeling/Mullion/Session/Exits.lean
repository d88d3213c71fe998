import Mullion.Lib.Run
import Mullion.Session.Reconcile

/-!
# A session exits on proof, and once

What the passes of `reconcileExitedSessions` do in any run, while several of them overlap and
sessions come and go. A session must not be written off because one probe failed: `ProvenDead` asks
for two dead answers of its host to one thread, and between them the invalidation of the cache and
the start of the second probe. And it must be written off once: every exit is one thread's, which
terminates and fails at most once (`OneExit`).

Both are about the log of a run, and the work is to say what a thread that waits still knows. A
probe is shared among threads, so an answer may be older than the question; `ThreadOk` has, for
each place where a thread can wait, what the log says of its probes, and `Known` ties the rows that
it remembers to the board. What others do only adds to the log, so that such knowledge lasts
(`ThreadOk.grows`). A segment between two waits is one lemma for each place (`walkRow_advances`,
`flipRow_advances`, `failTasks_advances`, joined in `threadResume_advances`); all else leaves the
threads alone (`Inv.aside`). `reconcile_safe` is the law for every run from every board.
-/

namespace Mullion
namespace Reconcile

open Claim (Board boardStep Writes)

/-! ## The log -/

/-- The exit that a mark opens. -/
def Mark.opens : Mark → Option Nat
  | .exited exit _ _ => some exit
  | _ => none

/-- The exit that a `terminate` belongs to. -/
def Mark.terminates : Mark → Option Nat
  | .terminated exit _ => some exit
  | _ => none

/-- The exit that a task failure belongs to. -/
def Mark.fails : Mark → Option Nat
  | .failed exit _ => some exit
  | _ => none

/-- A mark that belongs to no exit. -/
def Mark.Plain : Mark → Prop
  | .invalidated | .probe _ _ | .answered _ _ _ _ => True
  | .exited _ _ _ | .terminated _ _ | .failed _ _ => False

/-- The exits of the log are numbered apart, each has at most one `terminate` and one
task failure, and these are of the thread that the exit is of. -/
structure OneExit (log : List Mark) : Prop where
  exits : (log.filterMap Mark.opens).Nodup
  terminations : (log.filterMap Mark.terminates).Nodup
  failures : (log.filterMap Mark.fails).Nodup
  terminatedBy : ∀ exit thread, .terminated exit thread ∈ log →
    ∃ sessionId, .exited exit thread sessionId ∈ log
  failedBy : ∀ exit thread, .failed exit thread ∈ log →
    ∃ sessionId, .exited exit thread sessionId ∈ log

/-- The host of the thread answered `dead` twice before the exit, and the second answer
is of a probe that started after the cache was invalidated. -/
def ProvenDead (log : List Mark) (hostId : HostId) (thread sessionId exit : Nat) : Prop :=
  ∃ k₁ k₂, [.probe k₁ hostId, .answered thread sessionId k₁ .dead, .invalidated,
    .probe k₂ hostId, .answered thread sessionId k₂ .dead,
    .exited exit thread sessionId].Sublist log

section Log

variable {log l : List Mark}

theorem filterMap_plain {f : Mark → Option Nat} (hf : ∀ m : Mark, m.Plain → f m = none)
    (hl : ∀ m ∈ l, m.Plain) : (log ++ l).filterMap f = log.filterMap f := by
  have hnil : l.filterMap f = [] := List.filterMap_eq_nil_iff.2 fun m hm => hf m (hl m hm)
  rw [List.filterMap_append, hnil, List.append_nil]

theorem opens_plain (m : Mark) (h : m.Plain) : m.opens = none := by cases m <;> trivial

theorem terminates_plain (m : Mark) (h : m.Plain) : m.terminates = none := by cases m <;> trivial

theorem fails_plain (m : Mark) (h : m.Plain) : m.fails = none := by cases m <;> trivial

/-- A mark of an exit is not among plain marks. -/
theorem mem_of_plain {m : Mark} (hm : ¬ m.Plain) (hl : ∀ m ∈ l, m.Plain) (h : m ∈ log ++ l) :
    m ∈ log := by
  rcases List.mem_append.1 h with h | h
  · exact h
  · exact absurd (hl m h) hm

/-- Plain marks change nothing. -/
theorem OneExit.plain (h : OneExit log) (hl : ∀ m ∈ l, m.Plain) : OneExit (log ++ l) where
  exits := by
    rw [filterMap_plain opens_plain hl]
    exact h.exits
  terminations := by
    rw [filterMap_plain terminates_plain hl]
    exact h.terminations
  failures := by
    rw [filterMap_plain fails_plain hl]
    exact h.failures
  terminatedBy := by
    intro n i hm
    obtain ⟨id, hid⟩ := h.terminatedBy n i (mem_of_plain (fun hp => hp) hl hm)
    exact ⟨id, List.mem_append_left _ hid⟩
  failedBy := by
    intro n i hm
    obtain ⟨id, hid⟩ := h.failedBy n i (mem_of_plain (fun hp => hp) hl hm)
    exact ⟨id, List.mem_append_left _ hid⟩

/-- The exit of a mark that opens one. -/
theorem of_mem_opens {n : Nat} (h : n ∈ log.filterMap Mark.opens) :
    ∃ i id, .exited n i id ∈ log := by
  obtain ⟨m, hm, hn⟩ := List.mem_filterMap.1 h
  cases m with
  | exited n' i id =>
    cases hn
    exact ⟨i, id, hm⟩
  | _ => cases hn

theorem of_mem_terminates {n : Nat} (h : n ∈ log.filterMap Mark.terminates) :
    ∃ i, .terminated n i ∈ log := by
  obtain ⟨m, hm, hn⟩ := List.mem_filterMap.1 h
  cases m with
  | terminated n' i =>
    cases hn
    exact ⟨i, hm⟩
  | _ => cases hn

theorem of_mem_fails {n : Nat} (h : n ∈ log.filterMap Mark.fails) : ∃ i, .failed n i ∈ log := by
  obtain ⟨m, hm, hn⟩ := List.mem_filterMap.1 h
  cases m with
  | failed n' i =>
    cases hn
    exact ⟨i, hm⟩
  | _ => cases hn

/-- Two marks of one number are one. -/
theorem eq_of_nodup {f : Mark → Option Nat} (h : (log.filterMap f).Nodup) {a b : Mark} {n : Nat}
    (ha : a ∈ log) (hb : b ∈ log) (hfa : f a = some n) (hfb : f b = some n) : a = b := by
  induction log with
  | nil => cases ha
  | cons x log ih =>
    have hmem : ∀ c ∈ log, f c = some n → n ∈ log.filterMap f :=
      fun c hc hfc => List.mem_filterMap.2 ⟨c, hc, hfc⟩
    rw [← List.singleton_append, List.filterMap_append] at h
    have hx : f x = some n → n ∉ log.filterMap f := by
      intro hfx hn
      have hsingle : [x].filterMap f = [n] := List.filterMap_cons_some hfx
      rw [hsingle] at h
      exact (List.nodup_cons.1 h).1 hn
    rcases List.mem_cons.1 ha with hax | ha
    · rcases List.mem_cons.1 hb with hbx | hb
      · rw [hax, hbx]
      · exact absurd (hmem b hb hfb) (hx (hax ▸ hfa))
    · rcases List.mem_cons.1 hb with hbx | hb
      · exact absurd (hmem a ha hfa) (hx (hbx ▸ hfb))
      · exact ih h.of_append_right ha hb

/-- One exit is one thread's. -/
theorem OneExit.same (h : OneExit log) {n i j id id' : Nat} (hi : .exited n i id ∈ log)
    (hj : .exited n j id' ∈ log) : i = j ∧ id = id' := by
  have heq := eq_of_nodup h.exits hi hj rfl rfl
  cases heq
  exact ⟨rfl, rfl⟩

theorem nodup_snoc {f : Mark → Option Nat} {m : Mark} (h : (log.filterMap f).Nodup)
    (hm : ∀ n, f m = some n → n ∉ log.filterMap f) : ((log ++ [m]).filterMap f).Nodup := by
  rw [List.filterMap_append]
  cases hfm : f m with
  | none =>
    rw [List.filterMap_cons_none hfm, List.filterMap_nil, List.append_nil]
    exact h
  | some n =>
    rw [List.filterMap_cons_some hfm, List.filterMap_nil]
    refine h.append (List.nodup_singleton n) ?_
    rw [List.disjoint_singleton]
    exact hm n hfm

/-- One more mark: of a new exit, or of an exit of its thread that has none such yet. -/
theorem OneExit.snoc (h : OneExit log) {m : Mark}
    (hopens : ∀ n, m.opens = some n → n ∉ log.filterMap Mark.opens)
    (hterminates : ∀ n i, m = .terminated n i →
      n ∉ log.filterMap Mark.terminates ∧ ∃ id, .exited n i id ∈ log)
    (hfails : ∀ n i, m = .failed n i →
      n ∉ log.filterMap Mark.fails ∧ ∃ id, .exited n i id ∈ log) : OneExit (log ++ [m]) where
  exits := nodup_snoc h.exits hopens
  terminations := by
    refine nodup_snoc h.terminations fun n hn => ?_
    cases m with
    | terminated n' i =>
      cases hn
      exact (hterminates _ _ rfl).1
    | _ => cases hn
  failures := by
    refine nodup_snoc h.failures fun n hn => ?_
    cases m with
    | failed n' i =>
      cases hn
      exact (hfails _ _ rfl).1
    | _ => cases hn
  terminatedBy := by
    intro n i hm
    rcases List.mem_append.1 hm with hm | hm
    · obtain ⟨id, hid⟩ := h.terminatedBy n i hm
      exact ⟨id, List.mem_append_left _ hid⟩
    · obtain ⟨-, id, hid⟩ := hterminates n i (List.mem_singleton.1 hm).symm
      exact ⟨id, List.mem_append_left _ hid⟩
  failedBy := by
    intro n i hm
    rcases List.mem_append.1 hm with hm | hm
    · obtain ⟨id, hid⟩ := h.failedBy n i hm
      exact ⟨id, List.mem_append_left _ hid⟩
    · obtain ⟨-, id, hid⟩ := hfails n i (List.mem_singleton.1 hm).symm
      exact ⟨id, List.mem_append_left _ hid⟩

/-- A new exit. -/
theorem OneExit.exit (h : OneExit log) {n i id : Nat} (hn : n ∉ log.filterMap Mark.opens) :
    OneExit (log ++ [.exited n i id]) := by
  refine h.snoc ?_ (fun _ _ hm => by cases hm) (fun _ _ hm => by cases hm)
  intro n' hn'
  cases hn'
  exact hn

/-- The thread of an exit terminates, for the first time. -/
theorem OneExit.terminate (h : OneExit log) {n i id : Nat} (hid : .exited n i id ∈ log)
    (hn : n ∉ log.filterMap Mark.terminates) : OneExit (log ++ [.terminated n i]) := by
  refine h.snoc (fun _ hm => by cases hm) ?_ (fun _ _ hm => by cases hm)
  intro n' i' hm
  cases hm
  exact ⟨hn, id, hid⟩

/-- The thread of an exit fails its tasks, for the first time. -/
theorem OneExit.fail (h : OneExit log) {n i id : Nat} (hid : .exited n i id ∈ log)
    (hn : n ∉ log.filterMap Mark.fails) : OneExit (log ++ [.failed n i]) := by
  refine h.snoc (fun _ hm => by cases hm) (fun _ _ hm => by cases hm) ?_
  intro n' i' hm
  cases hm
  exact ⟨hn, id, hid⟩

end Log

/-! ## The rows a thread remembers -/

/-- A row that was read: its id was given, and the session that has it is as old. -/
def Known (db : Db) (row : Session) : Prop :=
  row.id < db.nextSessionId ∧
    ∀ s, db.sessions.get row.id = some s → s.createdAt = row.createdAt

theorem known_of_mem {db : Db} {row : Session} (h : row ∈ db.sessions.rows) : Known db row := by
  have hget := Table.get_of_mem h
  refine ⟨db.fresh _ (Table.mem_keys_iff.2 ⟨row, hget⟩), ?_⟩
  intro s hs
  rw [hget] at hs
  cases hs
  rfl

/-- Ids are not given twice. -/
theorem Known.writes {db db' : Db} {row : Session} (h : Known db row) (hw : Writes db db') :
    Known db' row := by
  refine ⟨h.1.trans_le hw.next_le, ?_⟩
  intro s' hs'
  cases hs : db.sessions.get row.id with
  | none =>
    rw [hw.fresh hs h.1] at hs'
    cases hs'
  | some s =>
    obtain ⟨status, hget⟩ := hw.session hs
    rw [hget] at hs'
    cases hs'
    exact h.2 s hs

theorem Known.delete {db : Db} {row : Session} (h : Known db row) (id : Nat) :
    Known (deleteSession db id) row := by
  refine ⟨h.1, ?_⟩
  intro s hs
  have hget : (deleteSession db id).sessions.get row.id =
      (db.sessions.get row.id).filter (fun s => !decide (s.id = id)) := Table.get_deleteWhere _ _ _
  rw [hget] at hs
  exact h.2 s (Option.filter_eq_some_iff.1 hs).1

/-- What every event keeps for a thread that waits. -/
structure Grows (sh sh' : Shared) : Prop where
  log : ∃ l, sh'.log = sh.log ++ l
  known : ∀ row, Known sh.db row → Known sh'.db row
  now : sh.now ≤ sh'.now

theorem Grows.refl (sh : Shared) : Grows sh sh :=
  ⟨⟨[], (List.append_nil _).symm⟩, fun _ h => h, le_refl _⟩

theorem Grows.trans {sh sh' sh'' : Shared} (h : Grows sh sh') (h' : Grows sh' sh'') :
    Grows sh sh'' := by
  obtain ⟨l, hl⟩ := h.log
  obtain ⟨l', hl'⟩ := h'.log
  refine ⟨⟨l ++ l', ?_⟩, fun row hk => h'.known row (h.known row hk), h.now.trans h'.now⟩
  rw [hl', hl, List.append_assoc]

theorem Grows.record (sh : Shared) (marks : List Mark) : Grows sh (sh.record marks) :=
  ⟨⟨marks, rfl⟩, fun _ h => h, le_refl _⟩

theorem Grows.writes {sh : Shared} {db : Db} (h : Writes sh.db db) : Grows sh (sh.setDb db) :=
  ⟨⟨[], (List.append_nil _).symm⟩, fun _ hk => hk.writes h, le_refl _⟩

theorem Grows.mem {sh sh' : Shared} (h : Grows sh sh') {m : Mark} (hm : m ∈ sh.log) :
    m ∈ sh'.log := by
  obtain ⟨l, hl⟩ := h.log
  rw [hl]
  exact List.mem_append_left _ hm

theorem Grows.sublist {sh sh' : Shared} (h : Grows sh sh') {l : List Mark}
    (hl : l.Sublist sh.log) : l.Sublist sh'.log := by
  obtain ⟨l', hl'⟩ := h.log
  rw [hl']
  exact hl.trans (List.sublist_append_left _ _)

/-! ## What a waiting thread knows -/

/-- The rows that are left, and the dead answers among what the host said. -/
def Walk.Ok (sh : Shared) (hostId : HostId) (me : Nat) (walk : Walk) : Prop :=
  ∀ row ∈ walk.rows, Known sh.db row ∧
    (walk.livenessById.lookup row.id = some .dead →
      ∃ k, [.probe k hostId, .answered me row.id k .dead].Sublist sh.log)

/-- The exit that a thread has won and not dealt with. -/
def ThreadPc.exit : ThreadPc → Option Nat
  | .terminating _ exit _ => some exit
  | .cleaning _ exit _ => exit
  | _ => none

/-- An exit of the thread whose tasks have not been failed. -/
def OwnsExit (log : List Mark) (me : Nat) (row : Session) (exit : Nat) : Prop :=
  .exited exit me row.id ∈ log ∧ exit ∉ log.filterMap Mark.fails

/-- What a thread knows where it waits. -/
def ThreadOk (sh : Shared) (hostId : HostId) (me : Nat) : ThreadPc → Prop
  | .polling rows k => (∀ row ∈ rows, Known sh.db row) ∧ .probe k hostId ∈ sh.log
  | .walking walk => walk.Ok sh hostId me
  | .rechecking row k walk => walk.Ok sh hostId me ∧ Known sh.db row ∧
      newSessionGraceMs ≤ sh.now - row.createdAt ∧
      ∃ k₁, [.probe k₁ hostId, .answered me row.id k₁ .dead, .invalidated,
        .probe k hostId].Sublist sh.log
  | .terminating row exit walk => walk.Ok sh hostId me ∧ OwnsExit sh.log me row exit
  | .cleaning row (some exit) walk => walk.Ok sh hostId me ∧ OwnsExit sh.log me row exit
  | .cleaning _ none walk | .syncing _ _ walk | .removing _ walk => walk.Ok sh hostId me
  | .finished => True

section Waiting

variable {sh sh' : Shared} {hostId : HostId} {me : Nat}

theorem Walk.Ok.grows {walk : Walk} (h : walk.Ok sh hostId me) (hg : Grows sh sh') :
    walk.Ok sh' hostId me := by
  intro row hrow
  obtain ⟨hk, hd⟩ := h row hrow
  refine ⟨hg.known row hk, fun hdead => ?_⟩
  obtain ⟨k, hl⟩ := hd hdead
  exact ⟨k, hg.sublist hl⟩

/-- **What a thread knows lasts**, as long as its exit is not dealt with. -/
theorem ThreadOk.grows {pc : ThreadPc} (h : ThreadOk sh hostId me pc) (hg : Grows sh sh')
    (hf : ∀ n ∈ pc.exit, n ∉ sh.log.filterMap Mark.fails → n ∉ sh'.log.filterMap Mark.fails) :
    ThreadOk sh' hostId me pc := by
  cases pc with
  | polling rows k => exact ⟨fun row hrow => hg.known row (h.1 row hrow), hg.mem h.2⟩
  | walking walk => exact Walk.Ok.grows h hg
  | rechecking row k walk =>
    obtain ⟨hw, hk, hage, k₁, hl⟩ := h
    refine ⟨hw.grows hg, hg.known row hk, ?_, k₁, hg.sublist hl⟩
    have hnow := hg.now
    omega
  | terminating row n walk =>
    obtain ⟨hw, hex, hn⟩ := h
    exact ⟨hw.grows hg, hg.mem hex, hf n rfl hn⟩
  | cleaning row exit walk =>
    cases exit with
    | none => exact Walk.Ok.grows h hg
    | some n =>
      obtain ⟨hw, hex, hn⟩ := h
      exact ⟨hw.grows hg, hg.mem hex, hf n rfl hn⟩
  | syncing task project walk => exact Walk.Ok.grows h hg
  | removing removal walk => exact Walk.Ok.grows h hg
  | finished => trivial

end Waiting

/-! ## Asking -/

/-- The log shows every probe, and the shared listing is of the local host. -/
structure Logged (sh : Shared) : Prop where
  probes : ∀ k p, sh.scopes.probes[k]? = some p → .probe k p.hostId ∈ sh.log
  inflight : ∀ k, sh.scopes.inflight = some k → .probe k localHostId ∈ sh.log
  cached : ∀ k expiresAt, sh.scopes.cached = some (k, expiresAt) → .probe k localHostId ∈ sh.log

/-- What everything but a thread's own exit does: the log grows by plain marks. -/
structure Plain (sh sh' : Shared) : Prop where
  log : ∃ l, sh'.log = sh.log ++ l ∧ ∀ m ∈ l, m.Plain
  exits : sh'.exits = sh.exits

/-- A question writes no row, and its probe is in the log. -/
theorem ask_spec {sh : Shared} (h : Logged sh) (hostId : HostId) :
    (sh.ask hostId).1.board = sh.board ∧ Plain sh (sh.ask hostId).1 ∧
      Logged (sh.ask hostId).1 ∧ .probe (sh.ask hostId).2 hostId ∈ (sh.ask hostId).1.log := by
  obtain ⟨hcached, hcase⟩ := sh.scopes.ask_cases sh.now hostId
  unfold Shared.ask
  rcases hask : sh.scopes.ask sh.now hostId with ⟨scopes, k⟩
  rw [hask] at hcached hcase
  dsimp only at hcached hcase ⊢
  rcases hcase with ⟨rfl, hp, hin, hk⟩ | ⟨rfl, hp, hin⟩
  · rw [if_pos (by rw [hp])]
    have hmem : .probe k localHostId ∈ sh.log := by
      rcases hk with hk | ⟨expiresAt, hk⟩
      · exact h.inflight k hk
      · exact h.cached k expiresAt hk
    refine ⟨rfl, ⟨⟨[], (List.append_nil _).symm, fun m hm => by cases hm⟩, rfl⟩, ⟨?_, ?_, ?_⟩, hmem⟩
    · intro j p hj
      exact h.probes j p (by rw [← hp]; exact hj)
    · intro j hj
      exact h.inflight j (by rw [← hin]; exact hj)
    · intro j t hj
      exact h.cached j t (hcached _ hj)
  · have hlen : scopes.probes.length ≠ sh.scopes.probes.length := by
      rw [hp, List.length_append]
      simp
    rw [if_neg hlen]
    have hnew : Mark.probe sh.scopes.probes.length hostId ∈
        ({ sh with scopes }.record [.probe sh.scopes.probes.length hostId]).log :=
      List.mem_append_right _ (List.mem_singleton_self _)
    have hold : ∀ {m}, m ∈ sh.log →
        m ∈ ({ sh with scopes }.record [.probe sh.scopes.probes.length hostId]).log :=
      fun hm => List.mem_append_left _ hm
    refine ⟨rfl, ⟨⟨_, rfl, ?_⟩, rfl⟩, ⟨?_, ?_, ?_⟩, hnew⟩
    · intro m hm
      cases List.mem_singleton.1 hm
      trivial
    · intro j p hj
      have hj' : scopes.probes[j]? = some p := hj
      rw [hp] at hj'
      by_cases hlt : j < sh.scopes.probes.length
      · rw [List.getElem?_append_left hlt] at hj'
        exact hold (h.probes j p hj')
      · have hjlen : j = sh.scopes.probes.length := by
          have hbound := (List.getElem?_eq_some_iff.1 hj').1
          rw [List.length_append, List.length_singleton] at hbound
          omega
        rw [hjlen, List.getElem?_concat_length] at hj'
        cases hj'
        rw [hjlen]
        exact hnew
    · intro j hj
      have hj' : scopes.inflight = some j := hj
      rcases hin with hin | ⟨hl, hin⟩
      · exact hold (h.inflight j (by rw [← hin]; exact hj'))
      · rw [hin] at hj'
        cases hj'
        rw [← hl]
        exact hnew
    · intro j t hj
      exact hold (h.cached j t (hcached _ hj))

/-- After an invalidation the question starts a probe of its own. -/
theorem ask_invalidate (sh : Shared) (hostId : HostId) :
    (sh.invalidate.ask hostId).1.log =
      sh.log ++ [.invalidated, .probe (sh.invalidate.ask hostId).2 hostId] := by
  obtain ⟨-, hcase⟩ := sh.invalidate.scopes.ask_cases sh.invalidate.now hostId
  unfold Shared.ask
  rcases hask : sh.invalidate.scopes.ask sh.invalidate.now hostId with ⟨scopes, k⟩
  rw [hask] at hcase
  dsimp only at hcase ⊢
  rcases hcase with ⟨-, -, -, hk | ⟨expiresAt, hk⟩⟩ | ⟨-, hp, -⟩
  · cases hk
  · cases hk
  · have hlen : scopes.probes.length ≠ sh.invalidate.scopes.probes.length := by
      rw [hp, List.length_append]
      simp
    rw [if_neg hlen]
    simp [Shared.record, Shared.invalidate]

/-! ## A segment of a pass -/

/-- **What a segment of a pass may write.** A session goes from `active` to `exited` if
it is older than the grace and proven dead; a task fails if it is claimed or in progress
and its session is one whose exit the thread has won. -/
structure ExitsOnProof (sh sh' : Shared) (hostId : HostId) (me : Nat) : Prop where
  sessionIds : sh'.db.sessions.keys = sh.db.sessions.keys
  sessions : ∀ id s, sh.db.sessions.get id = some s → sh'.db.sessions.get id = some s ∨
    s.status = .active ∧ sh'.db.sessions.get id = some { s with status := .exited } ∧
      newSessionGraceMs ≤ sh.now - s.createdAt ∧ ProvenDead sh'.log hostId me id sh.exits
  taskIds : sh'.db.tasks.keys = sh.db.tasks.keys
  tasks : ∀ id t, sh.db.tasks.get id = some t → sh'.db.tasks.get id = some t ∨
    (t.status = .claimed ∨ t.status = .inProgress) ∧
      sh'.db.tasks.get id = some (exitPatch sh.now t) ∧
      ∃ exit x, t.sessionId = some x ∧ .exited exit me x ∈ sh.log ∧
        .failed exit me ∉ sh.log ∧ .failed exit me ∈ sh'.log

/-- The invariant of the log and of the probes. -/
structure Base (sh : Shared) : Prop where
  one : OneExit sh.log
  counted : ∀ n i id, .exited n i id ∈ sh.log → n < sh.exits
  logged : Logged sh

/-- What a segment of a pass establishes. -/
structure Advances (sh sh' : Shared) (hostId : HostId) (me : Nat) (pc' : ThreadPc) : Prop where
  grows : Grows sh sh'
  base : Base sh'
  ok : ThreadOk sh' hostId me pc'
  /-- It deals with no exit but its own. -/
  fails : ∀ n ∈ sh'.log.filterMap Mark.fails, n ∈ sh.log.filterMap Mark.fails ∨
    ∃ id, .exited n me id ∈ sh.log
  writes : ExitsOnProof sh sh' hostId me

section Segments

variable {sh sh' : Shared} {hostId : HostId} {me : Nat}

theorem Logged.mono (h : Logged sh) (hs : sh'.scopes = sh.scopes)
    (hl : ∀ m ∈ sh.log, m ∈ sh'.log) : Logged sh' := by
  refine ⟨fun k p hk => ?_, fun k hk => ?_, fun k t hk => ?_⟩
  · exact hl _ (h.probes k p (by rw [← hs]; exact hk))
  · exact hl _ (h.inflight k (by rw [← hs]; exact hk))
  · exact hl _ (h.cached k t (by rw [← hs]; exact hk))

theorem Base.plain (h : Base sh) (hp : Plain sh sh') (hl : Logged sh') : Base sh' := by
  obtain ⟨l, hlog, hplain⟩ := hp.log
  refine ⟨?_, ?_, hl⟩
  · rw [hlog]
    exact h.one.plain hplain
  · intro n i id hm
    rw [hlog] at hm
    rw [hp.exits]
    exact h.counted n i id (mem_of_plain (fun h => h) hplain hm)

theorem Plain.grows (hp : Plain sh sh') (hb : sh'.board = sh.board) : Grows sh sh' := by
  obtain ⟨l, hlog, -⟩ := hp.log
  refine ⟨⟨l, hlog⟩, fun row hk => ?_, ?_⟩
  · unfold Shared.db
    rw [hb]
    exact hk
  · unfold Shared.now
    rw [hb]

theorem Plain.fails (hp : Plain sh sh') :
    sh'.log.filterMap Mark.fails = sh.log.filterMap Mark.fails := by
  obtain ⟨l, hlog, hplain⟩ := hp.log
  rw [hlog, filterMap_plain fails_plain hplain]

theorem ExitsOnProof.of_board (h : sh'.board = sh.board) : ExitsOnProof sh sh' hostId me := by
  have hdb : sh'.db = sh.db := by
    unfold Shared.db
    rw [h]
  refine ⟨by rw [hdb], fun id s hs => Or.inl ?_, by rw [hdb], fun id t ht => Or.inl ?_⟩
  · rw [hdb]
    exact hs
  · rw [hdb]
    exact ht

/-- A segment that writes no row. -/
theorem Advances.of_plain {pc' : ThreadPc} (h : Base sh) (hp : Plain sh sh') (hl : Logged sh')
    (hb : sh'.board = sh.board) (hok : ThreadOk sh' hostId me pc') :
    Advances sh sh' hostId me pc' where
  grows := hp.grows hb
  base := h.plain hp hl
  ok := hok
  fails := fun n hn => Or.inl (by rw [← hp.fails]; exact hn)
  writes := .of_board hb

theorem Plain.refl (sh : Shared) : Plain sh sh :=
  ⟨⟨[], (List.append_nil _).symm, fun m hm => by cases hm⟩, rfl⟩

theorem Plain.record (sh : Shared) {marks : List Mark} (h : ∀ m ∈ marks, m.Plain) :
    Plain sh (sh.record marks) := ⟨⟨marks, rfl, h⟩, rfl⟩

/-- A segment that does nothing. -/
theorem Advances.refl {pc' : ThreadPc} (h : Base sh) (hok : ThreadOk sh hostId me pc') :
    Advances sh sh hostId me pc' :=
  .of_plain h (.refl sh) h.logged rfl hok

theorem invalidate_plain (sh : Shared) : Plain sh sh.invalidate :=
  ⟨⟨[.invalidated], rfl, fun m hm => by cases List.mem_singleton.1 hm; trivial⟩, rfl⟩

theorem Logged.invalidate (h : Logged sh) : Logged sh.invalidate := by
  refine ⟨fun k p hk => ?_, fun k hk => ?_, fun k t hk => ?_⟩
  · exact List.mem_append_left _ (h.probes k p hk)
  · cases hk
  · cases hk

theorem Plain.trans {sh'' : Shared} (h : Plain sh sh') (h' : Plain sh' sh'') : Plain sh sh'' := by
  obtain ⟨l, hl, hp⟩ := h.log
  obtain ⟨l', hl', hp'⟩ := h'.log
  refine ⟨⟨l ++ l', by rw [hl', hl, List.append_assoc], ?_⟩, h'.exits.trans h.exits⟩
  intro m hm
  rcases List.mem_append.1 hm with hm | hm
  · exact hp m hm
  · exact hp' m hm

/-- **The first answer.** A row is asked for again only after a dead answer, when it is
old enough, and after an invalidation. -/
theorem walkRow_advances (h : Base sh) {row : Session} {walk : Walk} (hw : walk.Ok sh hostId me)
    (hk : Known sh.db row) (hd : walk.livenessById.lookup row.id = some .dead →
      ∃ k, [.probe k hostId, .answered me row.id k .dead].Sublist sh.log) :
    Advances sh (walkRow sh hostId row walk).1 hostId me (walkRow sh hostId row walk).2 := by
  unfold walkRow
  split
  · rename_i hdead
    split
    · exact .refl h hw
    · rename_i hage
      obtain ⟨hboard, hplain, hlogged, -⟩ := ask_spec h.logged.invalidate hostId
      have hp : Plain sh (sh.invalidate.ask hostId).1 := (invalidate_plain sh).trans hplain
      have hb : (sh.invalidate.ask hostId).1.board = sh.board := hboard.trans rfl
      have hg := hp.grows hb
      refine .of_plain h hp hlogged hb ⟨hw.grows hg, hg.known row hk, ?_, ?_⟩
      · have hnow : (sh.invalidate.ask hostId).1.now = sh.now := by
          unfold Shared.now
          rw [hb]
        rw [hnow]
        omega
      · obtain ⟨k₁, hsub⟩ := hd hdead
        refine ⟨k₁, ?_⟩
        rw [ask_invalidate]
        exact hsub.append (List.Sublist.refl _)
  all_goals exact .refl h hw

/-- The number of the next exit is new. -/
theorem Base.fresh (h : Base sh) : sh.exits ∉ sh.log.filterMap Mark.opens ∧
    sh.exits ∉ sh.log.filterMap Mark.terminates ∧ sh.exits ∉ sh.log.filterMap Mark.fails := by
  refine ⟨fun hn => ?_, fun hn => ?_, fun hn => ?_⟩
  · obtain ⟨i, id, hid⟩ := of_mem_opens hn
    exact Nat.lt_irrefl _ (h.counted _ _ _ hid)
  · obtain ⟨i, hi⟩ := of_mem_terminates hn
    obtain ⟨id, hid⟩ := h.one.terminatedBy _ _ hi
    exact Nat.lt_irrefl _ (h.counted _ _ _ hid)
  · obtain ⟨i, hi⟩ := of_mem_fails hn
    obtain ⟨id, hid⟩ := h.one.failedBy _ _ hi
    exact Nat.lt_irrefl _ (h.counted _ _ _ hid)

/-- The guarded flip moves the one row, and only if it is active. -/
theorem get_flip {db : Db} (id : Nat) {i : Nat} {s : Session} (hs : db.sessions.get i = some s) :
    (db.setSessionStatus id .active .exited).sessions.get i = some s ∨
      (i = id ∧ s.status = .active ∧
        (db.setSessionStatus id .active .exited).sessions.get i =
          some { s with status := .exited }) := by
  rw [Claim.get_setSessionStatus]
  by_cases hi : i = id
  · rw [if_pos hi, hs, Option.map_some]
    by_cases ha : s.status = .active
    · exact Or.inr ⟨hi, ha, by rw [if_pos ha]⟩
    · exact Or.inl (by rw [if_neg ha])
  · rw [if_neg hi]
    exact Or.inl hs

/-- A new exit. -/
theorem Base.exited (h : Base sh) (db : Db) (me id : Nat) :
    Base ({ sh.setDb db with exits := sh.exits + 1 }.record [.exited sh.exits me id]) where
  one := h.one.exit h.fresh.1
  counted := by
    intro n i x hm
    rcases List.mem_append.1 hm with hm | hm
    · exact Nat.lt_succ_of_lt (h.counted n i x hm)
    · cases List.mem_singleton.1 hm
      exact Nat.lt_succ_self _
  logged := h.logged.mono rfl fun m hm => List.mem_append_left _ hm

/-- The thread of an exit terminates. -/
theorem Base.terminated (h : Base sh) {n id : Nat} (hid : .exited n me id ∈ sh.log)
    (hn : n ∉ sh.log.filterMap Mark.terminates) : Base (sh.record [.terminated n me]) where
  one := h.one.terminate hid hn
  counted := by
    intro m i x hm
    exact h.counted m i x (by simpa using hm)
  logged := h.logged.mono rfl fun m hm => List.mem_append_left _ hm

/-- The thread of an exit fails its tasks. -/
theorem Base.failed (h : Base sh) (db : Db) {n id : Nat} (hid : .exited n me id ∈ sh.log)
    (hn : n ∉ sh.log.filterMap Mark.fails) : Base ((sh.setDb db).record [.failed n me]) where
  one := h.one.fail hid hn
  counted := by
    intro m i x hm
    exact h.counted m i x (by simpa using hm)
  logged := h.logged.mono rfl fun m hm => List.mem_append_left _ hm

/-- What the flip leaves in the tables. -/
theorem exitsOnProof_flip {row : Session} (hk : Known sh.db row)
    (hage : newSessionGraceMs ≤ sh.now - row.createdAt)
    (hdb : sh'.db = sh.db.setSessionStatus row.id .active .exited)
    (hp : (∃ s, sh.db.sessions.get row.id = some s ∧ s.status = .active) →
      ProvenDead sh'.log hostId me row.id sh.exits) : ExitsOnProof sh sh' hostId me where
  sessionIds := by
    rw [hdb]
    exact Table.keys_updateIf _ _ _ _ (by intro; rfl)
  sessions := by
    intro id s hs
    rw [hdb]
    rcases get_flip row.id hs with hs' | ⟨rfl, ha, hs'⟩
    · exact Or.inl hs'
    · refine Or.inr ⟨ha, hs', ?_, hp ⟨s, hs, ha⟩⟩
      rw [hk.2 s hs]
      exact hage
  taskIds := by
    rw [hdb]
    rfl
  tasks := by
    intro id t ht
    rw [hdb]
    exact Or.inl ht

/-- A segment that begins with plain marks. -/
theorem Advances.after_plain {sh₁ : Shared} {pc' : ThreadPc} (hp : Plain sh sh₁)
    (hb : sh₁.board = sh.board) (h : Advances sh₁ sh' hostId me pc') :
    Advances sh sh' hostId me pc' := by
  have hdb : sh₁.db = sh.db := by
    unfold Shared.db
    rw [hb]
  have hnow : sh₁.now = sh.now := by
    unfold Shared.now
    rw [hb]
  obtain ⟨l, hlog, hplain⟩ := hp.log
  have hexited : ∀ {n id}, .exited n me id ∈ sh₁.log → .exited n me id ∈ sh.log := by
    intro n id hm
    rw [hlog] at hm
    exact mem_of_plain (fun h => h) hplain hm
  refine ⟨(hp.grows hb).trans h.grows, h.base, h.ok, ?_, ?_⟩
  · intro n hn
    rcases h.fails n hn with hn | ⟨id, hid⟩
    · rw [hp.fails] at hn
      exact Or.inl hn
    · exact Or.inr ⟨id, hexited hid⟩
  · obtain ⟨hsids, hsessions, htids, htasks⟩ := h.writes
    rw [hdb] at hsids hsessions htids htasks
    rw [hnow] at hsessions htasks
    refine ⟨hsids, ?_, htids, ?_⟩
    · rw [← hp.exits]
      exact hsessions
    · intro id t ht
      rcases htasks id t ht with h' | ⟨hst, h', n, x, hx, hex, hnot, hin⟩
      · exact Or.inl h'
      · refine Or.inr ⟨hst, h', n, x, hx, hexited hex, fun hm => hnot ?_, hin⟩
        rw [hlog]
        exact List.mem_append_left _ hm

/-- **The second answer.** The row is flipped, as a new exit of this thread, unless it is
not active any more. -/
theorem flipRow_advances (h : Base sh) {row : Session} {walk : Walk} {k₁ k₂ : Nat}
    (hw : walk.Ok sh hostId me) (hk : Known sh.db row)
    (hage : newSessionGraceMs ≤ sh.now - row.createdAt)
    (hsub : [.probe k₁ hostId, .answered me row.id k₁ .dead, .invalidated, .probe k₂ hostId,
      .answered me row.id k₂ .dead].Sublist sh.log) :
    Advances sh (flipRow sh hostId me row walk).1 hostId me (flipRow sh hostId me row walk).2 := by
  have hwrite : Grows sh (sh.setDb (sh.db.setSessionStatus row.id .active .exited)) :=
    .writes (.status _ _ _ _)
  unfold flipRow
  dsimp only
  by_cases hact : (sh.db.sessions.get row.id).any (fun s => s.status = .active) = true
  · -- the flip is ours
    rw [if_pos hact]
    have hbase := h.exited (sh.db.setSessionStatus row.id .active .exited) me row.id
    have hproven : ProvenDead (sh.log ++ [.exited sh.exits me row.id]) hostId me row.id sh.exits :=
      ⟨k₁, k₂, hsub.append (List.Sublist.refl [Mark.exited sh.exits me row.id])⟩
    have hmem : .exited sh.exits me row.id ∈ sh.log ++ [.exited sh.exits me row.id] :=
      List.mem_append_right _ (List.mem_singleton_self _)
    have hgrows : Grows sh ({ sh.setDb (sh.db.setSessionStatus row.id .active .exited) with
        exits := sh.exits + 1 }.record [.exited sh.exits me row.id]) :=
      hwrite.trans ⟨⟨_, rfl⟩, fun _ hk => hk, le_refl _⟩
    have hfails : (sh.log ++ [Mark.exited sh.exits me row.id]).filterMap Mark.fails =
        sh.log.filterMap Mark.fails := by
      rw [List.filterMap_append]
      exact List.append_nil _
    by_cases hl : hostId = localHostId
    · rw [if_pos hl]
      have hterminates : sh.exits ∉
          (sh.log ++ [Mark.exited sh.exits me row.id]).filterMap Mark.terminates := by
        rw [List.filterMap_append]
        simpa [Mark.terminates] using h.fresh.2.1
      have hg := hgrows.trans (Grows.record _ [.terminated sh.exits me])
      have hfails' : (sh.log ++ [Mark.exited sh.exits me row.id] ++
          [Mark.terminated sh.exits me]).filterMap Mark.fails = sh.log.filterMap Mark.fails := by
        rw [List.filterMap_append, hfails]
        exact List.append_nil _
      refine
        { grows := hg
          base := hbase.terminated hmem hterminates
          ok := ⟨hw.grows hg, List.mem_append_left _ hmem, ?_⟩
          fails := fun n hn => Or.inl (by rw [← hfails']; exact hn)
          writes := exitsOnProof_flip hk hage rfl fun _ => ?_ }
      · intro hn
        exact h.fresh.2.2 (by rw [← hfails']; exact hn)
      · obtain ⟨j₁, j₂, hj⟩ := hproven
        exact ⟨j₁, j₂, hj.trans (List.sublist_append_left _ _)⟩
    · rw [if_neg hl]
      exact
        { grows := hgrows
          base := hbase
          ok := ⟨hw.grows hgrows, hmem, fun hn => h.fresh.2.2 (by rw [← hfails]; exact hn)⟩
          fails := fun n hn => Or.inl (by rw [← hfails]; exact hn)
          writes := exitsOnProof_flip hk hage rfl fun _ => hproven }
  · -- another writer was faster
    rw [if_neg hact]
    refine
      { grows := hwrite
        base := ⟨h.one, h.counted, h.logged.mono rfl fun m hm => hm⟩
        ok := Walk.Ok.grows hw hwrite
        fails := fun n hn => Or.inl hn
        writes := exitsOnProof_flip hk hage rfl fun hs => ?_ }
    obtain ⟨s, hs, ha⟩ := hs
    rw [hs] at hact
    simp [ha] at hact

/-- **The task failure**, of the exit that the thread has won. -/
theorem failTasks_advances (h : Base sh) {row : Session} {exit : Nat} {walk : Walk}
    (hw : walk.Ok sh hostId me) (hown : OwnsExit sh.log me row exit) :
    Advances sh (failTasks sh me row exit walk).1 hostId me (failTasks sh me row exit walk).2 := by
  obtain ⟨hex, hn⟩ := hown
  have hgrows : Grows sh ((sh.setDb (failTasksOf sh.db sh.now row.id)).record
      [.failed exit me]) := ⟨⟨_, rfl⟩, fun _ hk => hk, le_refl _⟩
  have hbase := h.failed (failTasksOf sh.db sh.now row.id) hex hn
  have hfails : ∀ n ∈ (sh.log ++ [Mark.failed exit me]).filterMap Mark.fails,
      n ∈ sh.log.filterMap Mark.fails ∨ ∃ id, .exited n me id ∈ sh.log := by
    intro n hm
    rw [List.filterMap_append, List.mem_append] at hm
    rcases hm with hm | hm
    · exact Or.inl hm
    · have heq : n = exit := by simpa [Mark.fails] using hm
      exact Or.inr ⟨row.id, heq ▸ hex⟩
  have hwrites : ExitsOnProof sh ((sh.setDb (failTasksOf sh.db sh.now row.id)).record
      [.failed exit me]) hostId me := by
    refine ⟨rfl, fun id s hs => Or.inl hs, Table.keys_updateWhere _ _ _ (exitPatch_id sh.now),
      fun id t ht => ?_⟩
    have hget : (failTasksOf sh.db sh.now row.id).tasks.get id =
        some (if isTaskOf row.id t then exitPatch sh.now t else t) := by
      unfold failTasksOf
      rw [Table.get_updateWhere, ht, Option.map_some]
    by_cases hg : isTaskOf row.id t = true
    · rw [if_pos hg] at hget
      simp only [isTaskOf, Bool.and_eq_true, Bool.or_eq_true, decide_eq_true_eq] at hg
      refine Or.inr ⟨hg.2, hget, exit, row.id, hg.1, hex, fun hm => hn ?_,
        List.mem_append_right _ (List.mem_singleton_self _)⟩
      exact List.mem_filterMap.2 ⟨_, hm, rfl⟩
    · rw [if_neg hg] at hget
      exact Or.inl hget
  have hadv : ∀ pc', ThreadOk ((sh.setDb (failTasksOf sh.db sh.now row.id)).record
      [.failed exit me]) hostId me pc' → Advances sh ((sh.setDb (failTasksOf sh.db sh.now
        row.id)).record [.failed exit me]) hostId me pc' :=
    fun pc' hok => ⟨hgrows, hbase, hok, hfails, hwrites⟩
  unfold failTasks
  dsimp only
  split
  · exact hadv _ (hw.grows hgrows)
  · split
    · exact hadv _ (hw.grows hgrows)
    · exact hadv _ (hw.grows hgrows)

theorem lookup_answers (liveness : Nat → Liveness) {rows : List Session} {row : Session}
    (h : row ∈ rows) :
    (rows.map fun r => (r.id, liveness r.id)).lookup row.id = some (liveness row.id) := by
  induction rows with
  | nil => cases h
  | cons r rows ih =>
    rw [List.map_cons, List.lookup_cons]
    by_cases hr : row.id = r.id
    · simp [hr]
    · have hbeq : (row.id == r.id) = false := by simpa using hr
      rw [hbeq]
      rcases List.mem_cons.1 h with rfl | h
      · exact absurd rfl hr
      · exact ih h

/-- **A segment of a pass.** -/
theorem threadResume_advances (h : Base sh) {pc pc' : ThreadPc} {a : Answer}
    (hok : ThreadOk sh hostId me pc) (hr : threadResume sh hostId me pc a = some (sh', pc')) :
    Advances sh sh' hostId me pc' := by
  have hfst : ∀ {x : Shared × ThreadPc}, some x = some (sh', pc') →
      Advances sh x.1 hostId me x.2 → Advances sh sh' hostId me pc' := by
    rintro x hx hadv
    cases hx
    exact hadv
  unfold threadResume at hr
  split at hr
  · cases hr
    exact .refl h trivial
  · -- the host's answer for all rows
    rename_i rows k _
    obtain ⟨liveness, -, heq⟩ := Option.map_eq_some_iff.1 hr
    obtain ⟨hknown, hprobe⟩ := hok
    have hplain : ∀ m ∈ rows.map (fun r => Mark.answered me r.id k (liveness r.id)), m.Plain := by
      intro m hm
      obtain ⟨r, -, rfl⟩ := List.mem_map.1 hm
      trivial
    have hp := Plain.record sh hplain
    cases heq
    refine .of_plain h hp (h.logged.mono rfl fun m hm => List.mem_append_left _ hm) rfl ?_
    intro row hrow
    refine ⟨hknown row hrow, fun hdead => ⟨k, ?_⟩⟩
    have hlive : liveness row.id = .dead := by
      rw [lookup_answers liveness hrow] at hdead
      exact Option.some.inj hdead
    have hone : [Mark.probe k hostId].Sublist sh.log := List.singleton_sublist.2 hprobe
    have hans : [Mark.answered me row.id k .dead].Sublist
        (rows.map fun r => Mark.answered me r.id k (liveness r.id)) :=
      List.singleton_sublist.2 (List.mem_map.2 ⟨row, hrow, by rw [hlive]⟩)
    exact hone.append hans
  · cases hr
    exact .refl h trivial
  · rename_i row rows livenessById
    obtain ⟨hk, hd⟩ := hok row List.mem_cons_self
    exact hfst hr (walkRow_advances h
      (fun r hrow => hok r (List.mem_cons_of_mem _ hrow)) hk hd)
  · cases hr
    exact .refl h hok.1
  · -- the host's second answer for one row
    rename_i row k walk _
    obtain ⟨liveness, -, heq⟩ := Option.map_eq_some_iff.1 hr
    obtain ⟨hw, hk, hage, k₁, hsub⟩ := hok
    have hp : Plain sh (sh.record [.answered me row.id k (liveness row.id)]) :=
      .record sh fun m hm => by cases List.mem_singleton.1 hm; trivial
    have hbase := h.plain hp (h.logged.mono rfl fun m hm => List.mem_append_left _ hm)
    have hg := hp.grows rfl
    dsimp only at heq
    split at heq
    · rename_i hdead
      have hsub' := hsub.append (List.Sublist.refl [Mark.answered me row.id k (liveness row.id)])
      rw [hdead] at hsub'
      have hadv := flipRow_advances hbase (hw.grows hg)
        (hg.known row hk) hage (by rw [hdead]; exact hsub')
      rw [heq] at hadv
      exact hadv.after_plain hp rfl
    · cases heq
      exact .of_plain h hp hbase.logged rfl (hw.grows hg)
  · cases hr
    exact .refl h hok
  · exact hfst hr (failTasks_advances h hok.1 hok.2)
  · cases hr
    exact .refl h hok
  · rename_i task project walk
    cases hr
    refine .refl h ?_
    unfold removeTaskWorktree
    split
    · exact hok
    · exact hok
  · cases hr
    exact .refl h hok
  · cases hr
    exact .refl h hok
  · cases hr
    exact .refl h hok.1
  · rename_i row exit walk
    cases hr
    refine .refl h ?_
    cases exit with
    | none => exact hok
    | some n => exact hok.1
  · cases hr
    exact .refl h hok
  · cases hr

end Segments

/-! ## Everything else -/

/-- What the events outside a pass do. -/
structure Aside (sh sh' : Shared) : Prop where
  grows : Grows sh sh'
  plain : Plain sh sh'
  logged : Logged sh'

section Aside

variable {sh sh' : Shared}

theorem Aside.writes {db : Db} (h : Logged sh) (hw : Writes sh.db db) : Aside sh (sh.setDb db) :=
  ⟨.writes hw, ⟨⟨[], (List.append_nil _).symm, fun m hm => by cases hm⟩, rfl⟩,
    h.mono rfl fun m hm => hm⟩

theorem Aside.ask (h : Logged sh) (hostId : HostId) : Aside sh (sh.ask hostId).1 := by
  obtain ⟨hb, hp, hl, -⟩ := ask_spec h hostId
  exact ⟨hp.grows hb, hp, hl⟩

theorem Aside.invalidate (h : Logged sh) : Aside sh sh.invalidate :=
  ⟨(invalidate_plain sh).grows rfl, invalidate_plain sh, h.invalidate⟩

theorem Aside.trans {sh'' : Shared} (h : Aside sh sh') (h' : Aside sh' sh'') : Aside sh sh'' :=
  ⟨h.grows.trans h'.grows, h.plain.trans h'.plain, h'.logged⟩

theorem Aside.refl (h : Logged sh) : Aside sh sh := ⟨.refl sh, .refl sh, h⟩

theorem Aside.board {cfg : Claim.Config} {e : Claim.Event} {board : Board} (h : Logged sh)
    (hb : boardStep cfg sh.board e = some board) : Aside sh { sh with board } :=
  ⟨⟨⟨[], (List.append_nil _).symm⟩, fun _ hk => hk.writes (Claim.boardStep_writes hb),
      Claim.boardStep_now hb⟩,
    ⟨⟨[], (List.append_nil _).symm, fun m hm => by cases hm⟩, rfl⟩, h.mono rfl fun m hm => hm⟩

theorem Aside.delete (h : Logged sh) (id : Nat) : Aside sh (sh.setDb (deleteSession sh.db id)) :=
  ⟨⟨⟨[], (List.append_nil _).symm⟩, fun _ hk => hk.delete id, le_refl _⟩,
    ⟨⟨[], (List.append_nil _).symm, fun m hm => by cases hm⟩, rfl⟩, h.mono rfl fun m hm => hm⟩

/-- A listing that settles is of the local host. -/
theorem Aside.settle {k : Nat} {listing : Listing} {scopes : Scopes} (h : Logged sh)
    (hs : sh.scopes.settleListing k listing = some scopes) : Aside sh { sh with scopes } := by
  unfold Scopes.settleListing at hs
  split at hs
  · cases hs
  · rename_i probe hprobe
    split at hs
    · rename_i hlocal
      cases hs
      have hk : .probe k localHostId ∈ sh.log := by
        rw [← hlocal.1]
        exact h.probes k probe hprobe
      refine ⟨⟨⟨[], (List.append_nil _).symm⟩, fun _ hk => hk, le_refl _⟩,
        ⟨⟨[], (List.append_nil _).symm, fun m hm => by cases hm⟩, rfl⟩, ⟨?_, ?_, ?_⟩⟩
      · intro j p hj
        have hj' : (sh.scopes.probes.set k { probe with listing := some listing })[j]? = some p := hj
        rw [List.getElem?_set] at hj'
        split at hj'
        · split at hj'
          · rename_i hjk _
            cases hj'
            rw [← hjk]
            exact h.probes k probe hprobe
          · cases hj'
        · exact h.probes j p hj'
      · intro j hj
        dsimp only at hj
        split at hj
        · cases hj
        · exact h.inflight j hj
      · intro j t hj
        dsimp only at hj
        split at hj
        · cases hj
          exact hk
        · exact h.cached j t hj
    · cases hs

theorem Aside.repairStart (h : Logged sh) (hostId : HostId) (session : Session)
    (derivedExited : Bool) : Aside sh (repairStart sh hostId session derivedExited).1 := by
  unfold Reconcile.repairStart
  split
  · exact .refl h
  · split
    · exact .refl h
    · exact (Aside.invalidate h).trans (.ask h.invalidate hostId)

theorem Aside.repairResume {pc pc' : RepairPc} {a : Answer} (h : Logged sh)
    (hr : repairResume sh pc a = some (sh', pc')) : Aside sh sh' := by
  unfold Reconcile.repairResume at hr
  split at hr
  · cases hr
    exact .refl h
  · obtain ⟨liveness, -, heq⟩ := Option.map_eq_some_iff.1 hr
    split at heq
    · rename_i session _ _ _ _
      cases heq
      have hw : Writes sh.db (sh.db.setSessionStatus session.id .exited .active) := .status _ _ _ _
      exact ⟨⟨⟨[], (List.append_nil _).symm⟩, fun _ hk => hk.writes hw, le_refl _⟩,
        ⟨⟨[], (List.append_nil _).symm, fun m hm => by cases hm⟩, rfl⟩, h.mono rfl fun m hm => hm⟩
    · cases heq
      exact .refl h
  · cases hr

/-- **A pass starts**: it asks every host, and writes nothing. -/
theorem startThreads_spec (active : List Session) (hactive : ∀ row ∈ active, Known sh.db row)
    (h : Logged sh) (hosts : List HostId) :
    (startThreads active sh hosts).1.board = sh.board ∧
      Aside sh (startThreads active sh hosts).1 ∧
      ∀ th ∈ (startThreads active sh hosts).2, ∀ me,
        ThreadOk (startThreads active sh hosts).1 th.hostId me th.pc := by
  induction hosts generalizing sh with
  | nil => exact ⟨rfl, .refl h, fun th hth => by cases hth⟩
  | cons hostId hosts ih =>
    obtain ⟨hb, -, hl, hprobe⟩ := ask_spec h hostId
    have hask := Aside.ask h hostId
    obtain ⟨hb', haside, hths⟩ := ih (fun row hrow => hask.grows.known row (hactive row hrow)) hl
    refine ⟨hb'.trans hb, hask.trans haside, ?_⟩
    intro th hth me
    rcases List.mem_cons.1 hth with rfl | hth
    · refine ⟨fun row hrow => ?_, haside.grows.mem hprobe⟩
      have hmem := (List.mem_filter.1 hrow).1
      exact (hask.trans haside).grows.known row (hactive row hmem)
    · exact hths th hth me

theorem startPass_spec (h : Logged sh) : (startPass sh).1.board = sh.board ∧
    Aside sh (startPass sh).1 ∧
    ∀ th ∈ (startPass sh).2, ∀ me, ThreadOk (startPass sh).1 th.hostId me th.pc := by
  refine startThreads_spec _ (fun row hrow => ?_) h _
  exact known_of_mem (List.mem_filter.1 hrow).1

end Aside

/-! ## Runs -/

/-- The invariant of a run. -/
structure Inv (s : System) : Prop where
  base : Base s.shared
  threads : ∀ i th, s.threads[i]? = some th → ThreadOk s.shared th.hostId i th.pc

/-- A step of somebody else leaves every thread what it knows. -/
theorem Inv.aside {s : System} {sh' : Shared} (hi : Inv s) (h : Aside s.shared sh')
    (repairs : List RepairPc) : Inv { s with shared := sh', repairs } where
  base := hi.base.plain h.plain h.logged
  threads := by
    intro i th hth
    refine (hi.threads i th hth).grows h.grows fun n _ hn => ?_
    rw [h.plain.fails]
    exact hn

/-- What a step of a pass may do. -/
def SafeStep (s : System) (e : Event) (s' : System) : Prop :=
  match e with
  | .pass => s'.shared.board = s.shared.board
  | .resume i _ => ∀ th, s.threads[i]? = some th → ExitsOnProof s.shared s'.shared th.hostId i
  | _ => True

/-- **The step lemma.** -/
theorem step_inv {cfg : Claim.Config} {s s' : System} {e : Event} (hi : Inv s)
    (h : step cfg s e = some s') : Inv s' ∧ SafeStep s e s' := by
  have hl := hi.base.logged
  cases e with
  | board event =>
    obtain ⟨board, hb, rfl⟩ := Option.map_eq_some_iff.1 h
    exact ⟨hi.aside (.board hl hb) _, trivial⟩
  | insert row =>
    cases h
    exact ⟨hi.aside (.writes hl (.insert _ _)) _, trivial⟩
  | delete id =>
    cases h
    exact ⟨hi.aside (.delete hl id) _, trivial⟩
  | invalidate =>
    cases h
    exact ⟨hi.aside (.invalidate hl) _, trivial⟩
  | ask hostId =>
    cases h
    exact ⟨hi.aside (.ask hl hostId) _, trivial⟩
  | settle k listing =>
    obtain ⟨scopes, hs, rfl⟩ := Option.map_eq_some_iff.1 h
    exact ⟨hi.aside (.settle hl hs) _, trivial⟩
  | repair hostId session derivedExited =>
    cases h
    exact ⟨hi.aside (.repairStart hl _ _ _) _, trivial⟩
  | resumeRepair call answer =>
    simp only [step] at h
    split at h
    · cases h
    · obtain ⟨⟨shared, pc⟩, hr, rfl⟩ := Option.map_eq_some_iff.1 h
      exact ⟨hi.aside (.repairResume hl hr) _, trivial⟩
  | pass =>
    cases h
    obtain ⟨hb, haside, hths⟩ := startPass_spec hl
    refine ⟨⟨(hi.aside haside s.repairs).base, ?_⟩, hb⟩
    intro i th hth
    by_cases hlt : i < s.threads.length
    · rw [List.getElem?_append_left hlt] at hth
      exact (hi.aside haside s.repairs).threads i th hth
    · rw [List.getElem?_append_right (Nat.le_of_not_lt hlt)] at hth
      exact hths th (List.mem_of_getElem? hth) i
  | resume i answer =>
    simp only [step] at h
    split at h
    · cases h
    · rename_i th hth
      obtain ⟨⟨shared, pc⟩, hr, rfl⟩ := Option.map_eq_some_iff.1 h
      have hadv := threadResume_advances hi.base (hi.threads i th hth) hr
      refine ⟨⟨hadv.base, ?_⟩, ?_⟩
      · intro j th' hth'
        by_cases hj : j = i
        · subst hj
          have hlt := (List.getElem?_eq_some_iff.1 hth).1
          rw [List.getElem?_set_self hlt] at hth'
          cases hth'
          exact hadv.ok
        · rw [List.getElem?_set_ne (Ne.symm hj)] at hth'
          have hok := hi.threads j th' hth'
          refine hok.grows hadv.grows fun n hn hnot hin => ?_
          -- the exit of another thread is not this one's
          rcases hadv.fails n hin with hin | ⟨id, hid⟩
          · exact hnot hin
          · have hown : ∃ row : Session, .exited n j row.id ∈ s.shared.log := by
              cases hpc : th'.pc with
              | terminating row exit walk =>
                rw [hpc] at hok hn
                cases hn
                exact ⟨row, hok.2.1⟩
              | cleaning row exit walk =>
                rw [hpc] at hok hn
                cases hn
                exact ⟨row, hok.2.1⟩
              | _ =>
                rw [hpc] at hn
                cases hn
            obtain ⟨row, hrow⟩ := hown
            exact hj (hi.base.one.same hrow hid).1
      · intro th' hth'
        rw [hth] at hth'
        cases hth'
        exact hadv.writes

theorem inv_start (board : Board) : Inv (System.start board) where
  base :=
    { one :=
        { exits := List.nodup_nil
          terminations := List.nodup_nil
          failures := List.nodup_nil
          terminatedBy := fun _ _ hm => by cases hm
          failedBy := fun _ _ hm => by cases hm }
      counted := fun _ _ _ hm => by cases hm
      logged :=
        { probes := fun _ _ hk => by cases hk
          inflight := fun _ hk => by cases hk
          cached := fun _ _ hk => by cases hk } }
  threads := fun _ _ hth => by cases hth

/-- **A session exits on proof, and once.** From any board, whatever dispatches, retries,
re-seeds, kills, repairs, spawns and listings run beside any number of passes: a pass
moves a session to `exited` only from `active`, when the row is older than the grace and
its host has answered `dead` twice, the second time to a probe that started after the
cache was invalidated; it fails a task only if the task is claimed or in progress with
that session; and every exit is one thread's, which terminates and fails at most once. -/
theorem reconcile_safe (cfg : Claim.Config) (board : Board) (events : List Event) :
    Run.AlongSteps (step cfg) SafeStep (System.start board) events ∧
      Run.Along (step cfg) (fun s => OneExit s.shared.log) (System.start board) events := by
  have hall : Run.Meets (step cfg) (fun _ _ => True) (System.start board) events :=
    .of_forall (fun _ _ => trivial) _ _
  constructor
  · refine (Run.alongSteps_iff_meets (I := Inv) (fun s a s' hi _ h => (step_inv hi h).1)
      (fun s a s' hi h => ?_) (inv_start board)).2 hall
    exact ⟨fun _ => trivial, fun _ => (step_inv hi h).2⟩
  · exact Run.along_of_invariant (I := Inv) (fun s a s' hi _ h => (step_inv hi h).1)
      (fun s hi => hi.base.one) (inv_start board) hall

/-- A session without a scope, twice: its row exits and its task fails. -/
example :
    let board : Board :=
      { world := Claim.demoWorld (Claim.demoDb
          [{ id := 1, projectId := 1, status := .inProgress, sessionId := some 4 }]
          [{ id := 4, projectId := 1 }] 5)
        reseeds := [] }
    let empty : Listing := { owned := [], unverifiable := [], failed := false }
    ((Run.play (step Claim.demoConfig) (System.start board)
        [.board (.call (.tick 20000)), .pass, .settle 0 empty, .resume 0 .listed, .resume 0 .settled,
          .settle 1 empty, .resume 0 .listed, .resume 0 .settled, .resume 0 .settled]).map
      fun s => ((s.shared.db.sessions.get 4).map Session.status,
        (s.shared.db.tasks.get 1).map Task.status)) = some (some .exited, some .failed) := by
  decide

end Reconcile
end Mullion
