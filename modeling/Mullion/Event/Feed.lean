import Mullion.Event.ReadCursor
import Mullion.Lib.Window

/-!
# The event list of the browser

The list of a session is a window of the last `EVENTS_PER_SESSION_CAP` events by `seq`
(`store/helpers.ts`, `addEvent`).  A `seq` starts again at 1 in every process, so the event with the
lowest `seq` need not be the oldest one.  When does a full list drop the oldest event, and when a
younger one?

A list holds no event twice and is never too long, after every run of calls (`kept_throughout`): it
is a sorted window, and a push keeps it so.  A call drops the oldest event exactly if the event with
the lowest `seq` is no younger than the others when a full list takes a new one (`LowestIsOldest`),
and a run drops the oldest events exactly if each of its calls meets that (`keeps_newest_iff`).
After a restart with a full list it fails (`restarted_dropped`).
-/

namespace Mullion
namespace Feed

open ReadCursor (Event addEvent eventsPerSessionCap)

/-- The lists of the sessions. -/
abbrev Lists := ℕ → List Event

/-- A call of `addEvent`, for a session. -/
def step (lists : Lists) (call : ℕ × Event) : Option Lists :=
  some (addEvent lists call.1 call.2)

/-- What tells two events of a session apart. -/
def key (event : Event) : ℕ × ℤ := (event.seq, event.ts)

/-- Every event of a session is held once, and at most `EVENTS_PER_SESSION_CAP` of them. -/
def Kept (lists : Lists) : Prop :=
  ∀ id, ((lists id).map key).Nodup ∧ (lists id).length ≤ eventsPerSessionCap

/-- What is dropped, of the held events and the new one, is no younger than
`EVENTS_PER_SESSION_CAP` of the events held afterwards. -/
def DropsOldest (lists : Lists) (call : ℕ × Event) (lists' : Lists) : Prop :=
  ∀ id, ∀ x ∈ lists id ++ (if id = call.1 then [call.2] else []),
    key x ∉ (lists' id).map key →
      eventsPerSessionCap ≤ (lists' id).countP fun y => x.ts ≤ y.ts

/-- The event that is new to a session. -/
def IsNew (lists : Lists) (call : ℕ × Event) : Prop :=
  key call.2 ∉ (lists call.1).map key

/-- When a full list takes a new event, the event with the lowest `seq` (of the held ones, at a
tie) is no younger than the others. -/
def LowestIsOldest (lists : Lists) (call : ℕ × Event) : Prop :=
  IsNew lists call → (lists call.1).length = eventsPerSessionCap →
    ∀ first rest, lists call.1 = first :: rest →
      if call.2.seq < first.seq then ∀ y ∈ lists call.1, call.2.ts ≤ y.ts
      else ∀ y ∈ call.2 :: rest, first.ts ≤ y.ts

/-! ## One call -/

variable {lists lists' : Lists} {call : ℕ × Event}

theorem not_isNew_iff :
    ¬ IsNew lists call ↔
      ((lists call.1).any fun e => e.seq = call.2.seq && e.ts = call.2.ts) = true := by
  rw [IsNew, not_not, List.mem_map, List.any_eq_true]
  refine exists_congr fun e => and_congr_right fun _ => ?_
  rw [Bool.and_eq_true, decide_eq_true_eq, decide_eq_true_eq]
  exact Prod.mk.injEq _ _ _ _ ▸ Iff.rfl

/-- A replay of a held event changes nothing. -/
theorem addEvent_of_not_new (h : ¬ IsNew lists call) : addEvent lists call.1 call.2 = lists := by
  rw [addEvent, if_pos (not_isNew_iff.1 h)]

/-- A new event is pushed into the window of its session. -/
theorem addEvent_of_new (h : IsNew lists call) :
    addEvent lists call.1 call.2 = Function.update lists call.1
      (Window.push Event.seq eventsPerSessionCap (lists call.1) call.2) := by
  rw [addEvent, if_neg fun hany => not_isNew_iff.2 hany h]
  rfl

/-- What `addEvent` keeps: `Kept`, and the lists sorted by `seq`. -/
structure Inv (lists : Lists) : Prop where
  kept : Kept lists
  sorted : ∀ id, Window.Sorted Event.seq (lists id)

theorem Inv.empty : Inv fun _ => [] :=
  ⟨fun _ => ⟨List.nodup_nil, Nat.zero_le _⟩, fun _ => List.Pairwise.nil⟩

/-- The events held after a new one came are among the old ones and the new one. -/
theorem push_sublist (held : List Event) (e : Event) :
    ∃ all, (e :: held).Perm all ∧ (Window.push Event.seq eventsPerSessionCap held e).Sublist all :=
  ⟨_, List.perm_append_comm.trans (List.mergeSort_perm (held ++ [e]) _).symm,
    List.drop_sublist _ _⟩

theorem Inv.add (h : Inv lists) (call : ℕ × Event) : Inv (addEvent lists call.1 call.2) := by
  by_cases hnew : IsNew lists call
  · rw [addEvent_of_new hnew]
    constructor
    · intro id
      by_cases hid : id = call.1
      · subst hid
        rw [Function.update_self]
        obtain ⟨all, hperm, hsub⟩ := push_sublist (lists call.1) call.2
        have hall : (all.map key).Nodup :=
          (hperm.map _).nodup_iff.1 (List.nodup_cons.2 ⟨hnew, (h.kept call.1).1⟩)
        exact ⟨hall.sublist (hsub.map _), Window.push_length_le _ _ _⟩
      · rw [Function.update_of_ne hid]
        exact h.kept id
    · intro id
      by_cases hid : id = call.1
      · subst hid
        rw [Function.update_self]
        exact Window.push_sorted _ _ _
      · rw [Function.update_of_ne hid]
        exact h.sorted id
  · rw [addEvent_of_not_new hnew]
    exact h

/-! ## What is dropped -/

/-- If one element falls out of a list and `EVENTS_PER_SESSION_CAP` stay, it may do so when it is
no younger than those. -/
theorem drops_iff {all held : List Event} {dropped : Event} (hperm : all.Perm (dropped :: held))
    (hnodup : (all.map key).Nodup) (hlen : held.length = eventsPerSessionCap) :
    (∀ x ∈ all, key x ∉ held.map key → eventsPerSessionCap ≤ held.countP fun y => x.ts ≤ y.ts) ↔
      ∀ y ∈ held, dropped.ts ≤ y.ts := by
  have hout : key dropped ∉ held.map key :=
    (List.nodup_cons.1 ((hperm.map key).nodup_iff.1 hnodup)).1
  have hcount (x : Event) :
      eventsPerSessionCap ≤ held.countP (fun y => x.ts ≤ y.ts) ↔ ∀ y ∈ held, x.ts ≤ y.ts := by
    have hle : held.countP (fun y => x.ts ≤ y.ts) ≤ held.length := List.countP_le_length
    rw [← hlen, hle.ge_iff_eq, List.countP_eq_length]
    exact forall₂_congr fun y _ => decide_eq_true_iff
  constructor
  · intro h
    exact (hcount dropped).1 (h dropped (hperm.mem_iff.2 List.mem_cons_self) hout)
  · intro h x hx hkey
    rcases List.mem_cons.1 (hperm.mem_iff.1 hx) with rfl | hx
    · exact (hcount x).2 h
    · exact absurd (List.mem_map_of_mem hx) hkey

/-- A session that a call concerns decides what the call drops. -/
theorem dropsOldest_iff_at (hother : ∀ id ≠ call.1, lists' id = lists id) :
    DropsOldest lists call lists' ↔
      ∀ x ∈ lists call.1 ++ [call.2], key x ∉ (lists' call.1).map key →
        eventsPerSessionCap ≤ (lists' call.1).countP fun y => x.ts ≤ y.ts := by
  constructor
  · intro h x hx
    have hx' := h call.1 x
    rw [if_pos rfl] at hx'
    exact hx' hx
  · intro h id x hx
    by_cases hid : id = call.1
    · subst hid
      rw [if_pos rfl] at hx
      exact h x hx
    · rw [if_neg hid, List.append_nil] at hx
      intro hkey
      rw [hother id hid] at hkey
      exact absurd (List.mem_map_of_mem hx) hkey

/-- A call drops the oldest event exactly when, should its list be full, the lowest `seq` belongs
to the oldest event. -/
theorem dropsOldest_iff (h : Inv lists) :
    DropsOldest lists call (addEvent lists call.1 call.2) ↔ LowestIsOldest lists call := by
  by_cases hnew : IsNew lists call
  · have hother : ∀ id ≠ call.1, addEvent lists call.1 call.2 id = lists id := by
      intro id hid
      rw [addEvent_of_new hnew, Function.update_of_ne hid]
    rw [dropsOldest_iff_at hother, addEvent_of_new hnew, Function.update_self]
    have hall : ((lists call.1 ++ [call.2]).map key).Nodup :=
      (List.perm_append_comm.map key).nodup_iff.1 (List.nodup_cons.2 ⟨hnew, (h.kept call.1).1⟩)
    have hsorted := h.sorted call.1
    rcases (h.kept call.1).2.lt_or_eq with hroom | hfull
    · -- there is room
      have hperm := Window.push_perm Event.seq hroom call.2
      constructor
      · intro _ _ hlen
        exact absurd hlen hroom.ne
      · intro _ x hx hkey
        have hx' : x ∈ call.2 :: lists call.1 := List.perm_append_comm.mem_iff.1 hx
        exact absurd (List.mem_map_of_mem (hperm.mem_iff.2 hx')) hkey
    · rw [LowestIsOldest]
      generalize lists call.1 = held at hall hsorted hfull
      cases held with
      | nil => cases hfull
      | cons first rest =>
        by_cases hbelow : call.2.seq < first.seq
        · rw [Window.push_below hsorted hfull hbelow,
            drops_iff List.perm_append_comm hall hfull]
          constructor
          · rintro hold - - _ _ ⟨⟩
            rw [if_pos hbelow]
            exact hold
          · intro hlow
            have hold := hlow hnew hfull first rest rfl
            rwa [if_pos hbelow] at hold
        · have hperm := Window.push_full hsorted hfull (not_lt.1 hbelow)
          have hdropped : (first :: rest ++ [call.2]).Perm
              (first :: Window.push Event.seq eventsPerSessionCap (first :: rest) call.2) := by
            rw [List.cons_append]
            exact (List.perm_append_comm.trans hperm.symm).cons first
          rw [drops_iff hdropped hall (hperm.length_eq.trans hfull)]
          constructor
          · rintro hold - - _ _ ⟨⟩
            rw [if_neg hbelow]
            exact fun y hy => hold y (hperm.mem_iff.2 hy)
          · intro hlow y hy
            have hold := hlow hnew hfull first rest rfl
            rw [if_neg hbelow] at hold
            exact hold y (hperm.mem_iff.1 hy)
  · rw [addEvent_of_not_new hnew]
    constructor
    · exact fun _ h => absurd h hnew
    · refine fun _ => (dropsOldest_iff_at fun _ _ => rfl).2 fun x hx hkey => ?_
      rcases List.mem_append.1 hx with hx | hx
      · exact absurd (List.mem_map_of_mem hx) hkey
      · rw [List.mem_singleton.1 hx] at hkey
        exact absurd hkey hnew

/-! ## Runs of calls -/

theorem inv_along (calls : List (ℕ × Event)) : Run.Along step Inv (fun _ => []) calls :=
  Run.along_of_invariant (C := fun _ _ => True)
    (fun _ _ _ h _ hs => by cases hs; exact h.add _) (fun _ h => h) Inv.empty
    (Run.Meets.of_forall (fun _ _ => trivial) _ _)

theorem kept_throughout (calls : List (ℕ × Event)) : Run.Along step Kept (fun _ => []) calls :=
  (inv_along calls).imp fun _ h => h.kept

/-- **The newest events.** Along every sequence of calls no event is held twice and no list is
too long; and what is dropped is always the oldest, exactly when no call finds a full list whose
lowest `seq`, with that of the new event, is not the oldest. -/
theorem keeps_newest_iff (calls : List (ℕ × Event)) :
    Run.Along step Kept (fun _ => []) calls ∧
      Run.AlongSteps step DropsOldest (fun _ => []) calls ↔
    Run.Meets step LowestIsOldest (fun _ => []) calls := by
  rw [and_iff_right (kept_throughout calls)]
  exact Run.alongSteps_iff_meets (I := Inv) (fun _ _ _ h _ hs => by cases hs; exact h.add _)
    (fun _ _ _ h hs => by cases hs; exact dropsOldest_iff h) Inv.empty

/-! ## A restart with a full list -/

/-- Events as the processes of a session emit them: `ts` never decreases from a process to a
later one, nor with `seq` within a process. -/
def Issued (calls : List (ℕ × Event)) : Prop :=
  ∀ x ∈ calls, ∀ y ∈ calls, x.1 = y.1 →
    (x.2.boot < y.2.boot → x.2.ts ≤ y.2.ts) ∧
    (x.2.boot = y.2.boot → x.2.seq ≤ y.2.seq → x.2.ts ≤ y.2.ts)

/-- The events 2, 3, … of the first process, in session 7. -/
def firstProcess (n : ℕ) : List Event := (List.range n).map fun i => ⟨1, i + 2, i⟩

theorem firstProcess_succ (n : ℕ) : firstProcess (n + 1) = firstProcess n ++ [⟨1, n + 2, n⟩] := by
  rw [firstProcess, List.range_succ, List.map_append]
  rfl

theorem firstProcess_length (n : ℕ) : (firstProcess n).length = n := by
  rw [firstProcess, List.length_map, List.length_range]

theorem firstProcess_sorted (n : ℕ) : Window.Sorted Event.seq (firstProcess n) :=
  List.pairwise_map.2 (List.pairwise_lt_range.imp fun hab => by dsimp only; omega)

/-- While there is room, the events of a process line up. -/
theorem play_firstProcess {n : ℕ} (hn : n ≤ eventsPerSessionCap) :
    Run.play step (fun _ => []) ((firstProcess n).map fun e => (7, e)) =
      some (Function.update (fun _ => []) 7 (firstProcess n)) := by
  induction n with
  | zero => exact congrArg some (Function.update_eq_self 7 fun _ => []).symm
  | succ n ih =>
    have hpush : Window.push Event.seq eventsPerSessionCap (firstProcess n) ⟨1, n + 2, n⟩ =
        firstProcess n ++ [⟨1, n + 2, n⟩] :=
      Window.push_concat (firstProcess_succ n ▸ firstProcess_sorted (n + 1))
        (by rw [firstProcess_length]; omega)
    have hnew : IsNew (Function.update (fun _ => []) 7 (firstProcess n)) (7, ⟨1, n + 2, n⟩) := by
      intro hmem
      rw [Function.update_self, List.mem_map] at hmem
      obtain ⟨e, he, hkey⟩ := hmem
      obtain ⟨i, hi, rfl⟩ := List.mem_map.1 he
      have hseq : i + 2 = n + 2 := congrArg Prod.fst hkey
      have hlt := List.mem_range.1 hi
      omega
    rw [firstProcess_succ, List.map_append, Run.play_append, ih (by omega), Option.bind_some,
      List.map_singleton, Run.play, step, addEvent_of_new hnew, Function.update_self, hpush,
      Function.update_idem]
    rfl

/-- The first event after a restart, in a list full of events from before. -/
def restarted : List (ℕ × Event) :=
  (firstProcess eventsPerSessionCap).map (fun e => (7, e)) ++ [(7, ⟨2, 1, 1000⟩)]

/-- The first event after a restart is dropped at once, from a list of 200 older ones. -/
theorem restarted_dropped :
    Issued restarted ∧
      ¬ (Run.Along step Kept (fun _ => []) restarted ∧
        Run.AlongSteps step DropsOldest (fun _ => []) restarted) := by
  constructor
  · have hmem : ∀ x ∈ restarted,
        (∃ i < 200, x = (7, ⟨1, i + 2, i⟩)) ∨ x = (7, ⟨2, 1, 1000⟩) := by
      intro x hx
      rcases List.mem_append.1 hx with hx | hx
      · obtain ⟨e, he, rfl⟩ := List.mem_map.1 hx
        obtain ⟨i, hi, rfl⟩ := List.mem_map.1 he
        exact Or.inl ⟨i, List.mem_range.1 hi, rfl⟩
      · exact Or.inr (List.mem_singleton.1 hx)
    intro x hx y hy _
    rcases hmem x hx with ⟨i, hi, rfl⟩ | rfl <;> rcases hmem y hy with ⟨j, hj, rfl⟩ | rfl <;>
      dsimp only <;> omega
  · rintro ⟨-, h⟩
    have hplay := play_firstProcess le_rfl
    have hinv := (inv_along _).last hplay
    have hlowest := (dropsOldest_iff hinv).1 (h.last hplay rfl)
    have hnew : IsNew (Function.update (fun _ => []) 7 (firstProcess eventsPerSessionCap))
        (7, ⟨2, 1, 1000⟩) := by
      intro hmem
      rw [Function.update_self, List.mem_map] at hmem
      obtain ⟨e, he, hkey⟩ := hmem
      obtain ⟨i, -, rfl⟩ := List.mem_map.1 he
      have hseq : i + 2 = 1 := congrArg Prod.fst hkey
      omega
    have hfull : (Function.update (fun _ => []) 7 (firstProcess eventsPerSessionCap) 7).length =
        eventsPerSessionCap := by
      rw [Function.update_self, firstProcess_length]
    have holder := hlowest hnew hfull ⟨1, 2, 0⟩ _ (Function.update_self 7 _ _)
    have hmem : (⟨1, 2, 0⟩ : Event) ∈
        Function.update (fun _ => []) 7 (firstProcess eventsPerSessionCap) 7 := by
      rw [Function.update_self]
      exact List.mem_cons_self
    have hts : (1000 : ℤ) ≤ 0 := holder _ hmem
    omega

end Feed
end Mullion
