import Mathlib.Data.List.Nodup
import Mullion.Lib.Run
import Mullion.Message.Queue

/-!
# The message queue keeps its order

What holds of the queue of messages in every state of every run, while its passes wait for the
terminals and messages come in and expire between. `Orderly` says that a message leaves `queued`
once, that no target has more than its share, that `deliver` is called in the order of the enqueues,
one call at a time and never again for a message it has delivered, and that the timer is armed while
a message is queued.

The log of a run has a mark for each of these events, so that the property is about the log. `Core`
ties the log to the messages that wait: they are those that were enqueued and have not left, in the
order of their ids, and a message that was called is none behind another one of its target. The
queue changes them in four ways only (`Core.drop`, `Core.call`, `Core.answer`, `Core.add`). Between
two steps a pass has the messages that it is still going to try, and `PassOk` says what it knows of
them: each still waits and is the oldest of a target of its own (`Heads`). Each step keeps the three
parts of `Inv`, and `queue_orderly` reads `Orderly` off it.
-/

namespace Mullion
namespace MessageQueue

/-! ## The property -/

def Mark.enqueuedId : Mark → Option Nat
  | .enqueued id _ => some id
  | _ => none

def Mark.leftId : Mark → Option Nat
  | .left id => some id
  | _ => none

def Mark.isCalled : Mark → Bool
  | .called _ _ => true
  | _ => false

def Mark.isReturned : Mark → Bool
  | .returned _ _ => true
  | _ => false

/-- The law of the queue, over its messages and the log. -/
structure Orderly (q : Queue) : Prop where
  /-- Ids follow the order of the enqueues. -/
  numbered : (q.log.filterMap Mark.enqueuedId).Pairwise (· < ·)
  leftOnce : (q.log.filterMap Mark.leftId).Nodup
  left : ∀ id target, .enqueued id target ∈ q.log →
    (.left id ∈ q.log ↔ ¬ ∃ m ∈ q.messages, m.id = id ∧ m.isQueued)
  bounded : ∀ target, (q.queuedFor target).length ≤ maxQueuedPerTarget
  called : ∀ id target, .called id target ∈ q.log → .enqueued id target ∈ q.log
  inOrder : q.log.Pairwise fun a b =>
    ∀ id id' target, a = .called id target → b = .called id' target → id ≤ id'
  oneAtOnce : q.log.countP Mark.isCalled ≤ q.log.countP Mark.isReturned + 1
  final : q.log.Pairwise fun a b => ∀ id target, a = .returned id true → b ≠ .called id target
  armed : (∃ m ∈ q.messages, m.isQueued) → q.timer = true

/-! ## The invariant -/

/-- The invariant on the messages that wait, the log and the timer. -/
structure Core (q : Queue) : Prop where
  sorted : q.waiting.Pairwise fun a b => a.id < b.id
  waits : ∀ m ∈ q.waiting, .enqueued m.id m.targetSessionId ∈ q.log ∧ .left m.id ∉ q.log
  gone : ∀ id target, .enqueued id target ∈ q.log → .left id ∉ q.log →
    ∃ m ∈ q.waiting, m.id = id
  next : ∀ id target, .enqueued id target ∈ q.log → id < q.nextId
  leftBefore : ∀ id, .left id ∈ q.log → id < q.nextId
  numbered : (q.log.filterMap Mark.enqueuedId).Pairwise (· < ·)
  leftOnce : (q.log.filterMap Mark.leftId).Nodup
  bounded : ∀ target, (q.waiting.filter (fun m => m.targetSessionId = target)).length ≤
    maxQueuedPerTarget
  called : ∀ id target, .called id target ∈ q.log → .enqueued id target ∈ q.log ∧
    ∀ m ∈ q.waiting, m.targetSessionId = target → id ≤ m.id
  inOrder : q.log.Pairwise fun a b =>
    ∀ id id' target, a = .called id target → b = .called id' target → id ≤ id'
  ok : ∀ id, .returned id true ∈ q.log → .left id ∈ q.log
  final : q.log.Pairwise fun a b => ∀ id target, a = .returned id true → b ≠ .called id target
  armed : q.waiting ≠ [] → q.timer = true

/-- A mark joins the log. -/
theorem pairwise_snoc {R : Mark → Mark → Prop} {log l : List Mark} (h : log.Pairwise R)
    (hl : l.Pairwise R) (hm : ∀ a ∈ log, ∀ b ∈ l, R a b) : (log ++ l).Pairwise R :=
  List.pairwise_append.2 ⟨h, hl, hm⟩

section Core

variable {q q' : Queue}

theorem Core.nodup_ids (h : Core q) : (q.waiting.map Message.id).Nodup :=
  List.pairwise_map.2 (h.sorted.imp fun hlt => Nat.ne_of_lt hlt)

/-- Two waiting messages of one id are one. -/
theorem Core.inj (h : Core q) {a b : Message} (ha : a ∈ q.waiting) (hb : b ∈ q.waiting)
    (hab : a.id = b.id) : a = b :=
  List.inj_on_of_nodup_map h.nodup_ids ha hb hab

/-- Messages leave the queue. -/
theorem Core.drop (h : Core q) (p : Message → Bool)
    (hw : q'.waiting = q.waiting.filter (fun m => !p m))
    (hl : q'.log = q.log ++ (q.waiting.filter p).map fun m => .left m.id)
    (hn : q'.nextId = q.nextId) (ht : q'.waiting ≠ [] → q'.timer = q.timer) : Core q' := by
  have hmem : ∀ m, m ∈ q'.waiting ↔ m ∈ q.waiting ∧ p m = false := by
    intro m
    rw [hw]
    simp
  have hmark : ∀ b ∈ (q.waiting.filter p).map fun m => Mark.left m.id,
      ∃ m ∈ q.waiting, p m = true ∧ b = .left m.id := by
    intro b hb
    obtain ⟨m, hm, rfl⟩ := List.mem_map.1 hb
    obtain ⟨hm, hp⟩ := List.mem_filter.1 hm
    exact ⟨m, hm, hp, rfl⟩
  have hold : ∀ {a}, a ∈ q'.log → (∀ id, a ≠ .left id) → a ∈ q.log := by
    intro a ha hne
    rw [hl] at ha
    rcases List.mem_append.1 ha with ha | ha
    · exact ha
    · obtain ⟨m, -, -, rfl⟩ := hmark a ha
      exact absurd rfl (hne m.id)
  have hin : ∀ {a}, a ∈ q.log → a ∈ q'.log := by
    intro a ha
    rw [hl]
    exact List.mem_append_left _ ha
  have hleft : ∀ id, .left id ∈ q'.log →
      .left id ∈ q.log ∨ ∃ m ∈ q.waiting, p m = true ∧ m.id = id := by
    intro id hid
    rw [hl] at hid
    rcases List.mem_append.1 hid with hid | hid
    · exact .inl hid
    · obtain ⟨m, hm, hp, heq⟩ := hmark _ hid
      cases heq
      exact .inr ⟨m, hm, hp, rfl⟩
  have hnew : ∀ {m}, m ∈ q.waiting → p m = true → .left m.id ∈ q'.log := by
    intro m hm hp
    rw [hl]
    exact List.mem_append_right _ (List.mem_map.2 ⟨m, List.mem_filter.2 ⟨hm, hp⟩, rfl⟩)
  have hsnoc : ∀ {R : Mark → Mark → Prop}, q.log.Pairwise R → (∀ a id, R a (.left id)) →
      q'.log.Pairwise R := by
    intro R hR hid
    rw [hl]
    refine pairwise_snoc hR (List.pairwise_map.2 (List.pairwise_of_forall fun _ _ => hid _ _)) ?_
    intro a _ b hb
    obtain ⟨m, -, -, rfl⟩ := hmark b hb
    exact hid a m.id
  constructor
  case sorted =>
    rw [hw]
    exact h.sorted.filter _
  case waits =>
    intro m hm
    obtain ⟨hm, hp⟩ := (hmem m).1 hm
    obtain ⟨he, hl⟩ := h.waits m hm
    refine ⟨hin he, fun hid => ?_⟩
    rcases hleft _ hid with hid | ⟨m', hm', hp', hid⟩
    · exact hl hid
    · cases h.inj hm' hm hid
      rw [hp] at hp'
      cases hp'
  case gone =>
    intro id target he hid
    obtain ⟨m, hm, rfl⟩ := h.gone id target (hold he (by intro _ h; cases h)) fun h => hid (hin h)
    refine ⟨m, (hmem m).2 ⟨hm, ?_⟩, rfl⟩
    by_contra hp
    exact hid (hnew hm (by simpa using hp))
  case next =>
    intro id target he
    rw [hn]
    exact h.next id target (hold he (by intro _ h; cases h))
  case leftBefore =>
    intro id hid
    rw [hn]
    rcases hleft id hid with hid | ⟨m, hm, -, rfl⟩
    · exact h.leftBefore id hid
    · exact h.next _ _ (h.waits m hm).1
  case numbered =>
    rw [hl, List.filterMap_append, List.filterMap_map]
    have hnil : (q.waiting.filter p).filterMap (Mark.enqueuedId ∘ fun m => Mark.left m.id) = [] :=
      List.filterMap_eq_nil_iff.2 fun _ _ => rfl
    rw [hnil, List.append_nil]
    exact h.numbered
  case leftOnce =>
    rw [hl, List.filterMap_append, List.filterMap_map]
    have hids : (q.waiting.filter p).filterMap (Mark.leftId ∘ fun m => Mark.left m.id) =
        (q.waiting.filter p).map Message.id := by
      rw [← List.filterMap_eq_map]
      rfl
    rw [hids, List.nodup_append]
    refine ⟨h.leftOnce, List.pairwise_map.2 ((h.sorted.filter _).imp fun hlt => Nat.ne_of_lt hlt),
      ?_⟩
    rintro a ha b hb rfl
    obtain ⟨mark, hmark, ha⟩ := List.mem_filterMap.1 ha
    obtain ⟨m, hm, rfl⟩ := List.mem_map.1 hb
    cases mark <;> cases ha
    exact (h.waits m (List.mem_filter.1 hm).1).2 hmark
  case bounded =>
    intro target
    refine Nat.le_trans ?_ (h.bounded target)
    rw [hw]
    exact (List.filter_sublist.filter _).length_le
  case called =>
    intro id target hid
    obtain ⟨he, hmin⟩ := h.called id target (hold hid (by intro _ h; cases h))
    exact ⟨hin he, fun m hm => hmin m ((hmem m).1 hm).1⟩
  case inOrder =>
    refine hsnoc h.inOrder ?_
    intro a id _ _ _ _ hb
    cases hb
  case ok =>
    intro id hid
    exact hin (h.ok id (hold hid (by intro _ h; cases h)))
  case final =>
    refine hsnoc h.final ?_
    intro a id _ _ _ hb
    cases hb
  case armed =>
    intro hne
    rw [ht hne]
    refine h.armed fun hnil => hne ?_
    rw [hw, hnil]
    rfl

/-- Nothing happens to the messages that wait. -/
theorem Core.same (h : Core q) (hw : q'.waiting = q.waiting) (hl : q'.log = q.log)
    (hn : q'.nextId = q.nextId) (ht : q'.waiting ≠ [] → q'.timer = q.timer) : Core q' := by
  refine h.drop (fun _ => false) ?_ ?_ hn ht
  · rw [hw]
    exact (List.filter_eq_self.2 fun _ _ => rfl).symm
  · rw [hl, List.filter_false]
    exact (List.append_nil _).symm

/-- A mark of a callback joins the log. -/
theorem Core.mark (h : Core q) (a : Mark) (hw : q'.waiting = q.waiting)
    (hl : q'.log = q.log ++ [a]) (hn : q'.nextId = q.nextId) (ht : q'.timer = q.timer)
    (hnone : a.enqueuedId = none ∧ a.leftId = none)
    (hcalled : ∀ id target, a = .called id target → .enqueued id target ∈ q.log ∧
      (∀ m ∈ q.waiting, m.targetSessionId = target → id ≤ m.id) ∧
      (∀ id', .called id' target ∈ q.log → id' ≤ id) ∧ .returned id true ∉ q.log)
    (hok : ∀ id, a = .returned id true → .left id ∈ q.log) : Core q' := by
  have hmem : ∀ {b}, b ∈ q'.log ↔ b ∈ q.log ∨ b = a := by
    intro b
    rw [hl, List.mem_append, List.mem_singleton]
  have hleft : ∀ {id}, .left id ∈ q'.log ↔ .left id ∈ q.log := by
    intro id
    refine hmem.trans ⟨fun h => h.resolve_right ?_, .inl⟩
    rintro rfl
    cases hnone.2
  have henq : ∀ {id target}, .enqueued id target ∈ q'.log ↔ .enqueued id target ∈ q.log := by
    intro id target
    refine hmem.trans ⟨fun h => h.resolve_right ?_, .inl⟩
    rintro rfl
    cases hnone.1
  constructor
  case sorted =>
    rw [hw]
    exact h.sorted
  case waits =>
    intro m hm
    rw [hw] at hm
    rw [henq, hleft]
    exact h.waits m hm
  case gone =>
    intro id target he hid
    rw [hw]
    exact h.gone id target (henq.1 he) fun h => hid (hleft.2 h)
  case next =>
    intro id target he
    rw [hn]
    exact h.next id target (henq.1 he)
  case leftBefore =>
    intro id hid
    rw [hn]
    exact h.leftBefore id (hleft.1 hid)
  case numbered =>
    rw [hl, List.filterMap_append, List.filterMap_cons_none hnone.1, List.filterMap_nil,
      List.append_nil]
    exact h.numbered
  case leftOnce =>
    rw [hl, List.filterMap_append, List.filterMap_cons_none hnone.2, List.filterMap_nil,
      List.append_nil]
    exact h.leftOnce
  case bounded =>
    intro target
    rw [hw]
    exact h.bounded target
  case called =>
    intro id target hid
    rw [hw, henq]
    rcases hmem.1 hid with hid | hid
    · exact h.called id target hid
    · obtain ⟨he, hmin, -, -⟩ := hcalled id target hid.symm
      exact ⟨he, hmin⟩
  case inOrder =>
    rw [hl]
    refine pairwise_snoc h.inOrder (List.pairwise_singleton _ _) ?_
    intro b hb b' hb' id id' target hid hid'
    obtain rfl := List.mem_singleton.1 hb'
    obtain ⟨-, -, hmax, -⟩ := hcalled id' target hid'
    exact hmax id (hid ▸ hb)
  case ok =>
    intro id hid
    rw [hleft]
    rcases hmem.1 hid with hid | hid
    · exact h.ok id hid
    · exact hok id hid.symm
  case final =>
    rw [hl]
    refine pairwise_snoc h.final (List.pairwise_singleton _ _) ?_
    intro b hb b' hb' id target hid hid'
    obtain rfl := List.mem_singleton.1 hb'
    obtain ⟨-, -, -, hnot⟩ := hcalled id target hid'
    exact hnot (hid ▸ hb)
  case armed =>
    rw [hw, ht]
    exact h.armed

/-- `deliver` is called for the oldest message of its target. -/
theorem Core.call (h : Core q) {m : Message} (hm : m ∈ q.waiting)
    (hmin : ∀ m' ∈ q.waiting, m'.targetSessionId = m.targetSessionId → m.id ≤ m'.id)
    (hw : q'.waiting = q.waiting) (hl : q'.log = q.log ++ [.called m.id m.targetSessionId])
    (hn : q'.nextId = q.nextId) (ht : q'.timer = q.timer) : Core q' := by
  obtain ⟨he, hnot⟩ := h.waits m hm
  refine h.mark _ hw hl hn ht ⟨rfl, rfl⟩ ?_ (by intro _ heq; cases heq)
  intro id target heq
  cases heq
  exact ⟨he, hmin, fun id' hid' => (h.called id' _ hid').2 m hm rfl, fun hid => hnot (h.ok _ hid)⟩

/-- `deliver` answers. -/
theorem Core.answer (h : Core q) {id : Nat} {ok : Bool} (hok : ok = true → .left id ∈ q.log)
    (hw : q'.waiting = q.waiting) (hl : q'.log = q.log ++ [.returned id ok])
    (hn : q'.nextId = q.nextId) (ht : q'.timer = q.timer) : Core q' := by
  refine h.mark _ hw hl hn ht ⟨rfl, rfl⟩ (by intro _ _ heq; cases heq) ?_
  intro id' heq
  cases heq
  exact hok rfl

/-- A message joins the queue of a target that has room. -/
theorem Core.add (h : Core q) {m : Message} (hid : m.id = q.nextId)
    (hroom : (q.waiting.filter (fun m' => m'.targetSessionId = m.targetSessionId)).length <
      maxQueuedPerTarget)
    (hw : q'.waiting = q.waiting ++ [m])
    (hl : q'.log = q.log ++ [.enqueued m.id m.targetSessionId]) (hn : q'.nextId = q.nextId + 1)
    (ht : q'.timer = true) : Core q' := by
  have hwmem : ∀ {a}, a ∈ q'.waiting ↔ a ∈ q.waiting ∨ a = m := by
    intro a
    rw [hw, List.mem_append, List.mem_singleton]
  have hlmem : ∀ {b}, b ∈ q'.log ↔ b ∈ q.log ∨ b = .enqueued m.id m.targetSessionId := by
    intro b
    rw [hl, List.mem_append, List.mem_singleton]
  have hold : ∀ {b}, b ∈ q'.log → b ≠ .enqueued m.id m.targetSessionId → b ∈ q.log := by
    intro b hb hne
    exact (hlmem.1 hb).resolve_right hne
  have hlt : ∀ {a}, a ∈ q.waiting → a.id < m.id := by
    intro a ha
    rw [hid]
    exact h.next _ _ (h.waits a ha).1
  have hfresh : .left m.id ∉ q'.log := by
    intro hmem
    have hmem := h.leftBefore m.id (hold hmem (by intro h; cases h))
    omega
  constructor
  case sorted =>
    rw [hw]
    refine List.pairwise_append.2 ⟨h.sorted, List.pairwise_singleton _ _, ?_⟩
    intro a ha b hb
    obtain rfl := List.mem_singleton.1 hb
    exact hlt ha
  case waits =>
    intro a ha
    rcases hwmem.1 ha with ha | rfl
    · obtain ⟨he, hnot⟩ := h.waits a ha
      exact ⟨hlmem.2 (.inl he), fun hmem => hnot (hold hmem (by intro h; cases h))⟩
    · exact ⟨hlmem.2 (.inr rfl), hfresh⟩
  case gone =>
    intro id target he hnot
    rcases hlmem.1 he with he | heq
    · obtain ⟨a, ha, hida⟩ := h.gone id target he fun hmem => hnot (hlmem.2 (.inl hmem))
      exact ⟨a, hwmem.2 (.inl ha), hida⟩
    · cases heq
      exact ⟨m, hwmem.2 (.inr rfl), rfl⟩
  case next =>
    intro id target he
    rw [hn]
    rcases hlmem.1 he with he | heq
    · exact Nat.lt_succ_of_lt (h.next id target he)
    · cases heq
      omega
  case leftBefore =>
    intro id hmem
    rw [hn]
    exact Nat.lt_succ_of_lt (h.leftBefore id (hold hmem (by intro h; cases h)))
  case numbered =>
    rw [hl, List.filterMap_append]
    refine List.pairwise_append.2 ⟨h.numbered, List.pairwise_singleton _ _, ?_⟩
    intro a ha b hb
    obtain ⟨mark, hmark, ha⟩ := List.mem_filterMap.1 ha
    obtain rfl := List.mem_singleton.1 hb
    cases mark <;> cases ha
    rw [hid]
    exact h.next _ _ hmark
  case leftOnce =>
    rw [hl, List.filterMap_append, List.filterMap_cons_none rfl, List.filterMap_nil,
      List.append_nil]
    exact h.leftOnce
  case bounded =>
    intro target
    rw [hw, List.filter_append, List.length_append]
    by_cases heq : m.targetSessionId = target
    · subst heq
      rw [List.filter_singleton, decide_eq_true rfl]
      exact hroom
    · rw [List.filter_singleton, decide_eq_false heq]
      exact h.bounded target
  case called =>
    intro id target hmem
    obtain ⟨he, hmin⟩ := h.called id target (hold hmem (by intro h; cases h))
    refine ⟨hlmem.2 (.inl he), ?_⟩
    intro a ha hta
    rcases hwmem.1 ha with ha | rfl
    · exact hmin a ha hta
    · have hlt := h.next id target he
      omega
  case inOrder =>
    rw [hl]
    refine pairwise_snoc h.inOrder (List.pairwise_singleton _ _) ?_
    intro a _ b hb _ _ _ _ heq
    obtain rfl := List.mem_singleton.1 hb
    cases heq
  case ok =>
    intro id hmem
    exact hlmem.2 (.inl (h.ok id (hold hmem (by intro h; cases h))))
  case final =>
    rw [hl]
    refine pairwise_snoc h.final (List.pairwise_singleton _ _) ?_
    intro a _ b hb _ _ _ heq
    obtain rfl := List.mem_singleton.1 hb
    cases heq
  case armed =>
    intro _
    exact ht

end Core

/-! ## The messages of the queue -/

/-- The messages stand in the order of their ids. -/
structure Ids (q : Queue) : Prop where
  sorted : q.messages.Pairwise fun a b => a.id < b.id
  next : ∀ m ∈ q.messages, m.id < q.nextId

section Ids

variable {q q' : Queue}

/-- A patch of messages keeps their ids. -/
theorem Ids.map (h : Ids q) (f : Message → Message) (hf : ∀ m, (f m).id = m.id)
    (hm : q'.messages = q.messages.map f) (hn : q'.nextId = q.nextId) : Ids q' := by
  constructor
  · rw [hm]
    refine List.pairwise_map.2 (h.sorted.imp ?_)
    intro a b hab
    rw [hf, hf]
    exact hab
  · rw [hm, hn]
    intro m hmem
    obtain ⟨a, ha, rfl⟩ := List.mem_map.1 hmem
    rw [hf]
    exact h.next a ha

theorem Ids.filter (h : Ids q) (p : Message → Bool) (hm : q'.messages = q.messages.filter p)
    (hn : q'.nextId = q.nextId) : Ids q' := by
  constructor
  · rw [hm]
    exact h.sorted.filter _
  · rw [hm, hn]
    intro m hmem
    exact h.next m (List.mem_filter.1 hmem).1

theorem Ids.add (h : Ids q) {m : Message} (hid : m.id = q.nextId)
    (hm : q'.messages = q.messages ++ [m]) (hn : q'.nextId = q.nextId + 1) : Ids q' := by
  constructor
  · rw [hm]
    refine List.pairwise_append.2 ⟨h.sorted, List.pairwise_singleton _ _, ?_⟩
    intro a ha b hb
    obtain rfl := List.mem_singleton.1 hb
    rw [hid]
    exact h.next a ha
  · rw [hm, hn]
    intro a ha
    rcases List.mem_append.1 ha with ha | ha
    · exact Nat.lt_succ_of_lt (h.next a ha)
    · obtain rfl := List.mem_singleton.1 ha
      omega

/-- Looking up an id finds the message of that id. -/
theorem Ids.find (h : Ids q) {m : Message} (hm : m ∈ q.messages) :
    q.messages.find? (fun a => a.id = m.id) = some m := by
  have hnodup : (q.messages.map Message.id).Nodup :=
    List.pairwise_map.2 (h.sorted.imp fun hlt => Nat.ne_of_lt hlt)
  cases hf : q.messages.find? (fun a => a.id = m.id) with
  | none => exact absurd (decide_eq_true rfl) (List.find?_eq_none.1 hf m hm)
  | some a =>
    have ha := List.mem_of_find?_eq_some hf
    have hid := of_decide_eq_true (List.find?_some (p := fun a : Message => a.id = m.id) hf)
    rw [List.inj_on_of_nodup_map hnodup ha hm hid]

end Ids

/-! ## What the operations do to the messages that wait -/

namespace Queue

variable (q : Queue)

theorem waiting_finish (id : Nat) (status : MessageStatus) (reason : Option String)
    (hs : status ≠ .queued) :
    (q.finish id status reason).waiting = q.waiting.filter fun m => !decide (m.id = id) := by
  unfold finish waiting
  generalize q.messages = ms
  induction ms with
  | nil => rfl
  | cons m ms ih =>
    rw [List.map_cons, List.filter_cons, List.filter_cons, ih]
    by_cases hid : m.id = id
    · have hnot : (finishPatch q.now status reason m).isQueued = false := decide_eq_false hs
      rw [if_pos hid, hnot]
      by_cases hq : m.isQueued = true
      · rw [if_pos hq, List.filter_cons, decide_eq_true hid]
        rfl
      · rw [if_neg hq]
        rfl
    · rw [if_neg hid]
      by_cases hq : m.isQueued = true
      · rw [if_pos hq, if_pos hq, List.filter_cons, decide_eq_false hid]
        rfl
      · rw [if_neg hq, if_neg hq]

theorem waiting_expire :
    q.expire.waiting = q.waiting.filter fun m => !decide (m.expiresAt ≤ q.now) := by
  unfold expire waiting
  simp only []
  generalize q.messages = ms
  induction ms with
  | nil => rfl
  | cons m ms ih =>
    rw [List.map_cons, List.filter_cons, List.filter_cons, ih]
    by_cases hq : m.isQueued = true
    · rw [if_pos hq, List.filter_cons]
      by_cases ho : m.expiresAt ≤ q.now
      · have hover : q.isOver m = true := by rw [isOver, hq, decide_eq_true ho]; rfl
        have hnot : ∀ reason, (finishPatch q.now .expired reason m).isQueued = false :=
          fun _ => rfl
        rw [if_pos hover, hnot, decide_eq_true ho]
        rfl
      · have hover : ¬ q.isOver m = true := by rw [isOver, hq, decide_eq_false ho]; decide
        rw [if_neg hover, if_pos hq, decide_eq_false ho]
        rfl
    · have hover : ¬ q.isOver m = true := by rw [isOver, Bool.eq_false_iff.2 hq]; simp
      rw [if_neg hover, if_neg hq, if_neg hq]

theorem log_expire :
    q.expire.log = q.log ++
      (q.waiting.filter fun m => decide (m.expiresAt ≤ q.now)).map fun m => Mark.left m.id := by
  have hover : q.messages.filter q.isOver =
      q.waiting.filter fun m => decide (m.expiresAt ≤ q.now) := by
    rw [waiting, List.filter_filter]
    refine List.filter_congr fun m _ => ?_
    rw [isOver, Bool.and_comm]
  rw [← hover]
  rfl

theorem waiting_prune : q.prune.waiting = q.waiting := by
  unfold prune waiting
  simp only []
  rw [List.filter_filter]
  refine List.filter_congr fun m _ => ?_
  cases m.isQueued <;> simp

/-- What `firsts` picks of messages in the order of their ids. -/
theorem firsts_spec (ms : List Message) (seen : List Nat)
    (hs : ms.Pairwise fun a b => a.id < b.id) :
    (∀ m ∈ firsts seen ms, m ∈ ms ∧ m.targetSessionId ∉ seen ∧
      ∀ m' ∈ ms, m'.targetSessionId = m.targetSessionId → m.id ≤ m'.id) ∧
    (firsts seen ms).Pairwise fun a b => a.targetSessionId ≠ b.targetSessionId := by
  induction ms generalizing seen with
  | nil => exact ⟨fun _ hm => absurd hm List.not_mem_nil, List.Pairwise.nil⟩
  | cons a ms ih =>
    obtain ⟨ha, hs⟩ := List.pairwise_cons.1 hs
    rw [firsts]
    split
    case isTrue hseen =>
      obtain ⟨hmem, hpair⟩ := ih seen hs
      refine ⟨fun m hm => ?_, hpair⟩
      obtain ⟨hin, hnot, hmin⟩ := hmem m hm
      refine ⟨List.mem_cons_of_mem _ hin, hnot, fun m' hm' ht => ?_⟩
      rcases List.mem_cons.1 hm' with rfl | hm'
      · exact absurd hseen (ht ▸ hnot)
      · exact hmin m' hm' ht
    case isFalse hseen =>
      obtain ⟨hmem, hpair⟩ := ih (a.targetSessionId :: seen) hs
      refine ⟨fun m hm => ?_, List.pairwise_cons.2 ⟨fun m hm ht => ?_, hpair⟩⟩
      · rcases List.mem_cons.1 hm with rfl | hm
        · refine ⟨List.mem_cons_self, hseen, fun m' hm' _ => ?_⟩
          rcases List.mem_cons.1 hm' with rfl | hm'
          · exact Nat.le_refl _
          · exact Nat.le_of_lt (ha m' hm')
        · obtain ⟨hin, hnot, hmin⟩ := hmem m hm
          refine ⟨List.mem_cons_of_mem _ hin, fun h => hnot (List.mem_cons_of_mem _ h),
            fun m' hm' ht => ?_⟩
          rcases List.mem_cons.1 hm' with rfl | hm'
          · exact absurd List.mem_cons_self (ht ▸ hnot)
          · exact hmin m' hm' ht
      · obtain ⟨-, hnot, -⟩ := hmem m hm
        exact hnot (ht ▸ List.mem_cons_self)

end Queue

/-! ## The pass in flight -/

/-- The heads are waiting messages, each the oldest of a target of its own. -/
def Heads (q : Queue) (hs : List Nat) : Prop :=
  ∃ ms : List Message, ms.map Message.id = hs ∧
    (∀ m ∈ ms, m ∈ q.waiting ∧
      ∀ m' ∈ q.waiting, m'.targetSessionId = m.targetSessionId → m.id ≤ m'.id) ∧
    ms.Pairwise fun a b => a.targetSessionId ≠ b.targetSessionId

/-- Every call of `deliver` has been answered. -/
def Calm (q : Queue) : Prop := q.log.countP Mark.isCalled = q.log.countP Mark.isReturned

/-- What the pass in flight knows. -/
def PassOk (q : Queue) : Prop :=
  match q.pass with
  | none | some .ended => Calm q
  | some (.between hs) => Calm q ∧ Heads q hs
  | some (.checking id hs) => Calm q ∧ Heads q (id :: hs)
  | some (.delivering id hs) =>
    q.log.countP Mark.isCalled = q.log.countP Mark.isReturned + 1 ∧ Heads q (id :: hs)

/-- The invariant of the queue. -/
structure Inv (q : Queue) : Prop where
  core : Core q
  ids : Ids q
  pass : PassOk q

section Pass

variable {q q' : Queue}

theorem Heads.tail {id : Nat} {hs : List Nat} (h : Heads q (id :: hs)) : Heads q hs := by
  obtain ⟨ms, hids, hmem, hpair⟩ := h
  cases ms with
  | nil => cases hids
  | cons m ms =>
    exact ⟨ms, (List.cons.inj hids).2, fun a ha => hmem a (List.mem_cons_of_mem _ ha),
      (List.pairwise_cons.1 hpair).2⟩

/-- The first head, as a message. -/
theorem Heads.head {id : Nat} {hs : List Nat} (h : Heads q (id :: hs)) :
    ∃ m ∈ q.waiting, m.id = id ∧
      ∀ m' ∈ q.waiting, m'.targetSessionId = m.targetSessionId → m.id ≤ m'.id := by
  obtain ⟨ms, hids, hmem, -⟩ := h
  cases ms with
  | nil => cases hids
  | cons m ms =>
    obtain ⟨hm, hmin⟩ := hmem m List.mem_cons_self
    exact ⟨m, hm, (List.cons.inj hids).1, hmin⟩

/-- The heads stay what they are while other messages join or leave the queue. -/
theorem Heads.mono {hs : List Nat} (h : Heads q hs)
    (hkeep : ∀ m ∈ q.waiting, m.id ∈ hs → m ∈ q'.waiting)
    (hmin : ∀ m' ∈ q'.waiting, m' ∈ q.waiting ∨ ∀ m ∈ q.waiting, m.id ≤ m'.id) :
    Heads q' hs := by
  obtain ⟨ms, hids, hmem, hpair⟩ := h
  refine ⟨ms, hids, fun m hm => ?_, hpair⟩
  obtain ⟨hw, hold⟩ := hmem m hm
  have hid : m.id ∈ hs := hids ▸ List.mem_map_of_mem hm
  refine ⟨hkeep m hw hid, fun m' hm' ht => ?_⟩
  rcases hmin m' hm' with hm' | hm'
  · exact hold m' hm' ht
  · exact hm' m hw

/-- When the first head leaves the queue the others stay its heads. -/
theorem Heads.drop {id : Nat} {hs : List Nat} (h : Heads q (id :: hs)) (hc : Core q)
    (hw : q'.waiting = q.waiting.filter fun m => !decide (m.id = id)) : Heads q' hs := by
  refine h.tail.mono (fun m hm hid => ?_) fun m' hm' => ?_
  · obtain ⟨ms, hids, hmem, hpair⟩ := h
    cases ms with
    | nil => cases hids
    | cons a ms =>
      obtain ⟨rfl, rfl⟩ := List.cons.inj hids
      obtain ⟨b, hb, hbm⟩ := List.mem_map.1 hid
      obtain rfl := hc.inj (hmem b (List.mem_cons_of_mem _ hb)).1 hm hbm
      have hne : b.id ≠ a.id := by
        intro heq
        have hba := hc.inj hm (hmem a List.mem_cons_self).1 heq
        exact (List.pairwise_cons.1 hpair).1 b hb (by rw [hba])
      rw [hw, List.mem_filter]
      exact ⟨hm, by simpa using hne⟩
  · rw [hw] at hm'
    exact .inl (List.mem_filter.1 hm').1

/-- The messages that leave the queue do not answer for `deliver`. -/
theorem Calm.left {l : List Mark} (h : Calm q) (hl : q'.log = q.log ++ l)
    (hleft : ∀ a ∈ l, ∃ id, a = .left id) : Calm q' := by
  have hcalled : l.countP Mark.isCalled = 0 := by
    refine List.countP_eq_zero.2 fun a ha => ?_
    obtain ⟨id, rfl⟩ := hleft a ha
    exact Bool.false_ne_true
  have hreturned : l.countP Mark.isReturned = 0 := by
    refine List.countP_eq_zero.2 fun a ha => ?_
    obtain ⟨id, rfl⟩ := hleft a ha
    exact Bool.false_ne_true
  unfold Calm at *
  rw [hl, List.countP_append, List.countP_append, hcalled, hreturned, h]

/-- A head leaves the queue for good. -/
theorem Core.finish {id : Nat} {hs : List Nat} (h : Core q) (hh : Heads q (id :: hs))
    (status : MessageStatus) (reason : Option String) (hstatus : status ≠ .queued) :
    Core (q.finish id status reason) := by
  obtain ⟨m, hm, rfl, -⟩ := hh.head
  refine h.drop (fun a => decide (a.id = m.id)) (q.waiting_finish _ _ _ hstatus) ?_ rfl
    fun _ => rfl
  have honly : q.waiting.filter (fun a => decide (a.id = m.id)) = [m] := by
    have hnodup : q.waiting.Nodup := h.nodup_ids.of_map
    refine List.perm_singleton.1 ((List.perm_ext_iff_of_nodup (hnodup.filter _)
      (List.nodup_singleton m)).2 fun a => ?_)
    rw [List.mem_filter, List.mem_singleton, decide_eq_true_iff]
    constructor
    · rintro ⟨ha, hid⟩
      exact h.inj ha hm hid
    · rintro rfl
      exact ⟨hm, rfl⟩
  rw [honly]
  rfl

theorem Ids.finish (h : Ids q) (id : Nat) (status : MessageStatus) (reason : Option String) :
    Ids (q.finish id status reason) := by
  refine h.map (fun m => if m.id = id then Queue.finishPatch q.now status reason m else m) ?_ rfl
    rfl
  intro m
  show (if m.id = id then _ else m).id = m.id
  split <;> rfl

/-! ## The steps -/

/-- The next attempt, or the end of the run. -/
theorem Inv.attemptNext {hs : List Nat} (hc : Core q) (hi : Ids q) (hn : Calm q)
    (hh : Heads q hs) : Inv (q.attemptNext hs) := by
  cases hs with
  | nil =>
    refine ⟨hc.same rfl rfl rfl fun hne => ?_, ⟨hi.sorted, hi.next⟩, hn⟩
    obtain ⟨m, hm⟩ := List.exists_mem_of_ne_nil _ hne
    obtain ⟨hm, hq⟩ := List.mem_filter.1 hm
    have hany : q.messages.any Message.isQueued = true := List.any_eq_true.2 ⟨m, hm, hq⟩
    show (q.timer && q.messages.any Message.isQueued) = q.timer
    rw [hany, Bool.and_true]
  | cons id hs => exact ⟨hc.same rfl rfl rfl fun _ => rfl, ⟨hi.sorted, hi.next⟩, hn, hh⟩

theorem Inv.tick (h : Inv q) : Inv q.tick := by
  rw [Queue.tick]
  split
  case h_1 => exact h
  case h_2 hp =>
    have hn : Calm q := by
      have hpass := h.pass
      unfold PassOk at hpass
      rw [hp] at hpass
      exact hpass
    have hprune : Core q.prune := h.core.same q.waiting_prune rfl rfl fun _ => rfl
    have hexpire : Core q.prune.expire :=
      hprune.drop _ q.prune.waiting_expire q.prune.log_expire rfl fun _ => rfl
    refine Inv.attemptNext hexpire ?_ ?_ ?_
    · have hids : Ids q.prune := h.ids.filter _ rfl rfl
      refine hids.map (fun m => if q.prune.isOver m then _ else m) (fun m => ?_) rfl rfl
      show (if q.prune.isOver m then _ else m).id = m.id
      split <;> rfl
    · refine Calm.left (q := q.prune) hn q.prune.log_expire fun a ha => ?_
      obtain ⟨m, -, rfl⟩ := List.mem_map.1 ha
      exact ⟨m.id, rfl⟩
    · obtain ⟨hmem, hpair⟩ := Queue.firsts_spec q.prune.expire.waiting [] hexpire.sorted
      refine ⟨_, rfl, fun m hm => ?_, hpair⟩
      obtain ⟨hin, -, hmin⟩ := hmem m hm
      exact ⟨hin, hmin⟩

/-- A head is refused, and the pass goes on. -/
theorem Inv.refuse {id : Nat} {hs : List Nat} (h : Inv q) (hn : Calm q)
    (hh : Heads q (id :: hs)) (reason : Option String) :
    Inv { q.finish id .refused reason with pass := some (.between hs) } := by
  have hstatus : MessageStatus.refused ≠ .queued := by decide
  have hc := h.core.finish hh .refused reason hstatus
  have hi := h.ids.finish id .refused reason
  refine ⟨hc.same rfl rfl rfl fun _ => rfl, ⟨hi.sorted, hi.next⟩, ?_, ?_⟩
  · have hcalm : Calm (q.finish id .refused reason) := hn.left rfl fun a ha =>
      ⟨id, List.mem_singleton.1 ha⟩
    exact hcalm
  · exact hh.drop h.core (q.waiting_finish _ _ _ hstatus)

theorem Inv.checked {id : Nat} {hs : List Nat} (h : Inv q) (hp : q.pass = some (.checking id hs))
    (answer : Except String TargetReadiness) : Inv (q.checked id hs answer) := by
  obtain ⟨hn, hh⟩ : Calm q ∧ Heads q (id :: hs) := by
    have hpass := h.pass
    unfold PassOk at hpass
    rw [hp] at hpass
    exact hpass
  rw [Queue.checked.eq_def]
  split
  case h_1 message => exact h.refuse hn hh _
  case h_2 =>
    exact ⟨h.core.same rfl rfl rfl fun _ => rfl, ⟨h.ids.sorted, h.ids.next⟩, hn, hh.tail⟩
  case h_3 reason => exact h.refuse hn hh _
  case h_4 =>
    obtain ⟨m, hm, rfl, hmin⟩ := hh.head
    rw [h.ids.find (List.mem_filter.1 hm).1]
    refine ⟨h.core.call hm hmin rfl rfl rfl rfl, ⟨h.ids.sorted, h.ids.next⟩, ?_, hh⟩
    show (q.log ++ [Mark.called m.id m.targetSessionId]).countP Mark.isCalled =
      (q.log ++ [Mark.called m.id m.targetSessionId]).countP Mark.isReturned + 1
    rw [List.countP_append, List.countP_append, hn]
    rfl

/-- Once `deliver` has answered the pass goes on, whatever was settled. -/
theorem Inv.answer {id : Nat} {hs : List Nat} {settled : Queue} {ok : Bool} {l : List Mark}
    (hc : Core settled) (hi : Ids settled)
    (hn : q.log.countP Mark.isCalled = q.log.countP Mark.isReturned + 1)
    (hl : settled.log = q.log ++ l) (hleft : ∀ a ∈ l, ∃ id, a = .left id)
    (hok : ok = true → .left id ∈ settled.log) (hh : Heads settled hs) :
    Inv { settled with
      pass := some (.between hs)
      log := settled.log ++ [Mark.returned id ok] } := by
  refine ⟨hc.answer hok rfl rfl rfl rfl, ⟨hi.sorted, hi.next⟩, ?_, hh⟩
  have hcalled : l.countP Mark.isCalled = 0 := by
    refine List.countP_eq_zero.2 fun a ha => ?_
    obtain ⟨id, rfl⟩ := hleft a ha
    exact Bool.false_ne_true
  have hreturned : l.countP Mark.isReturned = 0 := by
    refine List.countP_eq_zero.2 fun a ha => ?_
    obtain ⟨id, rfl⟩ := hleft a ha
    exact Bool.false_ne_true
  show (settled.log ++ [Mark.returned id ok]).countP Mark.isCalled =
    (settled.log ++ [Mark.returned id ok]).countP Mark.isReturned
  rw [hl]
  simp only [List.countP_append, hcalled, hreturned, hn]
  rfl

theorem Inv.delivered {id : Nat} {hs : List Nat} (h : Inv q)
    (hp : q.pass = some (.delivering id hs)) (answer : Except String DeliverOutcome) :
    Inv (q.delivered id hs answer) := by
  obtain ⟨hn, hh⟩ : q.log.countP Mark.isCalled = q.log.countP Mark.isReturned + 1 ∧
      Heads q (id :: hs) := by
    have hpass := h.pass
    unfold PassOk at hpass
    rw [hp] at hpass
    exact hpass
  have hany : q.messages.any (fun m => m.id = id && m.isQueued) = true := by
    obtain ⟨m, hm, rfl, -⟩ := hh.head
    obtain ⟨hm, hq⟩ := List.mem_filter.1 hm
    refine List.any_eq_true.2 ⟨m, hm, ?_⟩
    rw [hq, decide_eq_true rfl]
    rfl
  have hfinish : ∀ status reason ok, status ≠ .queued →
      Inv { q.finish id status reason with
        pass := some (.between hs)
        log := (q.finish id status reason).log ++ [Mark.returned id ok] } := by
    intro status reason ok hstatus
    refine Inv.answer (h.core.finish hh status reason hstatus) (h.ids.finish id status reason) hn
      rfl (fun a ha => ⟨id, List.mem_singleton.1 ha⟩) ?_
      (hh.drop h.core (q.waiting_finish _ _ _ hstatus))
    intro _
    exact List.mem_append_right _ List.mem_cons_self
  have hretry : ∀ reason, Inv { q with
      pass := some (.between hs)
      log := q.log ++ [Mark.returned id (decide (DeliverOutcome.failed reason true = .ok))] } := by
    intro reason
    refine Inv.answer (l := []) h.core h.ids hn (List.append_nil _).symm ?_ ?_ hh.tail
    · intro a ha
      cases ha
    · intro hok
      cases hok
  cases answer with
  | error message =>
    simp only [Queue.delivered, hany]
    exact hfinish .refused (some message) _ (by decide)
  | ok outcome =>
    simp only [Queue.delivered, hany]
    cases outcome with
    | ok => exact hfinish .delivered none _ (by decide)
    | failed reason retry =>
      cases retry with
      | false => exact hfinish .refused (some reason) _ (by decide)
      | true => exact hretry reason

/-- The messages that wait for a target. -/
theorem Queue.queuedFor_eq (q : Queue) (target : Nat) :
    q.queuedFor target = q.waiting.filter fun m => m.targetSessionId = target := by
  rw [queuedFor, waiting, List.filter_filter]
  refine List.filter_congr fun m _ => ?_
  rw [Bool.and_comm]

theorem Inv.enqueue (h : Inv q) (fromSessionId : Nat) (fromLabel : String)
    (targetSessionId : Nat) (text : String) (ttlMs : Nat) :
    Inv (q.enqueue fromSessionId fromLabel targetSessionId text ttlMs) := by
  rw [Queue.enqueue]
  split
  case isTrue => exact h
  case isFalse hroom =>
    rw [Queue.queuedFor_eq] at hroom
    refine Inv.tick ?_
    set m : Message :=
      { id := q.nextId, fromSessionId, fromLabel, targetSessionId, text, createdAt := q.now
        expiresAt := q.now + min (max ttlMs 1000) maxMessageTtlMs } with hm
    have hw : (q.messages ++ [m]).filter Message.isQueued = q.waiting ++ [m] := by
      rw [List.filter_append]
      rfl
    refine ⟨h.core.add (m := m) rfl (Nat.not_le.1 hroom) hw rfl rfl rfl, h.ids.add rfl rfl rfl, ?_⟩
    have hheads : ∀ hs q', Heads q hs → q'.waiting = q.waiting ++ [m] → Heads q' hs := by
      intro hs q' hh hw
      refine hh.mono (fun a ha _ => ?_) fun a ha => ?_
      · rw [hw]
        exact List.mem_append_left _ ha
      · rw [hw] at ha
        rcases List.mem_append.1 ha with ha | ha
        · exact .inl ha
        · obtain rfl := List.mem_singleton.1 ha
          exact .inr fun b hb => Nat.le_of_lt (h.core.next _ _ (h.core.waits b hb).1)
    have hcalled : (q.log ++ [Mark.enqueued q.nextId targetSessionId]).countP Mark.isCalled =
        q.log.countP Mark.isCalled := by
      rw [List.countP_append]
      rfl
    have hreturned : (q.log ++ [Mark.enqueued q.nextId targetSessionId]).countP Mark.isReturned =
        q.log.countP Mark.isReturned := by
      rw [List.countP_append]
      rfl
    have hpass := h.pass
    unfold PassOk Calm at hpass ⊢
    simp only []
    rw [hcalled, hreturned]
    split <;> rename_i hp <;> rw [hp] at hpass
    · exact hpass
    · exact hpass
    · exact ⟨hpass.1, hheads _ _ hpass.2 hw⟩
    · exact ⟨hpass.1, hheads _ _ hpass.2 hw⟩
    · exact ⟨hpass.1, hheads _ _ hpass.2 hw⟩

end Pass

/-! ## Runs -/

/-- A step keeps the invariant. -/
theorem step_inv {q q' : Queue} {e : Event} (h : Inv q) (hs : step q e = some q') : Inv q' := by
  cases e with
  | enqueue fromSessionId fromLabel targetSessionId text ttlMs =>
    cases hs
    exact h.enqueue _ _ _ _ _
  | tick =>
    cases hs
    exact h.tick
  | timer =>
    rw [step] at hs
    split at hs
    · cases hs
      exact h.tick
    · cases hs
  | proceed =>
    rw [step] at hs
    split at hs
    case h_1 heads hp =>
      cases hs
      obtain ⟨hn, hh⟩ : Calm q ∧ Heads q heads := by
        have hpass := h.pass
        unfold PassOk at hpass
        rw [hp] at hpass
        exact hpass
      exact Inv.attemptNext h.core h.ids hn hh
    case h_2 => cases hs
  | checked answer =>
    rw [step] at hs
    split at hs
    case h_1 id heads hp =>
      cases hs
      exact h.checked hp answer
    case h_2 => cases hs
  | delivered answer =>
    rw [step] at hs
    split at hs
    case h_1 id heads hp =>
      cases hs
      exact h.delivered hp answer
    case h_2 => cases hs
  | settle =>
    rw [step] at hs
    split at hs
    case isTrue hp =>
      cases hs
      refine ⟨h.core.same rfl rfl rfl fun _ => rfl, ⟨h.ids.sorted, h.ids.next⟩, ?_⟩
      have hpass := h.pass
      unfold PassOk at hpass
      rw [hp] at hpass
      exact hpass
    case isFalse => cases hs
  | advance ms =>
    cases hs
    exact ⟨h.core.same rfl rfl rfl fun _ => rfl, ⟨h.ids.sorted, h.ids.next⟩, h.pass⟩

/-- The invariant holds of an empty queue. -/
theorem Inv.empty : Inv {} := by
  refine ⟨?_, ⟨List.Pairwise.nil, by simp⟩, rfl⟩
  constructor <;> simp [Queue.waiting]

/-- The invariant makes the queue orderly. -/
theorem Inv.orderly {q : Queue} (h : Inv q) : Orderly q where
  numbered := h.core.numbered
  leftOnce := h.core.leftOnce
  left := by
    intro id target he
    constructor
    · rintro hid ⟨m, hm, rfl, hq⟩
      exact (h.core.waits m (List.mem_filter.2 ⟨hm, hq⟩)).2 hid
    · intro hnot
      by_contra hid
      obtain ⟨m, hm, hmid⟩ := h.core.gone id target he hid
      obtain ⟨hm, hq⟩ := List.mem_filter.1 hm
      exact hnot ⟨m, hm, hmid, hq⟩
  bounded := by
    intro target
    rw [Queue.queuedFor_eq]
    exact h.core.bounded target
  called := fun id target hid => (h.core.called id target hid).1
  inOrder := h.core.inOrder
  oneAtOnce := by
    have hpass := h.pass
    unfold PassOk Calm at hpass
    split at hpass <;> omega
  final := h.core.final
  armed := by
    rintro ⟨m, hm, hq⟩
    exact h.core.armed (List.ne_nil_of_mem (List.mem_filter.2 ⟨hm, hq⟩))

/-- A pass that begins leaves no message queued whose time is over. -/
theorem tick_expires {q : Queue} (hp : q.pass = none) :
    ∀ m ∈ q.tick.messages, m.isQueued → q.now < m.expiresAt := by
  intro m hm hq
  have hwaits : m ∈ q.prune.expire.waiting := by
    rw [Queue.tick, hp] at hm
    refine List.mem_filter.2 ⟨?_, hq⟩
    simp only [] at hm
    unfold Queue.attemptNext at hm
    split at hm <;> exact hm
  rw [Queue.waiting_expire, List.mem_filter] at hwaits
  have hlate : ¬ m.expiresAt ≤ q.prune.now := by simpa only [Bool.not_eq_true',
    decide_eq_false_iff_not] using hwaits.2
  exact Nat.not_le.1 hlate

/-- **The queue keeps its order.** In every state of every run a message has left
`queued` at most once, and exactly when it no longer waits; no target has more than
`MAX_QUEUED_PER_TARGET` messages; the calls of `deliver` are in the order of the enqueues
for each target, one at a time, and none follows one that returned ok; and the timer is
armed while a message is queued. A pass that begins ends every message whose time is
over. -/
theorem queue_orderly (events : List Event) :
    Run.Along step (fun q => Orderly q ∧
      (q.pass = none → ∀ m ∈ q.tick.messages, m.isQueued → q.now < m.expiresAt)) {} events :=
  Run.along_of_invariant (I := Inv) (C := fun _ _ => True) (fun _ _ _ h _ hs => step_inv h hs)
    (fun _ h => ⟨h.orderly, fun hp => tick_expires hp⟩) Inv.empty
    (Run.Meets.of_forall (fun _ _ => trivial) _ _)

end MessageQueue
end Mullion
