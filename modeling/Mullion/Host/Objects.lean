import Mullion.Host.Fanout
import Mullion.Lib.Slots

/-!
# Objects and sockets of the streams to the hosts

Each operation on an object or a socket keeps them together.

* `Fit` — the fields of one object, `Core` — objects, sockets and the map;
* `Core.closeFanout`, `Core.scheduleReconnect`, `Core.openSocket` — the functions of the source;
* `Core.onOpen`, `Core.onFrame`, `Core.onClose` — the listeners.
-/

namespace Mullion
namespace Fanout

open Slots
open State (Reading)

variable {Frame Item : Type} {m : Stream Frame Item} {s t : State Frame Item} {i j k : ℕ}

/-! ## The invariant -/

/-- The fields of one object fit together. -/
structure Fit (m : Stream Frame Item) (f : HostFanout) : Prop where
  quiet : f.stopped = true → f.socket = none ∧ f.reconnectTimer = none
  single : f.socket ≠ none → f.reconnectTimer = none
  patient : ∀ delay, f.reconnectTimer = some delay →
    delay ≤ 30000 ∨ m.probes = true ∧ delay = UNSUPPORTED_RETRY_MS
  probed : f.unsupported = true → m.probes = true

/-- Nothing that comes in on the socket is handed on any more. -/
def Dead (s : State Frame Item) (w : Socket Frame Item) : Prop :=
  w.readyState = .closed ∨ ∃ f, s.objects[w.fanout]? = some f ∧ f.stopped = true

/-- What was handed on from the sockets, with the host of each. -/
def State.ledger (s : State Frame Item) : List (ℕ × List Item) :=
  s.sockets.map fun w => (w.hostId, w.served)

structure Core (m : Stream Frame Item) (s : State Frame Item) : Prop where
  fit : ∀ (i : ℕ) (f : HostFanout), s.objects[i]? = some f → Fit m f
  held : ∀ (i : ℕ) (f : HostFanout) (k : ℕ), s.objects[i]? = some f → f.socket = some k →
    ∃ w, s.sockets[k]? = some w ∧ w.fanout = i ∧ w.readyState ≠ .closed
  owned : ∀ (k : ℕ) (w : Socket Frame Item), s.sockets[k]? = some w →
    ∃ f, s.objects[w.fanout]? = some f ∧ f.hostId = w.hostId ∧
      (w.readyState = .closed ∨ f.socket = some k ∨ f.stopped = true ∧ w.readyState = .closing)
  listed : ∀ (i : ℕ) (f : HostFanout), s.objects[i]? = some f → f.stopped = false →
    s.fanouts.lookup f.hostId = some i
  agreed : ∀ hostId carried bound, s.app.agentChannels hostId = some carried →
    s.app.boundHosts hostId = some bound → bound = carried
  ordered : ∀ (k k' : ℕ) (w w' : Socket Frame Item), s.sockets[k]? = some w →
    s.sockets[k']? = some w' → k < k' → w.hostId = w'.hostId → Dead s w
  part : ∀ (k : ℕ) (w : Socket Frame Item), s.sockets[k]? = some w →
    w.served <+: w.arrived.filterMap m.read
  whole : ∀ (k : ℕ) (w : Socket Frame Item) (f : HostFanout), s.sockets[k]? = some w →
    s.objects[w.fanout]? = some f → f.stopped = false → w.served = w.arrived.filterMap m.read
  ledger : ∀ hostId, (s.log.filter fun e => e.1 = hostId).map Prod.snd =
    (s.ledger.filter fun e => e.1 = hostId).flatMap Prod.snd

/-- What is handed on does not change with the state of a socket. -/
theorem Core.ledger_of (hs : Core m s) {g : Socket Frame Item → Socket Frame Item}
    (hsockets : t.sockets = s.sockets.modify k g) (hlog : t.log = s.log)
    (hg : ∀ w, (g w).hostId = w.hostId ∧ (g w).served = w.served) (hostId : ℕ) :
    (t.log.filter fun e => e.1 = hostId).map Prod.snd =
      (t.ledger.filter fun e => e.1 = hostId).flatMap Prod.snd := by
  have hledger : t.ledger = s.ledger := by
    rw [State.ledger, hsockets]
    exact map_modify_of_eq (fun w => by rw [(hg w).1, (hg w).2]) _ _
  rw [hlog, hledger]
  exact hs.ledger hostId

/-! ## Objects -/

/-- An assignment to fields other than `hostId`, `stopped` and `socket`. -/
theorem Core.modify (hs : Core m s) {g : HostFanout → HostFanout}
    (hg : ∀ f, (g f).hostId = f.hostId ∧ (g f).stopped = f.stopped ∧ (g f).socket = f.socket)
    (hfit : ∀ f, s.objects[i]? = some f → Fit m (g f)) : Core m (s.modify i g) := by
  have back : ∀ (j : ℕ) (f : HostFanout), (s.modify i g).objects[j]? = some f →
      ∃ f₀, s.objects[j]? = some f₀ ∧ f.hostId = f₀.hostId ∧ f.stopped = f₀.stopped ∧
        f.socket = f₀.socket := by
    intro j f h
    obtain ⟨f₀, h₀, rfl⟩ := getElem?_modify_some.1 h
    refine ⟨f₀, h₀, ?_⟩
    split
    · exact hg f₀
    · exact ⟨rfl, rfl, rfl⟩
  have forth : ∀ (j : ℕ) (f₀ : HostFanout), s.objects[j]? = some f₀ →
      ∃ f, (s.modify i g).objects[j]? = some f ∧ f.hostId = f₀.hostId ∧
        f.stopped = f₀.stopped ∧ f.socket = f₀.socket := by
    intro j f₀ h₀
    refine ⟨_, getElem?_modify_some.2 ⟨f₀, h₀, rfl⟩, ?_⟩
    split
    · exact hg f₀
    · exact ⟨rfl, rfl, rfl⟩
  refine { hs with fit := ?_, held := ?_, owned := ?_, listed := ?_, ordered := ?_, whole := ?_ }
  · intro j f h
    obtain ⟨f₀, h₀, rfl⟩ := getElem?_modify_some.1 h
    split
    · next heq =>
      rw [← heq] at h₀
      exact hfit f₀ h₀
    · exact hs.fit j f₀ h₀
  · intro j f k h hk
    obtain ⟨f₀, h₀, -, -, hsocket⟩ := back j f h
    exact hs.held j f₀ k h₀ (hsocket ▸ hk)
  · intro k w hw
    obtain ⟨f₀, h₀, hhost, hcases⟩ := hs.owned k w hw
    obtain ⟨f, hf, hhost', hstopped, hsocket⟩ := forth _ f₀ h₀
    rw [← hstopped, ← hsocket] at hcases
    exact ⟨f, hf, hhost'.trans hhost, hcases⟩
  · intro j f h hstopped
    obtain ⟨f₀, h₀, hhost, hstopped₀, -⟩ := back j f h
    rw [hhost]
    exact hs.listed j f₀ h₀ (hstopped₀ ▸ hstopped)
  · intro k k' w w' hw hw' hlt hhost
    rcases hs.ordered k k' w w' hw hw' hlt hhost with hclosed | ⟨f₀, h₀, hstopped⟩
    · exact .inl hclosed
    · obtain ⟨f, hf, -, hstopped', -⟩ := forth _ f₀ h₀
      exact .inr ⟨f, hf, hstopped'.trans hstopped⟩
  · intro k w f hw hf hstopped
    obtain ⟨f₀, h₀, -, hstopped₀, -⟩ := back _ f hf
    exact hs.whole k w f₀ hw h₀ (hstopped₀ ▸ hstopped)

/-! ## Sockets -/

/-- A change of `readyState` that does not go back. -/
theorem Core.moveSocket (hs : Core m s) {g : Socket Frame Item → Socket Frame Item}
    (hg : ∀ w, (g w).fanout = w.fanout ∧ (g w).hostId = w.hostId ∧ (g w).arrived = w.arrived ∧
      (g w).served = w.served)
    (hclosed : ∀ w, s.sockets[k]? = some w →
      ((g w).readyState = .closed ↔ w.readyState = .closed))
    (hclosing : ∀ w, s.sockets[k]? = some w → w.readyState = .closing →
      (g w).readyState = .closing) :
    Core m { s with sockets := s.sockets.modify k g } := by
  have back : ∀ (k' : ℕ) (w : Socket Frame Item), (s.sockets.modify k g)[k']? = some w →
      ∃ w₀, s.sockets[k']? = some w₀ ∧ w.fanout = w₀.fanout ∧ w.hostId = w₀.hostId ∧
        w.arrived = w₀.arrived ∧ w.served = w₀.served ∧
        (w.readyState = .closed ↔ w₀.readyState = .closed) ∧
        (w₀.readyState = .closing → w.readyState = .closing) := by
    intro k' w h
    obtain ⟨w₀, h₀, rfl⟩ := getElem?_modify_some.1 h
    refine ⟨w₀, h₀, ?_⟩
    split
    · next heq =>
      subst heq
      obtain ⟨h1, h2, h3, h4⟩ := hg w₀
      exact ⟨h1, h2, h3, h4, hclosed w₀ h₀, hclosing w₀ h₀⟩
    · exact ⟨rfl, rfl, rfl, rfl, .rfl, id⟩
  refine { hs with held := ?_, owned := ?_, ordered := ?_, part := ?_, whole := ?_, ledger := ?_ }
  · intro i f k' hf hk'
    obtain ⟨w₀, h₀, hfanout, hopen⟩ := hs.held i f k' hf hk'
    refine ⟨_, getElem?_modify_some.2 ⟨w₀, h₀, rfl⟩, ?_⟩
    split
    · next heq =>
      subst heq
      exact ⟨(hg w₀).1.trans hfanout, fun h => hopen ((hclosed w₀ h₀).1 h)⟩
    · exact ⟨hfanout, hopen⟩
  · intro k' w hw
    obtain ⟨w₀, h₀, hfanout, hhost, -, -, hcl, hcg⟩ := back k' w hw
    obtain ⟨f, hf, hhost', hcases⟩ := hs.owned k' w₀ h₀
    rw [hfanout, hhost, hcl]
    exact ⟨f, hf, hhost', hcases.imp id (.imp id (.imp id hcg))⟩
  · intro k₁ k₂ w₁ w₂ hw₁ hw₂ hlt heq
    obtain ⟨v₁, hv₁, hfanout, hhost₁, -, -, hcl, -⟩ := back k₁ w₁ hw₁
    obtain ⟨v₂, hv₂, -, hhost₂, -⟩ := back k₂ w₂ hw₂
    rw [hhost₁, hhost₂] at heq
    rcases hs.ordered k₁ k₂ v₁ v₂ hv₁ hv₂ hlt heq with h | h
    · exact .inl (hcl.2 h)
    · exact .inr (hfanout ▸ h)
  · intro k' w hw
    obtain ⟨w₀, h₀, -, -, harrived, hserved, -⟩ := back k' w hw
    rw [harrived, hserved]
    exact hs.part k' w₀ h₀
  · intro k' w f hw hf hstopped
    obtain ⟨w₀, h₀, hfanout, -, harrived, hserved, -⟩ := back k' w hw
    rw [harrived, hserved]
    exact hs.whole k' w₀ f h₀ (hfanout ▸ hf) hstopped
  · exact hs.ledger_of rfl rfl fun w => ⟨(hg w).2.1, (hg w).2.2.2⟩

theorem Core.closeSocket (hs : Core m s) (k : ℕ) : Core m (s.closeSocket k) := by
  refine hs.moveSocket (fun w => ?_) (fun w _ => ?_) (fun w _ hw => ?_)
  · split <;> exact ⟨rfl, rfl, rfl, rfl⟩
  · split
    · exact .rfl
    · next hne => exact ⟨nofun, fun h => absurd h hne⟩
  · split
    · exact hw
    · rfl

/-- An object is closed whose socket was closed before. -/
theorem Core.closeObject (hs : Core m s)
    (hclosing : ∀ (f : HostFanout) (k : ℕ) (w : Socket Frame Item), s.objects[i]? = some f →
      f.socket = some k → s.sockets[k]? = some w → w.readyState = .closing) :
    Core m (s.modify i HostFanout.close) := by
  refine { hs with fit := ?_, held := ?_, owned := ?_, listed := ?_, ordered := ?_, whole := ?_ }
  · intro j f h
    obtain ⟨f₀, h₀, rfl⟩ := getElem?_modify_some.1 h
    have hfit := hs.fit j f₀ h₀
    split
    · exact ⟨fun _ => ⟨rfl, rfl⟩, fun h => absurd rfl h, nofun, hfit.probed⟩
    · exact hfit
  · intro j f k h hk
    obtain ⟨f₀, h₀, rfl⟩ := getElem?_modify_some.1 h
    split at hk
    · cases hk
    · exact hs.held j f₀ k h₀ hk
  · intro k w hw
    obtain ⟨f₀, h₀, hhost, hcases⟩ := hs.owned k w hw
    refine ⟨_, getElem?_modify_some.2 ⟨f₀, h₀, rfl⟩, ?_⟩
    split
    · next heq =>
      refine ⟨hhost, hcases.imp id fun h => .inr ⟨rfl, ?_⟩⟩
      rcases h with hsocket | ⟨-, hclosing'⟩
      · rw [← heq] at h₀
        exact hclosing f₀ k w h₀ hsocket hw
      · exact hclosing'
    · exact ⟨hhost, hcases⟩
  · intro j f h hstopped
    obtain ⟨f₀, h₀, rfl⟩ := getElem?_modify_some.1 h
    split at hstopped
    · cases hstopped
    · next hne =>
      rw [if_neg hne]
      exact hs.listed j f₀ h₀ hstopped
  · intro k k' w w' hw hw' hlt hhost
    rcases hs.ordered k k' w w' hw hw' hlt hhost with hclosed | ⟨f₀, h₀, hstopped⟩
    · exact .inl hclosed
    · refine .inr ⟨_, getElem?_modify_some.2 ⟨f₀, h₀, rfl⟩, ?_⟩
      split
      · rfl
      · exact hstopped
  · intro k w f hw hf hstopped
    obtain ⟨f₀, h₀, rfl⟩ := getElem?_modify_some.1 hf
    split at hstopped
    · cases hstopped
    · exact hs.whole k w f₀ hw h₀ hstopped

/-! ## `closeFanout` -/

/-- What `closeFanout` does to the sockets. -/
def closedSockets (s : State Frame Item) (i : ℕ) : State Frame Item :=
  match (s.objects[i]?).bind HostFanout.socket with
  | none => s
  | some k => s.closeSocket k

theorem closeFanout_eq (s : State Frame Item) (i : ℕ) :
    s.closeFanout i = (closedSockets s i).modify i HostFanout.close := by
  unfold State.closeFanout closedSockets
  cases h : s.objects[i]? with
  | none =>
    have hsame : s.objects.modify i HostFanout.close = s.objects :=
      List.modify_eq_self (List.getElem?_eq_none_iff.1 h)
    rw [Option.bind_none, State.modify, hsame]
  | some f =>
    rw [Option.bind_some]
    dsimp only
    cases f.socket <;> rfl

theorem closeFanout_objects (s : State Frame Item) (i : ℕ) :
    (s.closeFanout i).objects = s.objects.modify i HostFanout.close := by
  rw [closeFanout_eq]
  unfold closedSockets
  split <;> rfl

/-- `closeFanout` writes the objects and the sockets only. -/
theorem closeFanout_frame (s : State Frame Item) (i : ℕ) :
    s.closeFanout i = { s with
      objects := (s.closeFanout i).objects
      sockets := (s.closeFanout i).sockets } := by
  rw [closeFanout_eq]
  unfold closedSockets
  split <;> rfl

theorem Core.closeFanout (hs : Core m s) (i : ℕ) : Core m (s.closeFanout i) := by
  rw [closeFanout_eq]
  unfold closedSockets
  split
  · next hnone =>
    refine hs.closeObject fun f k w hf hk _ => ?_
    rw [hf, Option.bind_some, hk] at hnone
    cases hnone
  · next k hk =>
    refine (hs.closeSocket k).closeObject fun f k' w hf hk' hw => ?_
    have hf' : s.objects[i]? = some f := hf
    rw [hf', Option.bind_some, hk'] at hk
    cases hk
    obtain ⟨w₀, h₀, rfl⟩ := getElem?_modify_some.1 hw
    obtain ⟨w₁, h₁, -, hopen⟩ := hs.held i f k hf' hk'
    rw [h₀] at h₁
    cases h₁
    rw [if_pos rfl, if_neg hopen]

/-! ## `scheduleReconnect` -/

theorem delay_le (f : HostFanout) :
    f.delay ≤ 30000 ∨ f.unsupported = true ∧ f.delay = UNSUPPORTED_RETRY_MS := by
  unfold HostFanout.delay
  split
  · next h => exact .inr ⟨h, rfl⟩
  · refine .inl ?_
    have hlt : min f.attempt (RECONNECT_DELAYS_MS.length - 1) < RECONNECT_DELAYS_MS.length :=
      Nat.lt_of_le_of_lt (Nat.min_le_right _ _) (by decide)
    rw [List.getD_eq_getElem?_getD, List.getElem?_eq_getElem hlt, Option.getD_some]
    have hall : ∀ delay ∈ RECONNECT_DELAYS_MS, delay ≤ 30000 := by decide
    exact hall _ (List.getElem_mem hlt)

/-- An object without a socket can be given a timer. -/
theorem Core.scheduleReconnect (hs : Core m s)
    (hsocket : ∀ f : HostFanout, s.objects[i]? = some f → f.socket = none) :
    Core m (s.scheduleReconnect i) := by
  unfold State.scheduleReconnect
  split
  · exact hs
  · next f hf =>
    split
    · exact hs
    · next hstopped =>
      refine hs.modify (fun _ => ⟨rfl, rfl, rfl⟩) fun f' hf' => ?_
      rw [hf] at hf'
      cases hf'
      have hfit := hs.fit i f hf
      refine ⟨fun h => ?_, fun h => absurd (hsocket f hf) h, fun delay h => ?_, hfit.probed⟩
      · rw [show f.stopped = true from h, Bool.true_or] at hstopped
        exact absurd rfl hstopped
      · cases h
        exact (delay_le f).imp id (.imp hfit.probed id)

/-! ## `connect` -/

/-- A new socket for an object in use that has none. -/
theorem Core.openSocket (hs : Core m s) {f : HostFanout} (hf : s.objects[i]? = some f)
    (hstopped : f.stopped = false) (hsocket : f.socket = none)
    (htimer : f.reconnectTimer = none) :
    Core m { s.modify i fun f => { f with
        socket := some s.sockets.length, connectTimeoutTimer := some s.sockets.length } with
      sockets := s.sockets ++ [⟨i, f.hostId, .connecting, [], []⟩] } := by
  refine { hs with
    fit := ?_, held := ?_, owned := ?_, listed := ?_, ordered := ?_, part := ?_, whole := ?_,
    ledger := ?_ }
  · intro j f' h
    obtain ⟨f₀, h₀, rfl⟩ := getElem?_modify_some.1 h
    have hfit := hs.fit j f₀ h₀
    split
    · next heq =>
      rw [← heq, hf] at h₀
      cases h₀
      exact ⟨fun h => absurd (hstopped.symm.trans h) nofun, fun _ => htimer, hfit.patient,
        hfit.probed⟩
    · exact hfit
  · intro j f' k h hk
    obtain ⟨f₀, h₀, rfl⟩ := getElem?_modify_some.1 h
    split at hk
    · next heq =>
      cases hk
      exact ⟨_, getElem?_concat_some.2 (.inr ⟨rfl, rfl⟩), heq, nofun⟩
    · obtain ⟨w, hw, hrest⟩ := hs.held j f₀ k h₀ hk
      exact ⟨w, getElem?_concat_some.2 (.inl hw), hrest⟩
  · intro k w hw
    rcases getElem?_concat_some.1 hw with hw | ⟨rfl, rfl⟩
    · obtain ⟨f₀, h₀, hhost, hcases⟩ := hs.owned k w hw
      refine ⟨_, getElem?_modify_some.2 ⟨f₀, h₀, rfl⟩, ?_⟩
      split
      · next heq =>
        rw [← heq, hf] at h₀
        cases h₀
        refine ⟨hhost, ?_⟩
        rcases hcases with hclosed | hheld | ⟨hno, -⟩
        · exact .inl hclosed
        · rw [hsocket] at hheld
          cases hheld
        · rw [hstopped] at hno
          cases hno
      · exact ⟨hhost, hcases⟩
    · refine ⟨_, getElem?_modify_some.2 ⟨f, hf, rfl⟩, ?_⟩
      rw [if_pos rfl]
      exact ⟨rfl, .inr (.inl rfl)⟩
  · intro j f' h hno
    obtain ⟨f₀, h₀, rfl⟩ := getElem?_modify_some.1 h
    split at hno
    · next heq =>
      rw [if_pos heq]
      exact hs.listed j f₀ h₀ hno
    · next hne =>
      rw [if_neg hne]
      exact hs.listed j f₀ h₀ hno
  · have dead : ∀ w : Socket Frame Item, Dead s w → Dead { s.modify i fun f => { f with
        socket := some s.sockets.length, connectTimeoutTimer := some s.sockets.length } with
        sockets := s.sockets ++ [⟨i, f.hostId, .connecting, [], []⟩] } w := by
      rintro w (hclosed | ⟨f₀, h₀, hstopped₀⟩)
      · exact .inl hclosed
      · refine .inr ⟨_, getElem?_modify_some.2 ⟨f₀, h₀, rfl⟩, ?_⟩
        split <;> exact hstopped₀
    intro k k' w w' hw hw' hlt hhost
    rcases getElem?_concat_some.1 hw with hw | ⟨rfl, -⟩
    · refine dead w ?_
      rcases getElem?_concat_some.1 hw' with hw' | ⟨-, rfl⟩
      · exact hs.ordered k k' w w' hw hw' hlt hhost
      · -- an object of the host that is in use is this one, and it had no socket
        obtain ⟨f₀, h₀, hhost₀, hclosed | hheld | ⟨hstopped₀, -⟩⟩ := hs.owned k w hw
        · exact .inl hclosed
        · by_cases hstopped₀ : f₀.stopped = true
          · exact .inr ⟨f₀, h₀, hstopped₀⟩
          · have hlisted := hs.listed _ f₀ h₀ (Bool.not_eq_true _ ▸ hstopped₀)
            rw [hhost₀, hhost, hs.listed i f hf hstopped] at hlisted
            cases hlisted
            rw [hf] at h₀
            cases h₀
            rw [hsocket] at hheld
            cases hheld
        · exact .inr ⟨f₀, h₀, hstopped₀⟩
    · rcases getElem?_concat_some.1 hw' with hw' | ⟨rfl, -⟩
      · have hbound := (List.getElem?_eq_some_iff.1 hw').1
        omega
      · omega
  · intro k w hw
    rcases getElem?_concat_some.1 hw with hw | ⟨-, rfl⟩
    · exact hs.part k w hw
    · exact List.nil_prefix
  · intro k w f' hw hf' hno
    rcases getElem?_concat_some.1 hw with hw | ⟨-, rfl⟩
    · obtain ⟨f₀, h₀, rfl⟩ := getElem?_modify_some.1 hf'
      refine hs.whole k w f₀ hw h₀ ?_
      split at hno <;> exact hno
    · rfl
  · intro hostId
    have hledger := hs.ledger hostId
    unfold State.ledger at hledger ⊢
    dsimp only
    rw [List.map_append, List.filter_append, List.flatMap_append]
    have hnil : ((List.map (fun w : Socket Frame Item => (w.hostId, w.served))
        [⟨i, f.hostId, .connecting, [], []⟩]).filter fun e => e.1 = hostId).flatMap Prod.snd =
          [] := by
      rw [List.map_singleton]
      by_cases h : f.hostId = hostId <;> simp [h]
    rw [hnil, List.append_nil]
    exact hledger

/-! ## The listeners -/

variable {w : Socket Frame Item}

theorem Core.onOpen (hs : Core m s) (hw : s.sockets[k]? = some w)
    (hready : w.readyState = .connecting) : Core m (s.onOpen k w) := by
  have hmoved : Core m { s with
      sockets := s.sockets.modify k fun w => { w with readyState := .open } } := by
    refine hs.moveSocket (fun _ => ⟨rfl, rfl, rfl, rfl⟩) (fun w' hw' => ?_) fun w' hw' h => ?_
    · rw [hw] at hw'
      cases hw'
      rw [hready]
      exact ⟨nofun, nofun⟩
    · rw [hw] at hw'
      cases hw'
      rw [hready] at h
      cases h
  refine hmoved.modify (fun _ => ⟨rfl, rfl, rfl⟩) fun f hf => ?_
  have hfit := hs.fit _ f hf
  exact ⟨hfit.quiet, hfit.single, hfit.patient, nofun⟩

/-- A frame that is not handed on. -/
theorem Core.hear (hs : Core m s) {x : Frame}
    (hdrop : ∀ (w : Socket Frame Item) (f : HostFanout), s.sockets[k]? = some w →
      s.objects[w.fanout]? = some f → f.stopped = false → m.read x = none) :
    Core m { s with
      sockets := s.sockets.modify k fun w => { w with arrived := w.arrived ++ [x] } } := by
  have back : ∀ (k' : ℕ) (w : Socket Frame Item),
      (s.sockets.modify k fun w => { w with arrived := w.arrived ++ [x] })[k']? = some w →
        ∃ w₀, s.sockets[k']? = some w₀ ∧ w.fanout = w₀.fanout ∧ w.hostId = w₀.hostId ∧
          w.readyState = w₀.readyState := by
    intro k' w h
    obtain ⟨w₀, h₀, rfl⟩ := getElem?_modify_some.1 h
    refine ⟨w₀, h₀, ?_⟩
    split <;> exact ⟨rfl, rfl, rfl⟩
  refine { hs with held := ?_, owned := ?_, ordered := ?_, part := ?_, whole := ?_, ledger := ?_ }
  · intro i f k' hf hk'
    obtain ⟨w₀, h₀, hrest⟩ := hs.held i f k' hf hk'
    refine ⟨_, getElem?_modify_some.2 ⟨w₀, h₀, rfl⟩, ?_⟩
    split <;> exact hrest
  · intro k' w hw
    obtain ⟨w₀, h₀, hfanout, hhost, hready⟩ := back k' w hw
    rw [hfanout, hhost, hready]
    exact hs.owned k' w₀ h₀
  · intro k₁ k₂ w₁ w₂ hw₁ hw₂ hlt heq
    obtain ⟨v₁, hv₁, hfanout, hhost₁, hready⟩ := back k₁ w₁ hw₁
    obtain ⟨v₂, hv₂, -, hhost₂, -⟩ := back k₂ w₂ hw₂
    rw [hhost₁, hhost₂] at heq
    rcases hs.ordered k₁ k₂ v₁ v₂ hv₁ hv₂ hlt heq with h | h
    · exact .inl (hready.trans h)
    · exact .inr (hfanout ▸ h)
  · intro k' w hw
    obtain ⟨w₀, h₀, rfl⟩ := getElem?_modify_some.1 hw
    have hpart := hs.part k' w₀ h₀
    split
    · rw [List.filterMap_append]
      exact hpart.trans (List.prefix_append _ _)
    · exact hpart
  · intro k' w f hw hf hstopped
    obtain ⟨w₀, h₀, rfl⟩ := getElem?_modify_some.1 hw
    split at hf
    · next heq =>
      subst heq
      rw [if_pos rfl]
      dsimp only
      rw [List.filterMap_append, List.filterMap_cons_none (hdrop w₀ f h₀ hf hstopped),
        List.filterMap_nil, List.append_nil]
      exact hs.whole k w₀ f h₀ hf hstopped
    · next hne =>
      rw [if_neg hne]
      exact hs.whole k' w₀ f h₀ hf hstopped
  · exact hs.ledger_of rfl rfl fun _ => ⟨rfl, rfl⟩

/-- A frame that is handed on. -/
theorem Core.serve (hs : Core m s) (hw : s.sockets[k]? = some w) (hopen : w.readyState ≠ .closed)
    {f : HostFanout} (hf : s.objects[w.fanout]? = some f) (hstopped : f.stopped = false)
    {x : Frame} {item : Item} (hread : m.read x = some item) :
    Core m { s with
      sockets := (s.sockets.modify k fun w => { w with arrived := w.arrived ++ [x] }).modify k
        fun w => { w with served := w.served ++ [item] }
      log := s.log ++ [(f.hostId, item)] } := by
  have hhost : f.hostId = w.hostId := by
    obtain ⟨f₀, h₀, hhost, -⟩ := hs.owned k w hw
    rw [hf] at h₀
    cases h₀
    exact hhost
  rw [List.modify_modify_eq]
  have back : ∀ (k' : ℕ) (v : Socket Frame Item), (s.sockets.modify k
      ((fun w => { w with served := w.served ++ [item] }) ∘
        fun w => { w with arrived := w.arrived ++ [x] }))[k']? = some v →
        ∃ v₀, s.sockets[k']? = some v₀ ∧ v.fanout = v₀.fanout ∧ v.hostId = v₀.hostId ∧
          v.readyState = v₀.readyState := by
    intro k' v h
    obtain ⟨v₀, h₀, rfl⟩ := getElem?_modify_some.1 h
    refine ⟨v₀, h₀, ?_⟩
    split <;> exact ⟨rfl, rfl, rfl⟩
  refine { hs with held := ?_, owned := ?_, ordered := ?_, part := ?_, whole := ?_, ledger := ?_ }
  · intro i f k' hf hk'
    obtain ⟨w₀, h₀, hrest⟩ := hs.held i f k' hf hk'
    refine ⟨_, getElem?_modify_some.2 ⟨w₀, h₀, rfl⟩, ?_⟩
    split <;> exact hrest
  · intro k' w hw
    obtain ⟨w₀, h₀, hfanout, hhost, hready⟩ := back k' w hw
    rw [hfanout, hhost, hready]
    exact hs.owned k' w₀ h₀
  · intro k₁ k₂ w₁ w₂ hw₁ hw₂ hlt heq
    obtain ⟨v₁, hv₁, hfanout, hhost₁, hready⟩ := back k₁ w₁ hw₁
    obtain ⟨v₂, hv₂, -, hhost₂, -⟩ := back k₂ w₂ hw₂
    rw [hhost₁, hhost₂] at heq
    rcases hs.ordered k₁ k₂ v₁ v₂ hv₁ hv₂ hlt heq with h | h
    · exact .inl (hready.trans h)
    · exact .inr (hfanout ▸ h)
  · intro k' v hv
    obtain ⟨v₀, h₀, rfl⟩ := getElem?_modify_some.1 hv
    split
    · next heq =>
      subst heq
      rw [hw] at h₀
      cases h₀
      dsimp only [Function.comp]
      rw [List.filterMap_append, hs.whole k w f hw hf hstopped, List.filterMap_cons_some hread,
        List.filterMap_nil]
    · exact hs.part k' v₀ h₀
  · intro k' v f' hv hf' hno
    obtain ⟨v₀, h₀, rfl⟩ := getElem?_modify_some.1 hv
    split at hf'
    · next heq =>
      subst heq
      rw [hw] at h₀
      cases h₀
      rw [if_pos rfl]
      dsimp only [Function.comp]
      rw [List.filterMap_append, hs.whole k w f hw hf hstopped, List.filterMap_cons_some hread,
        List.filterMap_nil]
    · next hne =>
      rw [if_neg hne]
      exact hs.whole k' v₀ f' h₀ hf' hno
  · intro hostId
    have hledger : s.ledger[k]? = some (w.hostId, w.served) := by
      rw [State.ledger, List.getElem?_map, hw]
      rfl
    -- no later socket was opened to the host
    have hlast : ∀ k' e, k < k' → s.ledger[k']? = some e → e.1 ≠ w.hostId := by
      intro k' e hlt he heq
      rw [State.ledger, List.getElem?_map, Option.map_eq_some_iff] at he
      obtain ⟨w', hw', rfl⟩ := he
      rcases hs.ordered k k' w w' hw hw' hlt heq.symm with hclosed | ⟨f', hf', hstopped'⟩
      · exact hopen hclosed
      · rw [hf] at hf'
        cases hf'
        rw [hstopped] at hstopped'
        cases hstopped'
    have hadd := flatMap_filter_modify item hledger hlast hostId
    have hmap : (s.sockets.modify k ((fun w => { w with served := w.served ++ [item] }) ∘
        fun w => { w with arrived := w.arrived ++ [x] })).map (fun w => (w.hostId, w.served)) =
          s.ledger.modify k fun e => (e.1, e.2 ++ [item]) :=
      map_modify (p := fun w : Socket Frame Item => (w.hostId, w.served)) (fun _ => rfl) _ _
    rw [← hs.ledger hostId] at hadd
    unfold State.ledger
    dsimp only
    rw [hmap, hadd, List.filter_append, List.map_append, hhost]
    by_cases heq : w.hostId = hostId <;> simp [heq]

theorem Core.onFrame (hs : Core m s) (hw : s.sockets[k]? = some w) (hopen : w.readyState ≠ .closed)
    (hstopped : s.stopped = true → ∀ (i : ℕ) (f : HostFanout), s.objects[i]? = some f →
      f.stopped = true) (x : Frame) :
    Core m (s.onFrame m k w x) := by
  unfold State.onFrame
  dsimp only
  split
  · next hnone =>
    obtain ⟨f, hf, -⟩ := hs.owned k w hw
    rw [hnone] at hf
    cases hf
  · next f hf =>
    split
    · next hdrop =>
      refine hs.hear fun w' f' hw' hf' hno => ?_
      rw [hw] at hw'
      cases hw'
      rw [hf] at hf'
      cases hf'
      rw [hno, Bool.false_or] at hdrop
      exact absurd (hno.symm.trans (hstopped hdrop _ f hf)) nofun
    · next hlive =>
      have hno : f.stopped = false := by
        cases h : f.stopped with
        | false => rfl
        | true => exact absurd (by rw [h, Bool.true_or]) hlive
      split
      · next hread => exact hs.hear fun _ _ _ _ _ => hread
      · next item hread => exact hs.serve hw hopen hf hno hread

/-- The object lets go of its socket. -/
theorem Core.release (hs : Core m s) (hw : s.sockets[k]? = some w)
    (hopen : w.readyState ≠ .closed) :
    Core m { s.modify w.fanout fun f => { f with connectTimeoutTimer := none, socket := none } with
      sockets := s.sockets.modify k fun w => { w with readyState := .closed } } := by
  refine { hs with
    fit := ?_, held := ?_, owned := ?_, listed := ?_, ordered := ?_, part := ?_, whole := ?_,
    ledger := ?_ }
  · intro j f h
    obtain ⟨f₀, h₀, rfl⟩ := getElem?_modify_some.1 h
    have hfit := hs.fit j f₀ h₀
    split
    · exact ⟨fun h => ⟨rfl, (hfit.quiet h).2⟩, fun h => absurd rfl h, hfit.patient, hfit.probed⟩
    · exact hfit
  · intro j f k' h hk'
    obtain ⟨f₀, h₀, rfl⟩ := getElem?_modify_some.1 h
    split at hk'
    · cases hk'
    · next hne =>
      obtain ⟨v, hv, hfanout, hv'⟩ := hs.held j f₀ k' h₀ hk'
      refine ⟨_, getElem?_modify_some.2 ⟨v, hv, rfl⟩, ?_⟩
      rw [if_neg]
      · exact ⟨hfanout, hv'⟩
      · rintro rfl
        rw [hw] at hv
        cases hv
        exact hne hfanout
  · intro k' v hv
    obtain ⟨v₀, h₀, rfl⟩ := getElem?_modify_some.1 hv
    obtain ⟨f₀, hf₀, hhost, hcases⟩ := hs.owned k' v₀ h₀
    split
    · refine ⟨_, getElem?_modify_some.2 ⟨f₀, hf₀, rfl⟩, ?_, .inl rfl⟩
      split <;> exact hhost
    · next hne =>
      refine ⟨_, getElem?_modify_some.2 ⟨f₀, hf₀, rfl⟩, ?_⟩
      split
      · next heq =>
        refine ⟨hhost, ?_⟩
        rcases hcases with hclosed | hheld | hboth
        · exact .inl hclosed
        · -- the object held the socket that closes
          obtain ⟨f, hf, -, hclosed | hheld' | ⟨hstopped, -⟩⟩ := hs.owned k w hw
          · exact absurd hclosed hopen
          · rw [← heq, hf] at hf₀
            cases hf₀
            rw [hheld] at hheld'
            cases hheld'
            exact absurd rfl hne
          · rw [← heq, hf] at hf₀
            cases hf₀
            rw [((hs.fit _ _ hf).quiet hstopped).1] at hheld
            cases hheld
        · exact .inr (.inr hboth)
      · exact ⟨hhost, hcases⟩
  · intro j f h hno
    obtain ⟨f₀, h₀, rfl⟩ := getElem?_modify_some.1 h
    split at hno
    · next heq =>
      rw [if_pos heq]
      exact hs.listed j f₀ h₀ hno
    · next hne =>
      rw [if_neg hne]
      exact hs.listed j f₀ h₀ hno
  · intro k₁ k₂ w₁ w₂ hw₁ hw₂ hlt heq
    obtain ⟨v₁, hv₁, rfl⟩ := getElem?_modify_some.1 hw₁
    obtain ⟨v₂, hv₂, rfl⟩ := getElem?_modify_some.1 hw₂
    split
    · exact .inl rfl
    · next hne =>
      rw [if_neg hne] at heq
      have heq' : v₁.hostId = v₂.hostId := by
        split at heq <;> exact heq
      rcases hs.ordered k₁ k₂ v₁ v₂ hv₁ hv₂ hlt heq' with h | ⟨f₀, h₀, hstopped⟩
      · exact .inl h
      · refine .inr ⟨_, getElem?_modify_some.2 ⟨f₀, h₀, rfl⟩, ?_⟩
        split <;> exact hstopped
  · intro k' v hv
    obtain ⟨v₀, h₀, rfl⟩ := getElem?_modify_some.1 hv
    split <;> exact hs.part k' v₀ h₀
  · intro k' v f hv hf hno
    obtain ⟨v₀, h₀, rfl⟩ := getElem?_modify_some.1 hv
    obtain ⟨f₀, hf₀, rfl⟩ := getElem?_modify_some.1 hf
    have hfanout : (if k = k' then { v₀ with readyState := .closed } else v₀).fanout =
        v₀.fanout := by split <;> rfl
    rw [hfanout] at hf₀ hno
    have hno₀ : f₀.stopped = false := by split at hno <;> exact hno
    split <;> exact hs.whole k' v₀ f₀ h₀ hf₀ hno₀
  · exact hs.ledger_of rfl rfl fun _ => ⟨rfl, rfl⟩

theorem Core.onClose (hs : Core m s) (hw : s.sockets[k]? = some w)
    (hopen : w.readyState ≠ .closed) : Core m (s.onClose k w) := by
  refine (hs.release hw hopen).scheduleReconnect fun f hf => ?_
  obtain ⟨f₀, -, rfl⟩ := getElem?_modify_some.1 hf
  rw [if_pos rfl]

end Fanout
end Mullion
