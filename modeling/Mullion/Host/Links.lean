import Mullion.Host.Objects

/-!
# One stream to every host

For each kind of stream the primary means to have one to every host it wants, to hand on all that
comes in on it in order, and to try again when it is lost. `Links` is what that comes to in one
state: no two live streams to a host and none to an unwanted one; a wanted host has a socket, a
timer, or a channel that is down and will be heard of when it comes back; and what was handed on is
what arrived, stream after stream.

The sources repeat one shape: `closeFanout` and `openFanout` change one object, `reconcile` runs two
loops over them, and everything else answers an event of a socket or a timer. So the proof says once
what an operation leaves alone (`Only`, `Closing`), then what each of the two loops leaves
(`drops_spec`, `opens_spec`), and from both what `reconcile` does (`reconcile_spec`). `Inv` is kept
by each step; its part that carries the result is `Tended`, that an object in use is waited for
somewhere. `links_along` has `Links` along every run of any of the machines, and `links_kept` says
it of the three that there are.
-/

namespace Mullion
namespace Fanout

open Slots
open ControlSocket (Value)
open State (Reading)

variable {Frame Item : Type} {m : Stream Frame Item} {s t : State Frame Item} {i j k : ℕ}

/-! ## What a step leaves alone -/

/-- The channel of the host is down, and the streams are bound to it, or were until the host was
unbound. -/
def Parked (s : State Frame Item) (hostId : ℕ) : Prop :=
  s.app.agentChannels hostId = none ∧
    ((s.app.boundHosts hostId).any Carried.streams = true ∨ s.released hostId = true)

def Tended (s : State Frame Item) (f : HostFanout) : Prop :=
  f.socket ≠ none ∨ f.reconnectTimer ≠ none ∨ Parked s f.hostId

/-- The map has the objects that are in use. -/
def Current (s : State Frame Item) : Prop :=
  ∀ hostId i, s.fanouts.lookup hostId = some i → ∃ f, s.objects[i]? = some f ∧
    f.hostId = hostId ∧ f.stopped = false

structure Inv (m : Stream Frame Item) (s : State Frame Item) : Prop extends Core m s where
  current : Current s
  tended : ∀ (i : ℕ) (f : HostFanout), s.objects[i]? = some f → f.stopped = false → Tended s f
  ended : s.stopped = true → ∀ hostId, s.fanouts.lookup hostId = none
  bridged : m.needsBridge = true → s.app.connectedBridges = [] →
    ∀ hostId, s.fanouts.lookup hostId = none
  wanted : ∀ hostId, s.fanouts.lookup hostId ≠ none → hostId ∈ s.desired
  opened : s.stopped = false → s.complete = true → ∀ hostId ∈ s.desired,
    s.fanouts.lookup hostId ≠ none

/-- While an object is in use nothing was stopped, and the bridges are there if they must be. -/
theorem Inv.running (hs : Inv m s) {f : HostFanout} (hf : s.objects[i]? = some f)
    (hno : f.stopped = false) :
    s.stopped = false ∧ (m.needsBridge = true → s.app.connectedBridges ≠ []) := by
  have hlisted := hs.listed i f hf hno
  constructor
  · cases h : s.stopped with
    | false => rfl
    | true =>
      rw [hs.ended h] at hlisted
      cases hlisted
  · intro hneeds hnone
    rw [hs.bridged hneeds hnone] at hlisted
    cases hlisted

/-- Only one object has changed, and the sockets. -/
structure Only (i : ℕ) (s t : State Frame Item) : Prop where
  app : t.app = s.app
  fanouts : t.fanouts = s.fanouts
  stopped : t.stopped = s.stopped
  desired : t.desired = s.desired
  complete : t.complete = s.complete
  released : t.released = s.released
  others : ∀ j, j ≠ i → t.objects[j]? = s.objects[j]?
  same : ∀ f : HostFanout, s.objects[i]? = some f → ∃ f', t.objects[i]? = some f' ∧
    f'.hostId = f.hostId ∧ f'.stopped = f.stopped

theorem Only.modify (i : ℕ) {g : HostFanout → HostFanout}
    (hg : ∀ f, (g f).hostId = f.hostId ∧ (g f).stopped = f.stopped) : Only i s (s.modify i g) where
  app := rfl
  fanouts := rfl
  stopped := rfl
  desired := rfl
  complete := rfl
  released := rfl
  others j hne := List.getElem?_modify_ne _ _ hne.symm
  same f hf := ⟨g f, getElem?_modify_some.2 ⟨f, hf, by rw [if_pos rfl]⟩, hg f⟩

theorem Only.sockets (h : Only i s t) (sockets : List (Socket Frame Item)) :
    Only i s { t with sockets := sockets } := { h with }

theorem Only.trans {u : State Frame Item} (h : Only i s t) (h' : Only i t u) : Only i s u where
  app := h'.app.trans h.app
  fanouts := h'.fanouts.trans h.fanouts
  stopped := h'.stopped.trans h.stopped
  desired := h'.desired.trans h.desired
  complete := h'.complete.trans h.complete
  released := h'.released.trans h.released
  others j hne := (h'.others j hne).trans (h.others j hne)
  same f hf := by
    obtain ⟨f', hf', hhost, hstopped⟩ := h.same f hf
    obtain ⟨f'', hf'', hhost', hstopped'⟩ := h'.same f' hf'
    exact ⟨f'', hf'', hhost'.trans hhost, hstopped'.trans hstopped⟩

theorem Only.refl (i : ℕ) (s : State Frame Item) : Only i s s where
  app := rfl
  fanouts := rfl
  stopped := rfl
  desired := rfl
  complete := rfl
  released := rfl
  others _ _ := rfl
  same f hf := ⟨f, hf, rfl, rfl⟩

theorem Inv.of_only (hs : Inv m s) (h : Only i s t) (hcore : Core m t)
    (htended : ∀ f : HostFanout, t.objects[i]? = some f → f.stopped = false → Tended t f) :
    Inv m t where
  toCore := hcore
  current hostId j hj := by
    rw [h.fanouts] at hj
    obtain ⟨f, hf, hhost, hno⟩ := hs.current hostId j hj
    by_cases heq : j = i
    · subst heq
      obtain ⟨f', hf', hhost', hstopped⟩ := h.same f hf
      exact ⟨f', hf', hhost'.trans hhost, hstopped.trans hno⟩
    · exact ⟨f, (h.others j heq).trans hf, hhost, hno⟩
  tended j f hf hno := by
    by_cases heq : j = i
    · subst heq
      exact htended f hf hno
    · rw [h.others j heq] at hf
      unfold Tended Parked
      rw [h.app, h.released]
      exact hs.tended j f hf hno
  ended := by
    rw [h.stopped, h.fanouts]
    exact hs.ended
  bridged := by
    rw [h.app, h.fanouts]
    exact hs.bridged
  wanted := by
    rw [h.fanouts, h.desired]
    exact hs.wanted
  opened := by
    rw [h.stopped, h.complete, h.desired, h.fanouts]
    exact hs.opened

/-! ## Opening -/

theorem scheduleReconnect_only (s : State Frame Item) (i : ℕ) :
    Only i s (s.scheduleReconnect i) := by
  unfold State.scheduleReconnect
  split
  · exact .refl i s
  · split
    · exact .refl i s
    · exact .modify i fun _ => ⟨rfl, rfl⟩

/-- An object in use gets its timer. -/
theorem scheduleReconnect_tended (hstopped : s.stopped = false) :
    ∀ f : HostFanout, (s.scheduleReconnect i).objects[i]? = some f → f.stopped = false →
      Tended (s.scheduleReconnect i) f := by
  intro f hf hno
  unfold State.scheduleReconnect at hf ⊢
  split at hf
  · next hnone =>
    rw [hnone] at hf
    cases hf
  · next f₀ h₀ =>
    split at hf
    · next hcases =>
      rw [h₀] at hf
      cases hf
      rw [hno, hstopped] at hcases
      cases hcases
    · next hcases =>
      obtain ⟨f₁, -, rfl⟩ := getElem?_modify_some.1 hf
      rw [if_pos rfl]
      exact .inr (.inl nofun)

theorem connect_only (s : State Frame Item) (throws : ℕ → Bool) (i : ℕ) :
    Only i s (s.connect m throws i) := by
  unfold State.connect
  split
  · exact .refl i s
  · split
    · exact .refl i s
    split
    · exact .refl i s
    split
    · exact .refl i s
    split
    · exact scheduleReconnect_only s i
    · next f _ _ _ _ _ =>
      exact (Only.modify (g := fun f => { f with
        socket := some s.sockets.length, connectTimeoutTimer := some s.sockets.length }) i
        fun _ => ⟨rfl, rfl⟩).sockets _

/-- The streams are refused exactly when they are bound to a channel that is gone: a channel that
is up carries what is bound to it. -/
theorem Core.channelDown_iff (hs : Core m s) {hostId : ℕ} :
    s.app.isStreamChannelDown hostId = true ↔
      s.app.agentChannels hostId = none ∧ (s.app.boundHosts hostId).any Carried.streams = true := by
  unfold App.isStreamChannelDown
  rw [Bool.and_eq_true, Bool.not_eq_true']
  cases hchannel : s.app.agentChannels hostId with
  | none => simp
  | some carried =>
    cases hbound : s.app.boundHosts hostId with
    | none => simp
    | some bound =>
      rw [hs.agreed _ carried bound hchannel hbound]
      simp

/-- An object in use that has neither a socket nor a timer gets one of them, or waits for the
channel. -/
theorem connect_spec (hs : Core m s) {f : HostFanout} (hf : s.objects[i]? = some f)
    (hno : f.stopped = false) (hsocket : f.socket = none) (htimer : f.reconnectTimer = none)
    (hrun : s.stopped = false)
    (hbridge : m.needsBridge = true → s.app.connectedBridges ≠ []) (throws : ℕ → Bool) :
    Core m (s.connect m throws i) ∧
      ∀ f : HostFanout, (s.connect m throws i).objects[i]? = some f → f.stopped = false →
        Tended (s.connect m throws i) f := by
  unfold State.connect
  rw [hf]
  dsimp only
  rw [hno, hrun, Bool.or_self, if_neg Bool.false_ne_true, if_neg]
  · split
    · next hdown =>
      refine ⟨hs, fun f' hf' _ => ?_⟩
      rw [hf] at hf'
      cases hf'
      obtain ⟨hchannel, hstreams⟩ := hs.channelDown_iff.1 hdown
      exact .inr (.inr ⟨hchannel, .inl hstreams⟩)
    · split
      · refine ⟨hs.scheduleReconnect fun f' hf' => ?_, scheduleReconnect_tended hrun⟩
        rw [hf] at hf'
        cases hf'
        exact hsocket
      · refine ⟨hs.openSocket hf hno hsocket htimer, fun f' hf' _ => ?_⟩
        obtain ⟨f₁, -, rfl⟩ := getElem?_modify_some.1 hf'
        rw [if_pos rfl]
        exact .inl nofun
  · rw [Bool.and_eq_true, List.isEmpty_iff]
    rintro ⟨hneeds, hnone⟩
    exact hbridge hneeds hnone

/-! ## Closing -/

/-- Some objects were closed. -/
structure Closing (s t : State Frame Item) : Prop where
  app : t.app = s.app
  stopped : t.stopped = s.stopped
  released : t.released = s.released
  kept : ∀ (j : ℕ) (f : HostFanout), t.objects[j]? = some f → f.stopped = false →
    s.objects[j]? = some f

theorem Closing.refl (s : State Frame Item) : Closing s s :=
  ⟨rfl, rfl, rfl, fun _ _ hf _ => hf⟩

theorem Closing.trans {u : State Frame Item} (h : Closing s t) (h' : Closing t u) :
    Closing s u where
  app := h'.app.trans h.app
  stopped := h'.stopped.trans h.stopped
  released := h'.released.trans h.released
  kept j f hf hno := h.kept j f (h'.kept j f hf hno) hno

theorem closeFanout_closing (s : State Frame Item) (i : ℕ) : Closing s (s.closeFanout i) := by
  rw [closeFanout_frame, closeFanout_objects]
  refine ⟨rfl, rfl, rfl, fun j f hf hno => ?_⟩
  obtain ⟨f₀, h₀, rfl⟩ := getElem?_modify_some.1 hf
  split at hno
  · cases hno
  · next hne =>
    rw [if_neg hne]
    exact h₀

theorem closeFanout_stopped {f : HostFanout} (hf : (s.closeFanout i).objects[i]? = some f) :
    f.stopped = true := by
  rw [closeFanout_objects] at hf
  obtain ⟨f₀, -, rfl⟩ := getElem?_modify_some.1 hf
  rw [if_pos rfl]
  rfl

theorem closeFanout_fanouts (s : State Frame Item) (i : ℕ) :
    (s.closeFanout i).fanouts = s.fanouts := by
  rw [closeFanout_frame]

/-- Every object of a list is closed. -/
theorem closes_spec (rows : List (ℕ × ℕ)) (hs : Core m s) :
    Core m (rows.foldl (fun s e => s.closeFanout e.2) s) ∧
      Closing s (rows.foldl (fun s e => s.closeFanout e.2) s) ∧
      (rows.foldl (fun s e => s.closeFanout e.2) s).fanouts = s.fanouts ∧
      ∀ e ∈ rows, ∀ f : HostFanout,
        (rows.foldl (fun s e => s.closeFanout e.2) s).objects[e.2]? = some f →
          f.stopped = true := by
  induction rows generalizing s with
  | nil => exact ⟨hs, .refl s, rfl, nofun⟩
  | cons e rows ih =>
    obtain ⟨hcore, hclosing, hfanouts, hall⟩ := ih (hs.closeFanout e.2)
    refine ⟨hcore, (closeFanout_closing s e.2).trans hclosing,
      hfanouts.trans (closeFanout_fanouts s e.2), fun e' he' f hf => ?_⟩
    rcases List.mem_cons.1 he' with rfl | he'
    · cases hstopped : f.stopped with
      | true => rfl
      | false => exact closeFanout_stopped (hclosing.kept _ f hf hstopped) ▸ hstopped.symm
    · exact hall e' he' f hf

theorem clear_spec (hs : Core m s) :
    Core m s.clear ∧ Closing s s.clear ∧
      ∀ (i : ℕ) (f : HostFanout), s.clear.objects[i]? = some f → f.stopped = true := by
  obtain ⟨hcore, hclosing, hfanouts, hall⟩ := closes_spec s.fanouts.entries.rows hs
  have hstopped : ∀ (i : ℕ) (f : HostFanout), s.clear.objects[i]? = some f →
      f.stopped = true := by
    intro i f hf
    cases hno : f.stopped with
    | true => rfl
    | false =>
      have hlisted := hcore.listed i f hf hno
      rw [hfanouts] at hlisted
      have hmem := OrderedMap.lookup_eq_some_iff.1 hlisted
      exact hno.symm.trans (hall _ hmem f hf)
  refine ⟨{ hcore with listed := fun i f hf hno => ?_ }, { hclosing with }, hstopped⟩
  exact absurd (hno.symm.trans (hstopped i f hf)) nofun

/-! ## The loop that closes -/

variable {desired force : List ℕ}

theorem drop_closing (s : State Frame Item) (e : ℕ × ℕ) :
    Closing s (s.drop desired force e) := by
  unfold State.drop
  split
  · exact { closeFanout_closing s e.2 with }
  · exact .refl s

theorem drop_lookup (s : State Frame Item) (e : ℕ × ℕ) (hostId : ℕ) :
    (s.drop desired force e).fanouts.lookup hostId =
      if hostId = e.1 ∧ (hostId ∉ desired ∨ hostId ∈ force) then none
      else s.fanouts.lookup hostId := by
  unfold State.drop
  split
  · next hcond =>
    dsimp only
    rw [closeFanout_fanouts, OrderedMap.lookup_erase]
    by_cases heq : hostId = e.1
    · subst heq
      rw [if_pos rfl, if_pos ⟨rfl, hcond⟩]
    · rw [if_neg heq, if_neg fun h => heq h.1]
  · next hcond =>
    rw [if_neg]
    rintro ⟨rfl, h⟩
    exact hcond h

theorem Core.drop (hs : Core m s) (desired force : List ℕ) {e : ℕ × ℕ}
    (he : s.fanouts.lookup e.1 = some e.2) :
    Core m (s.drop desired force e) := by
  unfold State.drop
  split
  · refine { hs.closeFanout e.2 with listed := fun i f hf hno => ?_ }
    have hlisted := (hs.closeFanout e.2).listed i f hf hno
    dsimp only
    rw [OrderedMap.lookup_erase, if_neg, hlisted]
    intro heq
    rw [closeFanout_fanouts, heq, he] at hlisted
    cases hlisted
    exact absurd (hno.symm.trans (closeFanout_stopped hf)) nofun
  · exact hs

theorem Current.drop (hs : Current s) (desired force : List ℕ) {e : ℕ × ℕ}
    (he : s.fanouts.lookup e.1 = some e.2) :
    Current (s.drop desired force e) := by
  intro hostId i hi
  rw [drop_lookup] at hi
  split at hi
  · cases hi
  · next hother =>
    obtain ⟨f, hf, hhost, hno⟩ := hs hostId i hi
    refine ⟨f, ?_, hhost, hno⟩
    unfold State.drop
    split
    · next hcond =>
      dsimp only
      rw [closeFanout_objects, List.getElem?_modify_ne]
      · exact hf
      · rintro rfl
        obtain ⟨f', hf', hhost', -⟩ := hs e.1 e.2 he
        rw [hf] at hf'
        cases hf'
        obtain rfl : hostId = e.1 := hhost.symm.trans hhost'
        exact hother ⟨rfl, hcond⟩
    · exact hf

theorem drops_spec (desired force : List ℕ) (rows : List (ℕ × ℕ)) (hs : Core m s)
    (hcurrent : Current s) (hnodup : (rows.map Prod.fst).Nodup)
    (hrows : ∀ e ∈ rows, s.fanouts.lookup e.1 = some e.2) :
    Core m (rows.foldl (fun s e => s.drop desired force e) s) ∧
      Current (rows.foldl (fun s e => s.drop desired force e) s) ∧
      Closing s (rows.foldl (fun s e => s.drop desired force e) s) ∧
      ∀ hostId, (rows.foldl (fun s e => s.drop desired force e) s).fanouts.lookup hostId =
        if hostId ∈ rows.map Prod.fst ∧ (hostId ∉ desired ∨ hostId ∈ force) then none
        else s.fanouts.lookup hostId := by
  induction rows generalizing s with
  | nil =>
    refine ⟨hs, hcurrent, .refl s, fun hostId => ?_⟩
    rw [if_neg]
    · rfl
    · rintro ⟨hmem, -⟩
      cases hmem
  | cons e rows ih =>
    rw [List.map_cons, List.nodup_cons] at hnodup
    have he := hrows e List.mem_cons_self
    have hdropped := hs.drop desired force he
    have hdropped' := hcurrent.drop desired force he
    obtain ⟨hcore, hcurrent', hclosing, hlookup⟩ := ih hdropped hdropped' hnodup.2 fun e' he' => by
      rw [drop_lookup, if_neg]
      · exact hrows e' (List.mem_cons_of_mem _ he')
      · rintro ⟨heq, -⟩
        exact hnodup.1 (heq ▸ List.mem_map_of_mem he')
    refine ⟨hcore, hcurrent', (drop_closing s e).trans hclosing, fun hostId => ?_⟩
    rw [List.foldl_cons, hlookup, drop_lookup]
    simp only [List.map_cons, List.mem_cons]
    by_cases hcond : hostId ∉ desired ∨ hostId ∈ force
    · by_cases hmem : hostId ∈ rows.map Prod.fst
      · rw [if_pos ⟨hmem, hcond⟩, if_pos ⟨.inr hmem, hcond⟩]
      · by_cases heq : hostId = e.1
        · rw [if_neg fun h => hmem h.1, if_pos ⟨heq, hcond⟩, if_pos ⟨.inl heq, hcond⟩]
        · rw [if_neg fun h => hmem h.1, if_neg fun h => heq h.1,
            if_neg fun h => h.1.elim heq hmem]
    · rw [if_neg fun h => hcond h.2, if_neg fun h => hcond h.2, if_neg fun h => hcond h.2]

/-! ## The loop that opens -/

/-- The invariant inside `reconcile`, where the list of wanted hosts is not yet written. -/
structure Opening (m : Stream Frame Item) (s : State Frame Item) : Prop extends Core m s where
  current : Current s
  tended : ∀ (i : ℕ) (f : HostFanout), s.objects[i]? = some f → f.stopped = false → Tended s f
  running : s.stopped = false
  bridged : m.needsBridge = true → s.app.connectedBridges ≠ []

/-- A new object for a host that has none. -/
theorem Core.newObject (hs : Core m s) {hostId : ℕ} (hnone : s.fanouts.lookup hostId = none) :
    Core m { s with
      objects := s.objects ++ [HostFanout.start hostId]
      fanouts := s.fanouts.set hostId s.objects.length } := by
  refine { hs with
    fit := ?_, held := ?_, owned := ?_, listed := ?_, ordered := ?_, whole := ?_ }
  · intro i f hf
    rcases getElem?_concat_some.1 hf with hf | ⟨-, rfl⟩
    · exact hs.fit i f hf
    · exact ⟨fun _ => ⟨rfl, rfl⟩, fun _ => rfl, nofun, nofun⟩
  · intro i f k hf hk
    rcases getElem?_concat_some.1 hf with hf | ⟨-, rfl⟩
    · exact hs.held i f k hf hk
    · cases hk
  · intro k w hw
    obtain ⟨f, hf, hrest⟩ := hs.owned k w hw
    exact ⟨f, getElem?_concat_some.2 (.inl hf), hrest⟩
  · intro i f hf hno
    rcases getElem?_concat_some.1 hf with hf | ⟨rfl, rfl⟩
    · have hlisted := hs.listed i f hf hno
      dsimp only
      rw [OrderedMap.lookup_set_of_ne]
      · exact hlisted
      · rintro heq
        rw [heq, hnone] at hlisted
        cases hlisted
    · exact OrderedMap.lookup_set_self _ _ _
  · intro k k' w w' hw hw' hlt hhost
    rcases hs.ordered k k' w w' hw hw' hlt hhost with hclosed | ⟨f, hf, hstopped⟩
    · exact .inl hclosed
    · exact .inr ⟨f, getElem?_concat_some.2 (.inl hf), hstopped⟩
  · intro k w f hw hf hno
    obtain ⟨f₀, h₀, -⟩ := hs.owned k w hw
    rcases getElem?_concat_some.1 hf with hf | ⟨heq, -⟩
    · exact hs.whole k w f hw hf hno
    · have hlt := (List.getElem?_eq_some_iff.1 h₀).1
      omega

theorem openFanout_spec (hs : Opening m s) (throws : ℕ → Bool) (hostId : ℕ) :
    Opening m (s.openFanout m throws hostId) ∧
      (s.openFanout m throws hostId).app = s.app ∧
      ∀ hostId', (s.openFanout m throws hostId).fanouts.lookup hostId' ≠ none ↔
        s.fanouts.lookup hostId' ≠ none ∨ hostId' = hostId := by
  unfold State.openFanout
  split
  · next hsome =>
    refine ⟨hs, rfl, fun hostId' => ⟨.inl, ?_⟩⟩
    rintro (h | rfl)
    · exact h
    · exact Option.isSome_iff_ne_none.1 hsome
  · next hnone =>
    rw [Option.not_isSome_iff_eq_none] at hnone
    have hcore := hs.toCore.newObject hnone
    dsimp only
    have hnew : ({ s with
        objects := s.objects ++ [HostFanout.start hostId]
        fanouts := s.fanouts.set hostId s.objects.length } :
          State Frame Item).objects[s.objects.length]? = some (HostFanout.start hostId) :=
      getElem?_concat_some.2 (.inr ⟨rfl, rfl⟩)
    obtain ⟨hconnected, htended⟩ :=
      connect_spec hcore hnew rfl rfl rfl hs.running hs.bridged throws
    have honly := connect_only (m := m) { s with
        objects := s.objects ++ [HostFanout.start hostId]
        fanouts := s.fanouts.set hostId s.objects.length } throws s.objects.length
    refine ⟨{ hconnected with
      current := ?_, tended := ?_, running := ?_, bridged := ?_ }, honly.app, fun hostId' => ?_⟩
    · intro hostId' i hi
      rw [honly.fanouts] at hi
      dsimp only at hi
      rw [OrderedMap.lookup_set] at hi
      split at hi
      · next heq =>
        cases hi
        obtain ⟨f, hf, hhost, hstopped⟩ := honly.same _ hnew
        exact ⟨f, hf, hhost.trans heq.symm, hstopped⟩
      · obtain ⟨f, hf, hrest⟩ := hs.current hostId' i hi
        have hlt := (List.getElem?_eq_some_iff.1 hf).1
        exact ⟨f, (honly.others i (by omega)).trans (getElem?_concat_some.2 (.inl hf)), hrest⟩
    · intro i f hf hno
      by_cases heq : i = s.objects.length
      · subst heq
        exact htended f hf hno
      · rw [honly.others i heq] at hf
        rcases getElem?_concat_some.1 hf with hf | ⟨heq', -⟩
        · unfold Tended Parked
          rw [honly.app, honly.released]
          exact hs.tended i f hf hno
        · exact absurd heq' heq
    · exact honly.stopped.trans hs.running
    · rw [honly.app]
      exact hs.bridged
    · rw [honly.fanouts]
      dsimp only
      rw [OrderedMap.lookup_set]
      split
      · next heq => exact ⟨fun _ => .inr heq, fun _ => Option.some_ne_none _⟩
      · next hne => exact ⟨.inl, fun h => h.elim id fun heq => absurd heq hne⟩

theorem opens_spec (hostIds : List ℕ) (hs : Opening m s) (throws : ℕ → Bool) :
    Opening m (hostIds.foldl (fun s hostId => s.openFanout m throws hostId) s) ∧
      (hostIds.foldl (fun s hostId => s.openFanout m throws hostId) s).app = s.app ∧
      ∀ hostId, (hostIds.foldl (fun s hostId => s.openFanout m throws hostId) s).fanouts.lookup
        hostId ≠ none ↔ s.fanouts.lookup hostId ≠ none ∨ hostId ∈ hostIds := by
  induction hostIds generalizing s with
  | nil => exact ⟨hs, rfl, fun hostId => ⟨.inl, fun h => h.elim id nofun⟩⟩
  | cons hostId rest ih =>
    obtain ⟨hopened, happ, hlookup⟩ := openFanout_spec hs throws hostId
    obtain ⟨hall, happ', hlookup'⟩ := ih hopened
    refine ⟨hall, happ'.trans happ, fun hostId' => ?_⟩
    rw [List.foldl_cons, hlookup', hlookup, List.mem_cons, or_assoc]

/-! ## `reconcile` -/

/-- What holds between the two loops. -/
structure Dropped (m : Stream Frame Item) (desired : List ℕ) (s : State Frame Item) : Prop
    extends Core m s where
  current : Current s
  tended : ∀ (i : ℕ) (f : HostFanout), s.objects[i]? = some f → f.stopped = false → Tended s f
  running : s.stopped = false
  bridged : m.needsBridge = true → s.app.connectedBridges = [] → desired = []
  wanted : ∀ hostId, s.fanouts.lookup hostId ≠ none → hostId ∈ desired

/-- The first loop closes what is not wanted, and what is forced. -/
theorem drops_dropped (hs : Core m s) (hcurrent : Current s)
    (htended : ∀ (i : ℕ) (f : HostFanout), s.objects[i]? = some f → f.stopped = false →
      f.hostId ∉ force → Tended s f)
    (hrun : s.stopped = false) :
    Dropped m (s.desiredIds m)
      (s.fanouts.entries.rows.foldl (fun u e => u.drop (s.desiredIds m) force e) s) := by
  obtain ⟨hcore, hcurrent', hclosing, hlookup⟩ := drops_spec (s.desiredIds m) force
    s.fanouts.entries.rows hs hcurrent s.fanouts.entries.nodup
    fun e he => OrderedMap.lookup_eq_some_iff.2 he
  have hkept : ∀ hostId i, (s.fanouts.entries.rows.foldl
      (fun u e => u.drop (s.desiredIds m) force e) s).fanouts.lookup hostId = some i →
        hostId ∈ s.desiredIds m ∧ hostId ∉ force := by
    intro hostId i hi
    rw [hlookup] at hi
    split at hi
    · cases hi
    · next hcond =>
      have hmem : hostId ∈ s.fanouts.entries.rows.map Prod.fst :=
        List.mem_map_of_mem (OrderedMap.lookup_eq_some_iff.1 hi)
      have hcond' : ¬(hostId ∉ s.desiredIds m ∨ hostId ∈ force) := fun h => hcond ⟨hmem, h⟩
      rw [not_or, not_not] at hcond'
      exact hcond'
  exact { hcore with
    current := hcurrent'
    tended := fun i f hf hno => by
      have hforce := (hkept _ _ (hcore.listed i f hf hno)).2
      unfold Tended Parked
      rw [hclosing.app, hclosing.released]
      exact htended i f (hclosing.kept i f hf hno) hno hforce
    running := hclosing.stopped.trans hrun
    bridged := fun hneeds hnone => by
      rw [hclosing.app] at hnone
      rw [State.desiredIds, hneeds, hnone]
      rfl
    wanted := fun hostId h => by
      obtain ⟨i, hi⟩ := Option.ne_none_iff_exists'.1 h
      exact (hkept hostId i hi).1 }

theorem Dropped.empty (hs : Dropped m [] s) (hostId : ℕ) : s.fanouts.lookup hostId = none := by
  by_contra h
  cases hs.wanted hostId h

/-- The settings could not be read: nothing is opened. -/
theorem Dropped.unread (hs : Dropped m desired s) :
    Inv m { s with desired := desired, complete := false } :=
  { hs.toCore with
    current := hs.current
    tended := hs.tended
    ended := fun h => absurd (hs.running.symm.trans h) nofun
    bridged := fun hneeds hnone => by
      obtain rfl := hs.bridged hneeds hnone
      exact hs.empty
    wanted := hs.wanted
    opened := fun _ h => by cases h }

/-- The second loop opens what is wanted. -/
theorem Dropped.opens (hs : Dropped m desired s) (throws : ℕ → Bool) :
    Inv m { desired.foldl (fun s hostId => s.openFanout m throws hostId) s with
      desired := desired
      complete := true } := by
  by_cases hcut : m.needsBridge = true ∧ s.app.connectedBridges = []
  · obtain rfl := hs.bridged hcut.1 hcut.2
    exact { hs.toCore with
      current := hs.current
      tended := hs.tended
      ended := fun h => absurd (hs.running.symm.trans h) nofun
      bridged := fun _ _ => hs.empty
      wanted := hs.wanted
      opened := fun _ _ hostId h => by cases h }
  · have hopening : Opening m s := { hs.toCore with
      current := hs.current
      tended := hs.tended
      running := hs.running
      bridged := fun hneeds hnone => hcut ⟨hneeds, hnone⟩ }
    obtain ⟨hopened, -, hall⟩ := opens_spec desired hopening throws
    exact { hopened.toCore with
      current := hopened.current
      tended := hopened.tended
      ended := fun h => absurd (hopened.running.symm.trans h) nofun
      bridged := fun hneeds hnone => absurd hnone (hopened.bridged hneeds)
      wanted := fun hostId h => ((hall hostId).1 h).elim (hs.wanted hostId) id
      opened := fun _ _ hostId h => (hall hostId).2 (.inr h) }

theorem reconcile_spec (hs : Core m s)
    (hcurrent : Current s)
    (htended : ∀ (i : ℕ) (f : HostFanout), s.objects[i]? = some f → f.stopped = false →
      f.hostId ∉ force → Tended s f)
    (hended : s.stopped = true → ∀ hostId, s.fanouts.lookup hostId = none) (reading : Reading)
    (throws : ℕ → Bool) : Inv m (s.reconcile m force reading throws) := by
  unfold State.reconcile
  split
  · next hstopped =>
    refine { hs with
      current := hcurrent, tended := ?_, ended := hended, bridged := ?_, wanted := ?_,
      opened := ?_ }
    · intro i f hf hno
      have hlisted := hs.listed i f hf hno
      rw [hended hstopped] at hlisted
      cases hlisted
    · exact fun _ _ => hended hstopped
    · exact fun hostId h => absurd (hended hstopped hostId) h
    · exact fun hrun => absurd (hstopped.symm.trans hrun) nofun
  · next hrun =>
    rw [Bool.not_eq_true] at hrun
    split
    · obtain ⟨hcore, hclosing, hall⟩ := clear_spec hs
      exact { hcore with
        current := fun hostId i hi => by cases hi
        tended := fun i f hf hno => absurd (hno.symm.trans (hall i f hf)) nofun
        ended := fun _ _ => rfl
        bridged := fun _ _ _ => rfl
        wanted := fun hostId h => absurd rfl h
        opened := fun _ _ hostId h => by cases h }
    · have hdropped := drops_dropped hs hcurrent htended hrun
      dsimp only
      split
      · exact hdropped.unread
      · exact hdropped.opens throws

/-! ## Steps -/

theorem Inv.reconcile (hs : Inv m s) (force : List ℕ) (reading : Reading) (throws : ℕ → Bool) :
    Inv m (s.reconcile m force reading throws) :=
  reconcile_spec hs.toCore hs.current (fun i f hf hno _ => hs.tended i f hf hno) hs.ended reading
    throws

theorem Inv.stop (hs : Inv m s) : Inv m s.stop := by
  have hcore : Core m { s with stopped := true } := { hs.toCore with }
  obtain ⟨hcore, hclosing, hall⟩ := clear_spec hcore
  exact { hcore with
    current := fun hostId i hi => by cases hi
    tended := fun i f hf hno => absurd (hno.symm.trans (hall i f hf)) nofun
    ended := fun _ _ => rfl
    bridged := fun _ _ _ => rfl
    wanted := fun hostId h => absurd rfl h
    opened := fun h => absurd (hclosing.stopped.symm.trans h) nofun }

theorem Inv.channelUp (hs : Inv m s) (hostId : ℕ) (carried : Carried) (reading : Reading)
    (throws : ℕ → Bool) :
    Inv m ({ s with
      app := s.app.acceptChannel hostId carried
      released := Function.update s.released hostId false }.reconcile m [hostId] reading throws) := by
  have hcore : Core m { s with
      app := s.app.acceptChannel hostId carried
      released := Function.update s.released hostId false } := by
    refine { hs.toCore with agreed := ?_ }
    intro hostId' carried' bound hchannel hbound
    dsimp only at hchannel hbound
    rw [App.acceptChannel_agentChannels] at hchannel
    rw [App.acceptChannel_boundHosts] at hbound
    split at hchannel
    · next heq =>
      rw [if_pos heq] at hbound
      cases hchannel
      split at hbound
      · cases hbound
        rfl
      · cases hbound
    · next hne =>
      rw [if_neg hne] at hbound
      exact hs.agreed hostId' carried' bound hchannel hbound
  refine reconcile_spec hcore hs.current (fun i f hf hno hother => ?_) hs.ended reading throws
  rw [List.mem_singleton] at hother
  refine (hs.tended i f hf hno).imp id (.imp id fun ⟨hdown, hbound⟩ => ⟨?_, ?_⟩)
  · dsimp only
    rw [App.acceptChannel_agentChannels, if_neg hother]
    exact hdown
  · dsimp only
    rw [App.acceptChannel_boundHosts, if_neg hother, Function.update_of_ne hother]
    exact hbound

theorem Inv.channelClosed (hs : Inv m s) (hostId : ℕ) :
    Inv m { s with app := s.app.loseChannel hostId } := by
  refine { hs with agreed := ?_, tended := fun i f hf hno => ?_ }
  · intro hostId' carried bound hchannel hbound
    dsimp only at hchannel
    rw [App.loseChannel_agentChannels] at hchannel
    split at hchannel
    · cases hchannel
    · exact hs.agreed hostId' carried bound hchannel hbound
  · refine (hs.tended i f hf hno).imp id (.imp id fun ⟨hdown, hever⟩ => ⟨?_, hever⟩)
    dsimp only
    rw [App.loseChannel_agentChannels, hdown, ite_self]

theorem Inv.unbind (hs : Inv m s) (hostId : ℕ) :
    Inv m { s with
      app := s.app.unbindChannelHost hostId
      released := if s.app.isStreamChannelDown hostId then Function.update s.released hostId true
        else s.released } := by
  refine { hs with agreed := ?_, tended := fun i f hf hno => ?_ }
  · intro hostId' carried bound hchannel hbound
    dsimp only at hbound
    rw [App.unbindChannelHost_boundHosts] at hbound
    split at hbound
    · cases hbound
    · exact hs.agreed hostId' carried bound hchannel hbound
  · refine (hs.tended i f hf hno).imp id (.imp id fun ⟨hdown, hbound⟩ => ⟨hdown, ?_⟩)
    dsimp only
    rw [App.unbindChannelHost_boundHosts]
    by_cases heq : f.hostId = hostId
    · -- what was bound is released, and what was released stays so
      subst heq
      rw [if_pos rfl]
      right
      rcases hbound with hbound | hreleased
      · rw [if_pos (hs.channelDown_iff.2 ⟨hdown, hbound⟩), Function.update_self]
      · split
        · exact Function.update_self _ _ _
        · exact hreleased
    · rw [if_neg heq]
      refine hbound.imp id fun hreleased => ?_
      split
      · rw [Function.update_of_ne heq]
        exact hreleased
      · exact hreleased

theorem Inv.bridgesChanged (hs : Inv m s) (bridges : List ℕ) (reading : Reading)
    (throws : ℕ → Bool) : Inv m (bridgesChanged m s bridges reading throws) := by
  unfold Fanout.bridgesChanged
  dsimp only
  split
  · have hcore : Core m { s with app := { s.app with connectedBridges := bridges } } :=
      { hs.toCore with }
    exact reconcile_spec hcore hs.current (fun i f hf hno _ => hs.tended i f hf hno) hs.ended
      reading throws
  · next hneeds =>
    exact { hs with bridged := fun h => absurd h hneeds }

/-- A timer fires. -/
theorem Inv.reconnectTimer (hs : Inv m s) {f : HostFanout} (hf : s.objects[i]? = some f)
    (htimer : f.reconnectTimer ≠ none) (throws : ℕ → Bool) :
    Inv m ((s.modify i fun f => { f with reconnectTimer := none }).connect m throws i) := by
  have hfit := hs.fit i f hf
  have hno : f.stopped = false := by
    cases h : f.stopped with
    | false => rfl
    | true => exact absurd (hfit.quiet h).2 htimer
  have hsocket : f.socket = none := by
    by_contra h
    exact htimer (hfit.single h)
  obtain ⟨hrun, hbridge⟩ := hs.running hf hno
  have hcore : Core m (s.modify i fun f => { f with reconnectTimer := none }) := by
    refine hs.modify (fun _ => ⟨rfl, rfl, rfl⟩) fun f' hf' => ?_
    have hfit' := hs.fit i f' hf'
    exact ⟨fun h => ⟨(hfit'.quiet h).1, rfl⟩, fun _ => rfl, nofun, hfit'.probed⟩
  have hf' : (s.modify i fun f => { f with reconnectTimer := none }).objects[i]? =
      some { f with reconnectTimer := none } :=
    getElem?_modify_some.2 ⟨f, hf, by rw [if_pos rfl]⟩
  obtain ⟨hcore', htended⟩ := connect_spec hcore hf' hno hsocket rfl hrun hbridge throws
  have honly : Only i s (s.modify i fun f => { f with reconnectTimer := none }) :=
    .modify i fun _ => ⟨rfl, rfl⟩
  exact hs.of_only (honly.trans (connect_only _ throws i)) hcore' htended

/-- A socket is terminated, and other fields of an object may change. -/
theorem Inv.terminate (hs : Inv m s) (k : ℕ) {g : HostFanout → HostFanout}
    (hg : ∀ f, (g f).hostId = f.hostId ∧ (g f).stopped = f.stopped ∧ (g f).socket = f.socket ∧
      (g f).reconnectTimer = f.reconnectTimer)
    (hfit : ∀ f : HostFanout, s.objects[i]? = some f → Fit m (g f)) :
    Inv m ((s.modify i g).closeSocket k) := by
  have hcore := (hs.toCore.modify (fun f => ⟨(hg f).1, (hg f).2.1, (hg f).2.2.1⟩) hfit).closeSocket
    k
  refine hs.of_only ((Only.modify i fun f => ⟨(hg f).1, (hg f).2.1⟩).sockets _) hcore
    fun f hf hno => ?_
  obtain ⟨f₀, h₀, rfl⟩ := getElem?_modify_some.1 hf
  rw [if_pos rfl] at hno ⊢
  obtain ⟨hhost, hstopped, hsocket, htimer⟩ := hg f₀
  have htended := hs.tended i f₀ h₀ (hstopped ▸ hno)
  unfold Tended Parked at htended ⊢
  rw [hhost, hsocket, htimer]
  exact htended

theorem Inv.onOpen (hs : Inv m s) {w : Socket Frame Item} (hw : s.sockets[k]? = some w)
    (hready : w.readyState = .connecting) : Inv m (s.onOpen k w) := by
  have honly : Only w.fanout s (s.modify w.fanout fun f =>
      { f with connectTimeoutTimer := none, attempt := 0, unsupported := false }) :=
    .modify w.fanout fun _ => ⟨rfl, rfl⟩
  refine hs.of_only (honly.sockets _) (hs.toCore.onOpen hw hready) fun f hf hno => ?_
  obtain ⟨f₀, h₀, rfl⟩ := getElem?_modify_some.1 hf
  rw [if_pos rfl] at hno ⊢
  exact hs.tended _ f₀ h₀ hno

theorem Inv.onFrame (hs : Inv m s) {w : Socket Frame Item} (hw : s.sockets[k]? = some w)
    (hopen : w.readyState ≠ .closed) (x : Frame) : Inv m (s.onFrame m k w x) := by
  have hcore := hs.toCore.onFrame hw hopen (fun hstopped i f hf => by
    cases hno : f.stopped with
    | true => rfl
    | false => exact absurd ((hs.running hf hno).1.symm.trans hstopped) nofun) x
  have hsame : ∃ sockets log, s.onFrame m k w x = { s with sockets := sockets, log := log } := by
    unfold State.onFrame
    dsimp only
    split
    · exact ⟨_, _, rfl⟩
    · split
      · exact ⟨_, _, rfl⟩
      · split <;> exact ⟨_, _, rfl⟩
  obtain ⟨sockets, log, hsame⟩ := hsame
  rw [hsame] at hcore ⊢
  exact { hs with toCore := hcore }

theorem Inv.onClose (hs : Inv m s) {w : Socket Frame Item} (hw : s.sockets[k]? = some w)
    (hopen : w.readyState ≠ .closed) : Inv m (s.onClose k w) := by
  have honly : Only w.fanout s (s.modify w.fanout fun f =>
      { f with connectTimeoutTimer := none, socket := none }) :=
    .modify w.fanout fun _ => ⟨rfl, rfl⟩
  have hwhole := (honly.sockets (s.sockets.modify k fun w =>
    { w with readyState := .closed })).trans (scheduleReconnect_only _ w.fanout)
  refine hs.of_only hwhole (hs.toCore.onClose hw hopen) fun f hf hno => ?_
  obtain ⟨f₀, h₀, -⟩ := hs.owned k w hw
  refine scheduleReconnect_tended ?_ f hf hno
  obtain ⟨f', hf', -, hstopped⟩ := hwhole.same f₀ h₀
  rw [show f' = f from Option.some.inj (hf'.symm.trans hf)] at hstopped
  exact (hs.running h₀ (hstopped ▸ hno)).1

/-- What one step does to the streams. -/
theorem Inv.step (hs : Inv m s) {e : Event Frame} (h : step m s e = some t) : Inv m t := by
  cases e with
  | hosts hosts =>
    cases h
    exact { hs with }
  | channelUp hostId carried reading throws =>
    cases h
    exact hs.channelUp hostId carried reading throws
  | channelClosed hostId =>
    cases h
    exact hs.channelClosed hostId
  | unbind hostId =>
    cases h
    exact hs.unbind hostId
  | trackBridge bridgeId reading throws =>
    cases h
    exact hs.bridgesChanged _ reading throws
  | bridgeClosed bridgeId reading throws =>
    cases h
    exact hs.bridgesChanged _ reading throws
  | reconcile force reading throws =>
    cases h
    exact hs.reconcile force reading throws
  | stop =>
    cases h
    exact hs.stop
  | reconnectTimer i throws =>
    unfold Fanout.step at h
    dsimp only at h
    split at h
    · next f hf =>
      split at h
      · cases h
      · next htimer =>
        cases h
        exact hs.reconnectTimer hf htimer throws
    · cases h
  | connectTimeout i =>
    unfold Fanout.step at h
    dsimp only at h
    split at h
    · split at h
      · cases h
        refine hs.terminate _ (fun _ => ⟨rfl, rfl, rfl, rfl⟩) fun f hf => ?_
        have hfit := hs.fit i f hf
        exact ⟨hfit.quiet, hfit.single, hfit.patient, hfit.probed⟩
      · cases h
    · cases h
  | unexpectedResponse k statusCode =>
    unfold Fanout.step at h
    dsimp only at h
    split at h
    · next w hw =>
      split at h
      · next hcond =>
        cases h
        refine hs.terminate k (fun _ => ⟨rfl, rfl, rfl, rfl⟩) fun f hf => ?_
        have hfit := hs.fit w.fanout f hf
        rw [Bool.and_eq_true] at hcond
        exact ⟨hfit.quiet, hfit.single, hfit.patient, fun _ => hcond.1⟩
      · cases h
    · cases h
  | opened k =>
    unfold Fanout.step at h
    dsimp only at h
    split at h
    · next w hw =>
      split at h
      · next hready =>
        cases h
        exact hs.onOpen hw hready
      · cases h
    · cases h
  | frame k x =>
    unfold Fanout.step at h
    dsimp only at h
    split at h
    · next w hw =>
      split at h
      · next hready =>
        cases h
        refine hs.onFrame hw (fun hclosed => ?_) x
        rw [hclosed] at hready
        exact hready.elim nofun nofun
      · cases h
    · cases h
  | closed k =>
    unfold Fanout.step at h
    dsimp only at h
    split at h
    · next w hw =>
      split at h
      · cases h
      · next hopen =>
        cases h
        exact hs.onClose hw hopen
    · cases h

theorem inv_start (m : Stream Frame Item) (hosts : List Host) :
    Inv m (State.start hosts : State Frame Item) where
  fit := nofun
  held := nofun
  owned := nofun
  listed := nofun
  agreed := nofun
  ordered := nofun
  part := nofun
  whole := nofun
  ledger _ := rfl
  current := nofun
  tended := nofun
  ended := nofun
  bridged _ _ _ := rfl
  wanted _ h := absurd rfl h
  opened _ h := by cases h

/-! ## The streams to the hosts -/

/-- A stream that is up or on its way. -/
def Socket.Live (w : Socket Frame Item) : Prop :=
  w.readyState = .connecting ∨ w.readyState = .open

/-- What the primary has of streams of one kind. -/
structure Links (m : Stream Frame Item) (s : State Frame Item) : Prop where
  /-- there is at most one to a host -/
  single : ∀ (k k' : ℕ) (w w' : Socket Frame Item), s.sockets[k]? = some w →
    s.sockets[k']? = some w' → w.Live → w'.Live → w.hostId = w'.hostId → k = k'
  /-- and only to a host that is wanted, while something wants it -/
  wanted : ∀ (k : ℕ) (w : Socket Frame Item), s.sockets[k]? = some w → w.Live →
    w.hostId ∈ s.desired ∧ s.stopped = false ∧
      (m.needsBridge = true → s.app.connectedBridges ≠ [])
  /-- a wanted host has a socket whose end will be heard of, or a timer is armed for it, or its
  channel is down -/
  tended : s.stopped = false → s.complete = true → ∀ hostId ∈ s.desired, ∃ i f,
    s.fanouts.lookup hostId = some i ∧ s.objects[i]? = some f ∧ f.hostId = hostId ∧
      ((∃ k w, f.socket = some k ∧ s.sockets[k]? = some w ∧ w.readyState ≠ .closed) ∨
        (∃ delay, f.reconnectTimer = some delay ∧
          (delay ≤ 30000 ∨ m.probes = true ∧ delay = UNSUPPORTED_RETRY_MS)) ∨
        Parked s hostId)
  /-- a live stream hands on all that comes in, any other a part from its beginning -/
  served : ∀ (k : ℕ) (w : Socket Frame Item), s.sockets[k]? = some w →
    w.served <+: w.arrived.filterMap m.read ∧ (w.Live → w.served = w.arrived.filterMap m.read)
  /-- and nothing of one stream comes after something of a later one -/
  inOrder : ∀ hostId, (s.log.filter fun e => e.1 = hostId).map Prod.snd =
    (s.sockets.filter fun w => w.hostId = hostId).flatMap Socket.served

/-- The object of a live stream. -/
theorem Core.live (hs : Core m s) {w : Socket Frame Item} (hw : s.sockets[k]? = some w)
    (hlive : w.Live) : ∃ f, s.objects[w.fanout]? = some f ∧ f.hostId = w.hostId ∧
      f.socket = some k ∧ f.stopped = false := by
  obtain ⟨f, hf, hhost, hclosed | hsocket | ⟨-, hclosing⟩⟩ := hs.owned k w hw
  · rw [Socket.Live, hclosed] at hlive
    exact hlive.elim nofun nofun
  · refine ⟨f, hf, hhost, hsocket, ?_⟩
    cases hstopped : f.stopped with
    | false => rfl
    | true =>
      rw [((hs.fit _ f hf).quiet hstopped).1] at hsocket
      cases hsocket
  · rw [Socket.Live, hclosing] at hlive
    exact hlive.elim nofun nofun

theorem Inv.links (hs : Inv m s) : Links m s where
  single k k' w w' hw hw' hlive hlive' hhost := by
    obtain ⟨f, hf, hhost₁, hsocket, hno⟩ := hs.live hw hlive
    obtain ⟨f', hf', hhost₂, hsocket', hno'⟩ := hs.live hw' hlive'
    have hlisted := hs.listed _ f hf hno
    rw [hhost₁, hhost, ← hhost₂, hs.listed _ f' hf' hno'] at hlisted
    rw [Option.some.inj hlisted, hf] at hf'
    cases hf'
    rw [hsocket] at hsocket'
    exact Option.some.inj hsocket'
  wanted k w hw hlive := by
    obtain ⟨f, hf, hhost, -, hno⟩ := hs.live hw hlive
    refine ⟨hs.wanted _ ?_, hs.running hf hno⟩
    rw [← hhost, hs.listed _ f hf hno]
    exact nofun
  tended hrun hcomplete hostId hmem := by
    obtain ⟨i, hi⟩ := Option.ne_none_iff_exists'.1 (hs.opened hrun hcomplete hostId hmem)
    obtain ⟨f, hf, hhost, hno⟩ := hs.current hostId i hi
    refine ⟨i, f, hi, hf, hhost, ?_⟩
    rcases hs.tended i f hf hno with hsocket | htimer | hparked
    · obtain ⟨k, hk⟩ := Option.ne_none_iff_exists'.1 hsocket
      obtain ⟨w, hw, -, hopen⟩ := hs.held i f k hf hk
      exact .inl ⟨k, w, hk, hw, hopen⟩
    · obtain ⟨delay, hdelay⟩ := Option.ne_none_iff_exists'.1 htimer
      exact .inr (.inl ⟨delay, hdelay, (hs.fit i f hf).patient delay hdelay⟩)
    · exact .inr (.inr (hhost ▸ hparked))
  served k w hw := by
    refine ⟨hs.part k w hw, fun hlive => ?_⟩
    obtain ⟨f, hf, -, -, hno⟩ := hs.live hw hlive
    exact hs.whole k w f hw hf hno
  inOrder hostId := by
    rw [hs.ledger hostId, State.ledger, List.filter_map, List.flatMap_map]
    rfl

theorem links_along (m : Stream Frame Item) (hosts : List Host) (es : List (Event Frame)) :
    Run.Along (step m) (Links m) (.start hosts) es :=
  Run.along_of_invariant (fun _ _ _ hs _ h => hs.step h) (fun _ hs => hs.links)
    (inv_start m hosts) (Run.Meets.of_forall (fun _ _ => trivial) _ _)

/-- **Every wanted host is tended, by one stream.** In every state of every run, for each of the
three kinds of streams. -/
theorem links_kept (parse : List UInt8 → Option Value) (hosts : List Host)
    (events : List (Event Message)) (channels channels' : List (Event ℕ)) :
    Run.Along (step (remoteEventSubscriber parse)) (Links (remoteEventSubscriber parse))
      (.start hosts) events ∧
    Run.Along (step sshAgentFanout) (Links sshAgentFanout) (.start hosts) channels ∧
    Run.Along (step controlRelayFanout) (Links controlRelayFanout) (.start hosts) channels' :=
  ⟨links_along _ hosts events, links_along _ hosts channels, links_along _ hosts channels'⟩

end Fanout
end Mullion
