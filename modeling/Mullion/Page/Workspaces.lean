import Mathlib.Data.Finset.Basic
import Mullion.Lib.Run

/-!
# Saving workspace layouts

`useWorkspacePersistence` (`frontend/src/hooks/useWorkspacePersistence.ts`): one grid on the page, a
saved layout for each workspace, and a save that is scheduled for a workspace but reads the grid
only when it is made. In between the page may have gone to another workspace. A save should be
`Owned`: it stores the layout that was last put into the grid for that workspace, with the edits
made to it since, and it is of no workspace that was left to a phone.

The effects, handlers and timers of the hook come in any order (`step`). The ghost `Shown` has what
was put into the grid and the edits, and `Inv` ties the hook's own variables to it: the grid is what
`Shown` says, a save is pending only for the workspace that is restored, and a workspace touched on
a phone is marked. The functions of the hook keep that one by one. The steps that do not are those
that file an edit while the grid shows another workspace (`InStep` rules them out), and one of them
is `row_of_unloaded_workspace_overwritten`. `saves_owned` is the result for every run in step.
-/

namespace Mullion
namespace Workspaces

open Run

inductive LayoutTier
  | phone
  | tablet
  | desktop
  deriving DecidableEq, Repr

structure Workspace (L : Type) where
  id : ℕ
  layout : Option L
  deriving DecidableEq, Repr

/-- The grid and the sweeps over it: a saved layout is put into a cleared grid in a world of
sessions and devices (the flag: some panel was closed), presented for a tier, and read out. -/
structure Dock (W G L : Type) where
  rebuild : W → Option L → G × Bool
  applyLayoutPresentation : LayoutTier → G → G
  serializeForPersist : G → L
  stringify : L → String

/-- The workspace last put into the grid, and what was done to the grid since. -/
structure Shown (W G L : Type) where
  workspace : Workspace L
  world : W
  tier : LayoutTier
  edits : List (G → G)

/-- `saveWorkspaceLayout`, with what the grid showed and whether the workspace was left to a
phone when it was called. -/
structure Save (W G L : Type) where
  workspaceId : ℕ
  layout : L
  shown : Option (Shown W G L)
  suspended : Bool

/-- `UseWorkspacePersistenceParams`. -/
structure Params (L : Type) where
  dockviewApi : Bool := false
  activeWorkspaceId : Option ℕ := none
  workspaces : List (Workspace L) := []
  layoutTier : LayoutTier := .desktop
  deriving DecidableEq, Repr

structure State (W G L : Type) where
  params : Params L := {}
  tierNow : LayoutTier := .desktop
  grid : G
  restoring : Bool := false
  pendingSave : Option ℕ := none
  restoredWorkspaceId : Option ℕ := none
  lastPersisted : ℕ → Option String := fun _ => none
  phoneTouched : Finset ℕ := ∅
  /-- The zero-delay callbacks of the restores, first to run first. -/
  callbacks : List (ℕ × Bool) := []
  saves : List (Save W G L) := []
  shown : Option (Shown W G L) := none
  /-- The workspaces restored or edited at phone tier and not restored or lifted since. -/
  touched : Finset ℕ := ∅

variable {W G L : Type} (dock : Dock W G L)

/-- What the grid should hold. -/
def Shown.grid (shown : Shown W G L) : G :=
  shown.edits.foldl (fun grid edit => edit grid)
    (dock.applyLayoutPresentation shown.tier (dock.rebuild shown.world shown.workspace.layout).1)

namespace State

def isPhoneTierNow (s : State W G L) : Bool := s.tierNow = .phone

def persistIfChanged (s : State W G L) (workspaceId : ℕ) : State W G L :=
  if s.isPhoneTierNow then { s with phoneTouched := insert workspaceId s.phoneTouched }
  else if workspaceId ∈ s.phoneTouched then s
  else
    let serialized := dock.serializeForPersist s.grid
    let json := dock.stringify serialized
    if s.lastPersisted workspaceId = some json then s
    else
      { s with
        lastPersisted := Function.update s.lastPersisted workspaceId (some json)
        saves := s.saves ++ [⟨workspaceId, serialized, s.shown, workspaceId ∈ s.touched⟩] }

/-- Also what the timer does. -/
def flushPendingSave (s : State W G L) : State W G L :=
  match s.pendingSave with
  | none => s
  | some workspaceId => persistIfChanged dock { s with pendingSave := none } workspaceId

def scheduleSave (s : State W G L) (workspaceId : ℕ) : State W G L :=
  { s with pendingSave := some workspaceId }

/-- The taint of a workspace that is being restored. -/
def mark (s : State W G L) (workspaceId : ℕ) : State W G L :=
  if s.isPhoneTierNow then
    { s with
      phoneTouched := insert workspaceId s.phoneTouched
      touched := insert workspaceId s.touched }
  else
    { s with
      phoneTouched := s.phoneTouched.erase workspaceId
      touched := s.touched.erase workspaceId }

/-- The workspace's layout replaces what the grid holds. -/
def replace (s : State W G L) (workspace : Workspace L) (world : W) : State W G L :=
  { s with
    restoring := true
    grid := dock.applyLayoutPresentation s.params.layoutTier
      (dock.rebuild world workspace.layout).1
    callbacks := s.callbacks ++ [(workspace.id, (dock.rebuild world workspace.layout).2)]
    restoredWorkspaceId := some workspace.id
    shown := some ⟨workspace, world, s.params.layoutTier, []⟩ }

/-- The restore effect. -/
def restore (s : State W G L) (world : W) : State W G L :=
  match s.params.dockviewApi, s.params.activeWorkspaceId with
  | true, some activeWorkspaceId =>
    if s.restoredWorkspaceId = some activeWorkspaceId then s
    else
      match s.params.workspaces.find? (·.id = activeWorkspaceId) with
      | none => s
      | some workspace =>
        -- the outgoing workspace is saved before its layout is torn down
        replace dock (flushPendingSave dock (mark s workspace.id)) workspace world
  | _, _ => s

/-- The subscription to `onDidLayoutChange`. -/
def onDidLayoutChange (s : State W G L) : State W G L :=
  if s.restoring then s
  else
    match s.params.activeWorkspaceId with
    | none => s
    | some workspaceId => s.scheduleSave workspaceId

/-- A panel is opened, closed or moved. -/
def edit (s : State W G L) (f : G → G) : State W G L :=
  { s with
    grid := f s.grid
    shown := s.shown.map fun shown => { shown with edits := shown.edits ++ [f] }
    touched := match s.tierNow, s.shown with
      | .phone, some shown => insert shown.workspace.id s.touched
      | _, _ => s.touched }

/-- The callback of the oldest restore that is still waiting. -/
def settle (s : State W G L) : Option (State W G L) :=
  match s.callbacks with
  | [] => none
  | (workspaceId, closed) :: callbacks =>
    let s := { s with restoring := false, callbacks := callbacks }
    some (if closed then s.scheduleSave workspaceId else s)

def liftPhoneTaint (s : State W G L) : State W G L :=
  match s.params.activeWorkspaceId with
  | none => s
  | some workspaceId =>
    { s with
      phoneTouched := s.phoneTouched.erase workspaceId
      touched := s.touched.erase workspaceId }

end State

open State

/-- What happens to the page. A switch, a load of the list and a new `layoutTier` are renders with
new parameters; the change events of an edit come later, or not at all. -/
inductive Label (W G L : Type)
  | render (params : Params L) (world : W)
  | edit (f : G → G)
  | change
  | settle
  | timer
  | tier (tier : LayoutTier)
  | lift

def step (s : State W G L) : Label W G L → Option (State W G L)
  | .render params world => some (restore dock { s with params := params } world)
  | .edit f => some (s.edit f)
  | .change => if s.params.dockviewApi then some s.onDidLayoutChange else none
  | .settle => s.settle
  | .timer => if s.pendingSave.isSome then some (flushPendingSave dock s) else none
  | .tier tier => some { s with tierNow := tier }
  | .lift => some s.liftPhoneTaint

/-! ## What is promised -/

/-- The layout saved is the one shown for the workspace, with the edits since, and the workspace
is not left to a phone. -/
def Save.Owned (save : Save W G L) : Prop :=
  save.suspended = false ∧ ∃ shown, save.shown = some shown ∧
    shown.workspace.id = save.workspaceId ∧
    save.layout = dock.serializeForPersist (shown.grid dock)

def SavesOwned (s : State W G L) : Prop := ∀ save ∈ s.saves, save.Owned dock

/-- A change that will be saved for the active workspace comes while that one is restored, the
callback of a restore that closed panels comes before another restore, and the phone tier is left
when every workspace it touched is marked. -/
def InStep (s : State W G L) : Label W G L → Prop
  | .change => s.restoring = false → s.params.activeWorkspaceId ≠ none →
      s.restoredWorkspaceId = s.params.activeWorkspaceId
  | .settle => ∀ c ∈ s.callbacks.take 1, c.2 = true → s.restoredWorkspaceId = some c.1
  | .tier tier => s.tierNow = .phone → tier ≠ .phone → s.touched ⊆ s.phoneTouched
  | _ => True

instance : ∀ (s : State W G L) (a : Label W G L), Decidable (InStep s a)
  | _, .change => inferInstanceAs (Decidable (_ → _ → _))
  | s, .settle => inferInstanceAs (Decidable (∀ c ∈ s.callbacks.take 1, _ → _))
  | s, .tier _ => inferInstanceAs (Decidable (_ → _ → s.touched ⊆ s.phoneTouched))
  | _, .render .. | _, .edit _ | _, .timer | _, .lift => isTrue trivial

/-! ## The invariant -/

structure Inv (s : State W G L) : Prop where
  grid : ∀ shown, s.shown = some shown → s.grid = shown.grid dock
  shown : s.shown.map (fun shown => shown.workspace.id) = s.restoredWorkspaceId
  pending : ∀ w, s.pendingSave = some w → s.restoredWorkspaceId = some w
  taint : s.tierNow ≠ .phone → s.touched ⊆ s.phoneTouched
  saves : SavesOwned dock s

variable {dock}

/-- A save of the workspace that is restored. -/
theorem Inv.persistIfChanged {s : State W G L} (h : Inv dock s) {w : ℕ}
    (hw : s.restoredWorkspaceId = some w) : Inv dock (s.persistIfChanged dock w) := by
  rw [State.persistIfChanged]
  split
  case isTrue hphone =>
    exact { h with
      taint := fun hne => absurd (of_decide_eq_true hphone) hne }
  case isFalse hphone =>
    have hne : s.tierNow ≠ .phone := fun hn => hphone (decide_eq_true hn)
    split
    case isTrue => exact h
    case isFalse hmark =>
      dsimp only
      split
      case isTrue => exact h
      case isFalse =>
        refine { h with saves := fun save hsave => ?_ }
        rcases List.mem_append.1 hsave with hsave | hsave
        · exact h.saves save hsave
        · obtain ⟨shown, hshown, hid⟩ : ∃ shown, s.shown = some shown ∧ shown.workspace.id = w := by
            simpa using h.shown.trans hw
          cases List.mem_singleton.1 hsave
          refine ⟨decide_eq_false fun hmem => hmark (h.taint hne hmem), shown, hshown, hid, ?_⟩
          rw [h.grid shown hshown]

theorem Inv.flushPendingSave {s : State W G L} (h : Inv dock s) :
    Inv dock (s.flushPendingSave dock) := by
  rw [State.flushPendingSave]
  split
  case h_1 => exact h
  case h_2 w hw =>
    apply Inv.persistIfChanged (s := { s with pendingSave := none })
    · exact { h with pending := fun _ hp => by cases hp }
    · exact h.pending w hw

theorem pendingSave_persistIfChanged (s : State W G L) (w : ℕ) :
    (s.persistIfChanged dock w).pendingSave = s.pendingSave := by
  rw [State.persistIfChanged]
  split
  · rfl
  · split
    · rfl
    · dsimp only
      split <;> rfl

theorem pendingSave_flushPendingSave (s : State W G L) :
    (s.flushPendingSave dock).pendingSave = none := by
  rw [State.flushPendingSave]
  split
  case h_1 h => exact h
  case h_2 => exact pendingSave_persistIfChanged _ _

theorem Inv.scheduleSave {s : State W G L} (h : Inv dock s) {w : ℕ}
    (hw : s.restoredWorkspaceId = some w) : Inv dock (s.scheduleSave w) :=
  { h with
    pending := by
      rintro w' hw'
      cases hw'
      exact hw }

theorem Inv.mark {s : State W G L} (h : Inv dock s) (w : ℕ) : Inv dock (s.mark w) := by
  rw [State.mark]
  split
  case isTrue => exact { h with taint := fun hne => Finset.insert_subset_insert w (h.taint hne) }
  case isFalse => exact { h with taint := fun hne => Finset.erase_subset_erase w (h.taint hne) }

theorem Inv.replace {s : State W G L} (h : Inv dock s) (hp : s.pendingSave = none)
    (workspace : Workspace L) (world : W) : Inv dock (s.replace dock workspace world) :=
  { h with
    grid := by
      rintro shown hshown
      cases hshown
      rfl
    shown := rfl
    pending := by
      rintro w hw
      cases hp.symm.trans hw }

theorem Inv.restore {s : State W G L} (h : Inv dock s) (world : W) :
    Inv dock (s.restore dock world) := by
  rw [State.restore]
  split
  case h_2 => exact h
  case h_1 activeWorkspaceId _ _ =>
    split
    case isTrue => exact h
    case isFalse =>
      split
      case h_1 => exact h
      case h_2 workspace _ =>
        exact (h.mark workspace.id).flushPendingSave.replace (pendingSave_flushPendingSave _)
          workspace world

theorem Inv.edit {s : State W G L} (h : Inv dock s) (f : G → G) : Inv dock (s.edit f) where
  grid := by
    rintro shown hshown
    obtain ⟨old, hold, rfl⟩ := Option.map_eq_some_iff.1 hshown
    show f s.grid = _
    rw [h.grid old hold, Shown.grid, Shown.grid, List.foldl_append]
    rfl
  shown := by
    rw [← show s.restoredWorkspaceId = (s.edit f).restoredWorkspaceId from rfl, ← h.shown,
      State.edit, Option.map_map]
    rfl
  pending := h.pending
  taint := by
    intro hne
    rw [State.edit] at hne ⊢
    dsimp only at hne ⊢
    split
    case h_1 hphone _ => exact absurd hphone hne
    case h_2 => exact h.taint hne
  saves := h.saves

theorem Inv.liftPhoneTaint {s : State W G L} (h : Inv dock s) : Inv dock s.liftPhoneTaint := by
  rw [State.liftPhoneTaint]
  split
  case h_1 => exact h
  case h_2 w _ => exact { h with taint := fun hne => Finset.erase_subset_erase w (h.taint hne) }

/-- **One step** that comes while the grid shows the right workspace keeps the invariant. -/
theorem Inv.step {s s' : State W G L} {a : Label W G L} (h : Inv dock s) (hin : InStep s a)
    (hs : step dock s a = some s') : Inv dock s' := by
  cases a with
  | render params world =>
    cases hs
    exact Inv.restore (s := { s with params := params }) { h with } world
  | edit f =>
    cases hs
    exact h.edit f
  | change =>
    rw [Workspaces.step] at hs
    split at hs
    case isFalse => cases hs
    case isTrue =>
      cases hs
      rw [onDidLayoutChange]
      split
      case isTrue => exact h
      case isFalse hrest =>
        split
        case h_1 => exact h
        case h_2 w hw =>
          have hactive : s.params.activeWorkspaceId ≠ none := by simp [hw]
          exact h.scheduleSave ((hin (Bool.eq_false_of_not_eq_true hrest) hactive).trans hw)
  | settle =>
    rw [Workspaces.step, State.settle] at hs
    split at hs
    case h_1 => cases hs
    case h_2 w closed callbacks hc =>
      cases hs
      have hsettled : Inv dock { s with restoring := false, callbacks := callbacks } := { h with }
      split
      case isTrue hclosed =>
        exact hsettled.scheduleSave (hin (w, closed) (by simp [hc]) hclosed)
      case isFalse => exact hsettled
  | timer =>
    rw [Workspaces.step] at hs
    split at hs
    case isFalse => cases hs
    case isTrue =>
      cases hs
      exact h.flushPendingSave
  | tier tier =>
    cases hs
    refine { h with taint := fun hne => ?_ }
    by_cases hphone : s.tierNow = .phone
    · exact hin hphone hne
    · exact h.taint hphone
  | lift =>
    cases hs
    exact h.liftPhoneTaint

/-! ## The result -/

/-- A page that was just opened. -/
def start (tier : LayoutTier) (grid : G) : State W G L := { grid := grid, tierNow := tier }

theorem Inv.start (tier : LayoutTier) (grid : G) :
    Inv dock (Workspaces.start tier grid : State W G L) where
  grid := fun _ h => by cases h
  shown := rfl
  pending := fun _ h => by cases h
  taint := fun _ => Finset.Subset.refl ∅
  saves := fun _ h => absurd h List.not_mem_nil

/-- **A row receives its own layout.** -/
theorem saves_owned (dock : Dock W G L) (tier : LayoutTier) (grid : G) (labels : List (Label W G L))
    (hin : Meets (step dock) InStep (start tier grid) labels) :
    Along (step dock) (SavesOwned dock) (start tier grid) labels :=
  along_of_invariant (fun _ _ _ h hin hs => h.step hin hs) (fun _ h => h.saves)
    (Inv.start tier grid) hin

/-- A grid that is a number, saved as it is. -/
def plainDock : Dock Unit ℕ ℕ where
  rebuild _ layout := (layout.getD 0, false)
  applyLayoutPresentation _ grid := grid
  serializeForPersist grid := grid
  stringify layout := Nat.repr layout

/-- The parameters of a page with one loaded workspace. -/
def viewing (workspaceId : ℕ) : Params ℕ where
  dockviewApi := true
  activeWorkspaceId := some workspaceId
  workspaces := [⟨1, some 7⟩]

/-- Workspace 1 is restored, edited and saved. -/
theorem saves_owned_of_edit :
    Along (step plainDock) (SavesOwned plainDock) (start .desktop 0)
      [.render (viewing 1) (), .settle, .edit (· + 1), .change, .timer] :=
  saves_owned plainDock .desktop 0 _ (by decide)

/-- Workspace 1 is on the page, the page goes to workspace 2, which is not in the list yet, a
panel is moved, and the layout of workspace 1 is saved as that of workspace 2. -/
theorem row_of_unloaded_workspace_overwritten :
    ¬ ∀ labels, Along (step plainDock) (SavesOwned plainDock) (start .desktop 0) labels := by
  intro h
  have hrun := h [.render (viewing 1) (), .settle, .render (viewing 2) (), .edit (· + 1), .change,
    .timer]
  have hsave := hrun.last rfl _ (List.mem_singleton.2 rfl)
  obtain ⟨-, shown, hshown, hid, -⟩ := hsave
  cases hshown
  exact absurd hid (by decide)

end Workspaces
end Mullion
