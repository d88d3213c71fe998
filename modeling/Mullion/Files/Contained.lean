import Mullion.Files.ProjectFiles

/-!
# Project files stay inside the project

A request names a path in a project, and links lie about in the tree.  Can it change or show
anything outside?  Is a request that fails without effect, and does one that makes something new
replace nothing?

`contained` says so of every request, root and tree in which no link's text has a `..` behind the
name of a link; without the condition `realpathExistingPrefix` takes a link that the kernel follows
for a name that is not there, and a directory is made outside (the last example).  First the path
of the request: where it is resolved to, a call acts there or on a link or a pipe (`Resolves`), so
what is acted upon lies below the place to which the root leads (`Inside`).  Then every operation
is done or changes nothing (`Atomically`), from the calls that it makes; the folders of an upload
are made one by one, and the tree that each leaves has the same links and the same root
(`Folders`).  What a search meets lies below where it began, for as long as it goes on
(`searchFrom_below`).
-/

namespace Mullion
namespace Files

open FileTree DirTree

variable {os : Os} {t t' : Fs} {root relPath : Name}

/-! ## Places in the project -/

/-- Where the root of the project leads. -/
structure RealRoot (t : Fs) (root : Name) (realRoot : Place) : Prop where
  leads : ∃ links, t.walk links [] ((resolve [] root).map .into) = .ok realRoot
  notPipe : t.entry realRoot ≠ some (.file .pipe)

/-- A place below the real root of the project; the root itself may only be meant if it is no
directory. -/
def Inside (t : Fs) (root : Name) (place : Place) : Prop :=
  ∃ realRoot, RealRoot t root realRoot ∧ realRoot <+: place ∧
    (t.entry realRoot = some .dir → place ≠ realRoot)

/-- What a path of a request is resolved to. -/
structure Resolves (t : Fs) (root : Name) (realRoot real : Place) : Prop where
  answers : Answers t (resolve [] root) (.ok realRoot)
  inside : isInside realRoot real = true
  reached : Reached t real

theorem resolveInProject_spec (hstraight : t.Straight) {allowRoot : Bool} {resolved : Resolved}
    (h : resolveInProject os t root relPath allowRoot = .ok resolved) :
    Resolves t root resolved.realRoot resolved.real := by
  unfold resolveInProject at h
  split at h
  · cases h
  · split at h
    · cases h
    · next realRoot hroot =>
      have hanswers : Answers t (resolve [] root) (realpathSync os t (resolve [] root)) :=
        realpathSync_spec hstraight _
      rw [hroot] at hanswers
      split at h
      · cases h
      · dsimp only at h
        split at h
        · cases h
        · split at h
          · cases h
          · cases h
          · cases h
          · next contained hcontained =>
            split at h
            · next hinside =>
              cases h
              exact ⟨hanswers, hinside,
                (realpathExistingPrefix_spec hstraight hcontained).reached⟩
            · cases h

/-- What is there and is no pipe is behind no pipe. -/
theorem not_passes {place : Place} {entry : Entry Name Content} (h : t.entry place = some entry)
    (hstuck : ¬ Stuck entry) : ¬ Passes t [] place := by
  have hlink : entry.isLink = false := Bool.eq_false_of_not_eq_true fun hlink => hstuck (.inl hlink)
  intro hpass
  have hwalk : t.walk 0 [] (place.map .into) = .ok place := walk_solid ⟨entry, h, hlink⟩
  have hpipe := hpass.found hwalk
  rw [h] at hpipe
  exact hstuck (.inr (Option.some.inj hpipe))

theorem not_stuck_dir : ¬ Stuck .dir := by
  rintro (h | h)
  · cases h
  · cases h

theorem not_stuck_regular {bytes : List UInt8} {mtimeMs : ℕ} :
    ¬ Stuck (.file (.regular bytes mtimeMs)) := by
  rintro (h | h)
  · cases h
  · cases h

section Resolves

variable {realRoot real : Place} {name : Name}

/-- The root is real, if something below it is behind no pipe. -/
theorem Resolves.leads {place : Place} (h : Resolves t root realRoot real)
    (hpre : real <+: place) (hclear : ¬ Passes t [] place) : RealRoot t root realRoot := by
  obtain ⟨rest, rfl⟩ := (prefix_of_isInside h.inside).trans hpre
  rcases h.answers with ⟨hsolid, hleads⟩ | ⟨-, hpass⟩
  · exact ⟨hleads, fun hpipe => hclear ((Passes.of_pipe hsolid hpipe).append rest)⟩
  · exact absurd (hpass.append rest) hclear

theorem Resolves.isInside {place : Place} (h : Resolves t root realRoot real)
    (hpre : real <+: place) (hclear : ¬ Passes t [] place) (hdir : t.entry place ≠ some .dir) :
    Inside t root place := by
  refine ⟨realRoot, h.leads hpre hclear, (prefix_of_isInside h.inside).trans hpre,
    fun hrootDir heq => ?_⟩
  rw [heq] at hdir
  exact hdir hrootDir

/-- A regular file is behind no pipe. -/
theorem Resolves.isInside_regular {place : Place} {bytes : List UInt8} {mtimeMs : ℕ}
    (h : Resolves t root realRoot real) (hpre : real <+: place)
    (hentry : t.entry place = some (.file (.regular bytes mtimeMs))) : Inside t root place :=
  h.isInside hpre (not_passes hentry not_stuck_regular) (by rw [hentry]; exact nofun)

/-- A name in a directory of the project is a place in it. -/
theorem Resolves.below (h : Resolves t root realRoot real) (hdir : t.entry real = some .dir) :
    Inside t root (real ++ [name]) := by
  have hpre := prefix_of_isInside h.inside
  refine ⟨realRoot, h.leads (List.prefix_refl real) (not_passes hdir not_stuck_dir),
    hpre.trans (List.prefix_append _ _), fun _ heq => ?_⟩
  rw [← heq] at hpre
  have hle := hpre.length_le
  rw [List.length_append, List.length_singleton] at hle
  omega

end Resolves

/-- The entry that a path means. -/
structure Means (t : Fs) (root : Name) (entry : EntryRef) (real : Place) (name : Name) :
    Prop where
  abs : entry.abs = real ++ [name]
  resolves : Resolves t root entry.realRoot real

theorem resolveEntry_spec (hstraight : t.Straight) {entry : EntryRef}
    (h : resolveEntry os t root relPath = .ok entry) :
    ∃ real name, Means t root entry real name := by
  obtain ⟨lexical, hlexical, h⟩ := bind_ok.1 h
  have hresolves := resolveInProject_spec hstraight hlexical
  dsimp only at h
  split at h
  · cases h
  · split at h
    · cases h
    · cases h
      exact ⟨lexical.real, basename relPath, rfl, hresolves⟩

section Means

variable {entry : EntryRef} {real : Place} {name : Name}

theorem Means.direct (h : Means t root entry real name) : Direct os t entry.abs := by
  rw [h.abs]
  exact .below_reached h.resolves.reached

theorem Means.isInside (h : Means t root entry real name) (hheld : Held t entry.abs) :
    Inside t root entry.abs := by
  obtain ⟨dir, last, heq, hdir⟩ := hheld
  rw [h.abs] at heq ⊢
  rw [← (List.append_inj' heq rfl).1] at hdir
  exact h.resolves.below hdir

end Means

theorem update_ne {place p : Place} {entry : Option (Entry Name Content)}
    (h : Function.update t.entry place entry p ≠ t.entry p) : p = place := by
  by_contra hne
  rw [Function.update_of_ne hne] at h
  exact h rfl

/-! ## Done, or nothing is changed -/

/-- An operation is done, or it failed and changed nothing. -/
def Atomically {α : Type} (t : Fs) (Done : α → Fs → Prop) (outcome : Outcome α) : Prop :=
  match outcome.1 with
  | .ok value => Done value outcome.2
  | .error _ => outcome.2.entry = t.entry

theorem Atomically.attempt {α β : Type} {first : Except Failure α} {next : α → Outcome β}
    {Done : β → Fs → Prop} (h : ∀ value, first = .ok value → Atomically t Done (next value)) :
    Atomically t Done (attempt t first next) := by
  cases first with
  | ok value => exact h value rfl
  | error failure => rfl

theorem Atomically.error {α : Type} {Done : α → Fs → Prop} (failure : Failure) :
    Atomically t Done (.error failure, t) := rfl

theorem mapped_ok {α : Type} {rel : Place} {call : Except Errno α} {value : α}
    (h : mapped rel call = .ok value) : call = .ok value := by
  cases call with
  | ok value' =>
    cases h
    rfl
  | error errno => cases h

/-! ## Writes -/

/-- A file that is written where there was none, or over another. -/
structure Written (os : Os) (t : Fs) (root : Name) (bytes : List UInt8) (create : Bool)
    (place : Place) (t' : Fs) : Prop where
  inside : Inside t root place
  entry : t'.entry = Function.update t.entry place (some (.file (.regular bytes os.nowMs)))
  before : if create then t.entry place = none
    else ∃ content, t.entry place = some (.file content)

theorem assertFdInside_ok {place realRoot rel : Place} (h : isInside realRoot place = true) :
    assertFdInside os place realRoot rel = .ok () := by
  unfold assertFdInside
  rw [h]
  simp

/-- A new file is filled. -/
theorem writeOpened_new {resolved : Resolved} {place : Place} {old : List UInt8} {ms : ℕ}
    (bytes : List UInt8)
    (hinside : isInside resolved.realRoot place = true)
    (hentry : t.entry place = some (.file (.regular old ms))) :
    ∃ t', writeOpened os t resolved place bytes none = (.ok ⟨bytes.length, os.nowMs⟩, t') ∧
      t'.entry = Function.update t.entry place (some (.file (.regular bytes os.nowMs))) := by
  have hfill : ∃ t', fill os t place bytes = .ok t' := by
    unfold fill
    split
    · exact ⟨_, rfl⟩
    · next hnone => exact absurd hentry (hnone _)
  obtain ⟨t', hfill⟩ := hfill
  refine ⟨t', ?_, (fill_spec hfill).2⟩
  unfold writeOpened
  rw [assertFdInside_ok hinside]
  simp only [Files.attempt, hentry, Option.any_none, Bool.false_eq_true, if_false, hfill, mapped]

theorem write_spec (hstraight : t.Straight) (content : Name) (expected : Option ℕ)
    (create : Bool) :
    Atomically t (fun _ t' => ∃ place, Written os t root (Utf8.encode content) create place t')
      (writeProjectFile os t root relPath content expected create) := by
  unfold writeProjectFile
  dsimp only
  split
  · exact .error _
  · refine .attempt fun resolved hresolved => ?_
    have hresolves := resolveInProject_spec hstraight hresolved
    split
    · next hcreate =>
      refine .attempt fun (place, made) hnew => ?_
      obtain ⟨hleaf, -, hfree, hmade⟩ := openNew_spec (mapped_ok hnew)
      have hclear : ¬ Passes t [] resolved.real := by
        intro hpass
        obtain ⟨e, he, -⟩ := leaf_of_passes hpass hleaf
        rw [hfree] at he
        cases he
      have hplace : place = resolved.real := by
        rcases leaf_of_reached hresolves.reached hleaf with heq | ⟨e, he, -⟩
        · exact heq
        · rw [hfree] at he
          cases he
      rw [hplace] at hfree hmade ⊢
      have hentry : made.entry resolved.real = some (.file (.regular [] os.nowMs)) := by
        rw [hmade, Function.update_self]
      obtain ⟨t', hwrite, ht'⟩ :=
        writeOpened_new (Utf8.encode content) hresolves.inside hentry
      dsimp only
      rw [hwrite]
      refine ⟨resolved.real, hresolves.isInside (List.prefix_refl _) hclear
        (by rw [hfree]; exact nofun), ?_, ?_⟩
      · rw [ht', hmade, Function.update_idem]
      · rw [if_pos hcreate]
        exact hfree
    · next hcreate =>
      refine .attempt fun place hopen => ?_
      obtain rfl := openWrite_spec hresolves.reached (mapped_ok hopen)
      unfold writeOpened
      refine .attempt fun _ _ => ?_
      split
      · next old before hold =>
        split
        · exact .error _
        · refine .attempt fun written hwritten => ?_
          obtain ⟨hfile, hentry⟩ := fill_spec (mapped_ok hwritten)
          refine ⟨resolved.real, hresolves.isInside_regular (List.prefix_refl _) hold, hentry, ?_⟩
          rw [if_neg hcreate]
          exact hfile
      · exact .error _

/-! ## Directories, and removals -/

theorem mkdir_done (hstraight : t.Straight) :
    Atomically t (fun _ t' => ∃ place, Inside t root place ∧
        t.entry place = none ∧ t'.entry = Function.update t.entry place (some .dir))
      (makeProjectDir os t root relPath) := by
  refine .attempt fun entry hentry => .attempt fun made hmade => ?_
  obtain ⟨real, name, hmeans⟩ := resolveEntry_spec hstraight hentry
  obtain ⟨hheld, hfree, hnew⟩ := mkdir_spec hmeans.direct (mapped_ok hmade)
  exact ⟨entry.abs, hmeans.isInside hheld, hfree, hnew⟩

theorem delete_done (hstraight : t.Straight) :
    Atomically t (fun _ t' => ∃ place, Inside t root place ∧
        t'.entry = Function.update t.entry place none)
      (deleteProjectPath os t root relPath) := by
  refine .attempt fun entry hentry => .attempt fun found hfound => .attempt fun left hleft => ?_
  obtain ⟨real, name, hmeans⟩ := resolveEntry_spec hstraight hentry
  have hleft := mapped_ok hleft
  split at hleft
  · obtain ⟨hheld, hgone⟩ := rmdir_spec hmeans.direct hleft
    exact ⟨entry.abs, hmeans.isInside hheld, hgone⟩
  · obtain ⟨hheld, hgone⟩ := unlink_spec hmeans.direct hleft
    exact ⟨entry.abs, hmeans.isInside hheld, hgone⟩

/-! ## Renames -/

/-- All that was under one name is under another, where there was nothing. -/
structure Renamed (t : Fs) (root : Name) (t' : Fs) (source target : Place) : Prop where
  insideSource : Inside t root source
  insideTarget : Inside t root target
  free : t.entry target = none
  moved : ∀ rest, t'.entry (target ++ rest) = t.entry (source ++ rest)
  left : ∀ rest, t'.entry (source ++ rest) = none
  others : ∀ place, ¬ source <+: place → ¬ target <+: place → t'.entry place = t.entry place

theorem Renamed.of_move {source target : Place} (hs : Inside t root source)
    (ht : Inside t root target) (hfree : t.entry target = none)
    (hout : ¬ source <+: target) (hthere : t.entry source ≠ none)
    (hmove : ∀ place, t'.entry place =
      if target <+: place then t.entry (source ++ place.drop target.length)
      else if source <+: place then none
      else t.entry place) : Renamed t root t' source target where
  insideSource := hs
  insideTarget := ht
  free := hfree
  moved rest := by
    rw [hmove, if_pos (List.prefix_append _ _), List.drop_left]
  left rest := by
    rw [hmove]
    split
    · next hpre =>
      -- what is behind the new name and the old one is behind both
      rcases List.prefix_or_prefix_of_prefix hpre (List.prefix_append source rest) with hp | hp
      · obtain ⟨more, hmore⟩ := hp
        have hnone : t.entry source = none := by
          cases more with
          | nil =>
            rw [List.append_nil] at hmore
            exact hmore ▸ hfree
          | cons m more =>
            rw [← hmore]
            exact none_of_append (by rw [hfree]; exact nofun) (List.cons_ne_nil _ _)
        exact absurd hnone hthere
      · exact absurd hp hout
    · rw [if_pos (List.prefix_append _ _)]
  others place hsource htarget := by
    rw [hmove, if_neg htarget, if_neg hsource]

theorem checkThenRename_done {source target : EntryRef} {realS realT : Place} {nameS nameT : Name}
    (hs : Means t root source realS nameS) (ht : Means t root target realT nameT) :
    Atomically t (fun _ t' => ∃ source target, Renamed t root t' source target)
      (checkThenRename os t source target) := by
  unfold checkThenRename
  split
  · exact .error _
  · next hnone =>
    refine .attempt fun moved hmoved => ?_
    have hfree := none_of_lstat hnone
    obtain ⟨hthere, hne, hheld, hout, hmove⟩ :=
      rename_spec hs.direct ht.direct hfree (mapped_ok hmoved)
    exact ⟨source.abs, target.abs, .of_move (hs.isInside (.of_entry hne hthere))
      (ht.isInside hheld) hfree hout hthere hmove⟩
  · exact .error _

/-- A link under the new name, and then no link under the old one. -/
theorem Renamed.of_link {source target : Place} {entry : Entry Name Content} {linked : Fs}
    (hs : Inside t root source) (ht : Inside t root target)
    (hthere : t.entry source = some entry) (hdir : entry ≠ .dir) (hfree : t.entry target = none)
    (hlinked : linked.entry = Function.update t.entry target (some entry))
    (hleft : t'.entry = Function.update linked.entry source none) :
    Renamed t root t' source target := by
  have hne : target ≠ source := by
    rintro rfl
    rw [hfree] at hthere
    cases hthere
  have hbehind : ∀ {place rest : Place}, rest ≠ [] → t.entry place ≠ some .dir →
      t.entry (place ++ rest) = none := fun hrest hplace => none_of_append hplace hrest
  have hsource : t.entry source ≠ some .dir := by
    rw [hthere]
    exact fun heq => hdir (Option.some.inj heq)
  have htarget : t.entry target ≠ some .dir := by
    rw [hfree]
    exact nofun
  have hcases : ∀ place, t'.entry place =
      if place = source then none else if place = target then some entry else t.entry place := by
    intro place
    rw [hleft, hlinked, Function.update_apply, Function.update_apply]
  refine ⟨hs, ht, hfree, fun rest => ?_, fun rest => ?_, fun place hps hpt => ?_⟩
  · cases rest with
    | nil =>
      rw [List.append_nil, List.append_nil, hcases, if_neg hne, if_pos rfl, hthere]
    | cons name rest =>
      rw [hbehind (List.cons_ne_nil _ _) hsource, hcases]
      split
      · rfl
      · split
        · next heq =>
          rw [← List.append_nil target] at heq
          simp at heq
        · exact hbehind (List.cons_ne_nil _ _) htarget
  · cases rest with
    | nil => rw [List.append_nil, hcases, if_pos rfl]
    | cons name rest =>
      rw [hcases]
      split
      · rfl
      · split
        · next heq =>
          -- nothing lies in what is no directory
          have hdir' : linked.entry source = some .dir := by
            refine linked.dir_of_append (List.cons_ne_nil name rest) ?_
            rw [heq, hlinked, Function.update_self]
            exact nofun
          rw [hlinked, Function.update_of_ne hne.symm, hthere] at hdir'
          exact absurd (Option.some.inj hdir') hdir
        · exact hbehind (List.cons_ne_nil _ _) hsource
  · rw [hcases, if_neg, if_neg]
    · rintro rfl
      exact hpt (List.prefix_refl _)
    · rintro rfl
      exact hps (List.prefix_refl _)

theorem rename_done (hstraight : t.Straight) (fromRel toRel : Name) :
    Atomically t (fun _ t' => ∃ source target, Renamed t root t' source target)
      (renameProjectPath os t root fromRel toRel) := by
  refine .attempt fun source hsource => .attempt fun target htarget => ?_
  refine .attempt fun found hfound => ?_
  obtain ⟨realS, nameS, hs⟩ := resolveEntry_spec hstraight hsource
  obtain ⟨realT, nameT, ht⟩ := resolveEntry_spec hstraight htarget
  split
  · exact checkThenRename_done hs ht
  · split
    · exact checkThenRename_done hs ht
    · exact .error _
    · next linked hlink =>
      obtain ⟨entry, hthere, hdir, hheld, hfree, hlinked⟩ := link_spec hs.direct ht.direct hlink
      have hne : source.abs ≠ target.abs := by
        intro heq
        rw [heq, hfree] at hthere
        cases hthere
      have hstill : linked.entry source.abs = some entry := by
        rw [hlinked, Function.update_of_ne hne]
        exact hthere
      obtain ⟨left, hleft⟩ := @unlink_ok os linked _ _ hstill hdir
      rw [hleft]
      have hsource : Held t source.abs := by
        refine .of_entry (fun heq => ?_) (by rw [hthere]; exact nofun)
        rw [heq, t.root] at hthere
        exact hdir (Option.some.inj hthere).symm
      exact ⟨source.abs, target.abs, .of_link (hs.isInside hsource) (ht.isInside hheld) hthere hdir
        hfree hlinked (unlink_spec (.of_entry (by rw [hstill]; exact nofun)) hleft).2⟩

/-! ## The folders of an upload -/

/-- Nothing but folders is made, and inside the project, which stays where it is. -/
structure Folders (t : Fs) (root : Name) (t' : Fs) : Prop where
  grows : ∀ place entry, t.entry place = some entry → t'.entry place = some entry
  made : ∀ place, t'.entry place ≠ t.entry place →
    t'.entry place = some .dir ∧ Inside t root place
  root : ∀ realRoot, RealRoot t' root realRoot → RealRoot t root realRoot

theorem Folders.refl (t : Fs) (root : Name) : Folders t root t :=
  ⟨fun _ _ => id, fun _ h => absurd rfl h, fun _ => id⟩

theorem Folders.inside (h : Folders t root t') {place : Place}
    (hplace : Inside t' root place) : Inside t root place := by
  obtain ⟨realRoot, hroot, hpre, hdir⟩ := hplace
  exact ⟨realRoot, h.root _ hroot, hpre, fun hrootDir => hdir (h.grows _ _ hrootDir)⟩

/-- No link is made. -/
theorem Folders.straight (h : Folders t root t') (hstraight : t.Straight) : t'.Straight := by
  refine hstraight.of_links fun place target hlink => ?_
  by_contra hne
  rw [← hlink] at hne
  obtain ⟨hdir, -⟩ := h.made place fun heq => hne heq.symm
  rw [hlink] at hdir
  cases hdir

theorem Folders.trans (h : Folders t root t') {u : Fs} (hu : Folders t' root u) :
    Folders t root u where
  grows place entry hentry := hu.grows place entry (h.grows place entry hentry)
  made place hne := by
    by_cases hsame : u.entry place = t'.entry place
    · rw [hsame] at hne ⊢
      exact h.made place hne
    · obtain ⟨hdir, hinside⟩ := hu.made place hsame
      exact ⟨hdir, h.inside hinside⟩
  root realRoot hroot := h.root _ (hu.root _ hroot)

theorem Folders.of_mkdir {place : Place} (hplace : Inside t root place)
    (hfree : t.entry place = none) (h : t'.entry = Function.update t.entry place (some .dir)) :
    Folders t root t' := by
  have hgrows : ∀ p entry, t.entry p = some entry → t'.entry p = some entry := by
    intro p entry hentry
    rw [h, Function.update_of_ne]
    · exact hentry
    · rintro rfl
      rw [hfree] at hentry
      cases hentry
  refine ⟨hgrows, fun p hne => ?_, fun realRoot hroot => ?_⟩
  · rw [h] at hne ⊢
    rw [update_ne hne]
    exact ⟨Function.update_self _ _ _, hplace⟩
  · obtain ⟨realRoot', hroot', -⟩ := hplace
    obtain ⟨links, hleads⟩ := hroot.leads
    obtain ⟨links', hleads'⟩ := hroot'.leads
    rw [walk_unique hleads (walk_grows hgrows hleads')]
    exact hroot'

theorem folders_attempt {α β : Type} {first : Except Failure α} {next : α → Outcome β}
    (h : ∀ value, first = .ok value → Folders t root (next value).2) :
    Folders t root (attempt t first next).2 := by
  cases first with
  | ok value => exact h value rfl
  | error failure => exact .refl t root

theorem ensureFrom_folders (hstraight : t.Straight) (names : List Name) (acc : Name) :
    Folders t root (ensureFrom os root t acc names).2 := by
  induction names generalizing t acc with
  | nil => exact .refl t root
  | cons name names ih =>
    rw [ensureFrom]
    refine folders_attempt fun entry hentry => ?_
    obtain ⟨real, name', hmeans⟩ := resolveEntry_spec hstraight hentry
    split
    · split
      · next made hmade =>
        obtain ⟨hheld, hfree, hnew⟩ := mkdir_spec hmeans.direct hmade
        have hfolders := Folders.of_mkdir (hmeans.isInside hheld) hfree hnew
        exact hfolders.trans (ih (hfolders.straight hstraight) _)
      · exact ih hstraight _
      · exact .refl t root
    · exact .refl t root
    · exact ih hstraight _
    · refine folders_attempt fun target _ => folders_attempt fun found _ => ?_
      split
      · exact ih hstraight _
      · exact .refl t root
    · exact .refl t root

theorem ensureProjectDirs_folders (hstraight : t.Straight) (relDir : Name) :
    Folders t root (ensureProjectDirs os t root relDir).2 := by
  unfold ensureProjectDirs
  split
  · exact .refl t root
  · exact ensureFrom_folders hstraight _ _

/-! ## Uploads -/

/-- The temporary file is gone again. -/
theorem cleanup_spec {tmp : Place} {content : Content} {old : Place → Option (Entry Name Content)}
    (hfree : old tmp = none)
    (htmp : t.entry = Function.update old tmp (some (.file content))) :
    (cleanup os t tmp).entry = old := by
  have hentry : t.entry tmp = some (.file content) := by rw [htmp, Function.update_self]
  obtain ⟨left, hleft⟩ := @unlink_ok os t _ _ hentry nofun
  rw [cleanup, hleft, (unlink_spec (.of_entry (by rw [hentry]; exact nofun)) hleft).2, htmp,
    Function.update_idem, ← hfree, Function.update_eq_self]

/-- There is nothing left to clean. -/
theorem cleanup_gone {dir : Place} {name : Name} (hdir : t.entry dir = some .dir)
    (hgone : t.entry (dir ++ [name]) = none) : (cleanup os t (dir ++ [name])).entry = t.entry := by
  unfold cleanup
  split
  · next left hleft =>
    rw [(unlink_spec (.of_parent (.of_dir hdir)) hleft).2, ← hgone, Function.update_eq_self]
  · rfl

/-- What has come in full is in the file. -/
theorem pipeline_spec (os : Os) (t : Fs) (rel place : Place) (maxBytes : ℕ) (source : Source) :
    Atomically t (fun _ t' => t'.entry = Function.update t.entry place
      (some (.file (.regular source.chunks.flatten os.nowMs))))
      (pipeline os t rel place maxBytes source) := by
  refine .attempt fun received _ => ?_
  split
  · refine .attempt fun filled hfilled => ?_
    exact (fill_spec (mapped_ok hfilled)).2
  · exact .error _

/-- A file that is moved is at its new place alone. -/
theorem moved_file {tmp dest : Place} {content : Content}
    (htmp : t.entry tmp = some (.file content)) (hfree : t.entry dest = none)
    (hmove : ∀ place, t'.entry place =
      if dest <+: place then t.entry (tmp ++ place.drop dest.length)
      else if tmp <+: place then none
      else t.entry place) :
    t'.entry = Function.update (Function.update t.entry tmp none) dest (some (.file content)) := by
  have hfile : t.entry tmp ≠ some .dir := by
    rw [htmp]
    exact nofun
  have hnone : t.entry dest ≠ some .dir := by
    rw [hfree]
    exact nofun
  funext place
  rw [hmove]
  split
  · next hpre =>
    obtain ⟨rest, rfl⟩ := hpre
    rw [List.drop_left]
    cases rest with
    | nil => rw [List.append_nil, List.append_nil, Function.update_self, htmp]
    | cons name rest =>
      rw [none_of_append hfile (List.cons_ne_nil _ _), Function.update_of_ne (by simp),
        Function.update_apply, none_of_append hnone (List.cons_ne_nil _ _), ite_self]
  · next hdest =>
    have hne : place ≠ dest := fun heq => hdest (heq ▸ List.prefix_refl _)
    rw [Function.update_of_ne hne]
    split
    · next hpre =>
      obtain ⟨rest, rfl⟩ := hpre
      cases rest with
      | nil => rw [List.append_nil, Function.update_self]
      | cons name rest =>
        rw [Function.update_apply, none_of_append hfile (List.cons_ne_nil _ _), ite_self]
    · next htmp' =>
      rw [Function.update_of_ne]
      rintro rfl
      exact htmp' (List.prefix_refl _)

/-- The temporary file is published under its name, where there was nothing, or nothing changes. -/
theorem publish_spec {tmp dest : Place} {content : Content} (rel realRoot : Place)
    (htmp : t.entry tmp = some (.file content)) (hdest : Direct os t dest) :
    Atomically t (fun _ t' => tmp ≠ dest ∧ t.entry dest = none ∧
      (cleanup os t' tmp).entry = Function.update (Function.update t.entry tmp none) dest
        (some (.file content))) (publishNewFile os t tmp dest rel realRoot) := by
  have htmp' : Direct os t tmp := .of_entry (by rw [htmp]; exact nofun)
  unfold publishNewFile
  split
  · exact .error _
  · split
    · next linked hlink =>
      obtain ⟨entry, hentry, -, -, hfree, hlinked⟩ := link_spec htmp' hdest hlink
      rw [htmp] at hentry
      cases hentry
      have hne : tmp ≠ dest := by
        rintro rfl
        rw [hfree] at htmp
        cases htmp
      have hstill : linked.entry tmp = some (.file content) := by
        rw [hlinked, Function.update_of_ne hne]
        exact htmp
      obtain ⟨left, hleft⟩ := @unlink_ok os linked _ _ hstill nofun
      refine ⟨hne, hfree, ?_⟩
      rw [cleanup, hleft, (unlink_spec (.of_entry (by rw [hstill]; exact nofun)) hleft).2, hlinked]
      exact Function.update_comm hne.symm _ _ _
    · exact .error _
    · split
      · exact .error _
      · next hnone =>
        have hfree := none_of_lstat hnone
        split
        · next moved hmoved =>
          obtain ⟨-, -, -, hout, hmove⟩ := rename_spec htmp' hdest hfree hmoved
          have hne : tmp ≠ dest := fun heq => hout (heq ▸ List.prefix_refl _)
          have hmoved := moved_file htmp hfree hmove
          refine ⟨hne, hfree, ?_⟩
          cases tmp using List.reverseRecOn with
          | nil =>
            rw [t.root] at htmp
            cases htmp
          | append_singleton dir name =>
            have hdir : moved.entry dir = some .dir := by
              rw [hmoved, Function.update_of_ne, Function.update_of_ne (by simp)]
              · exact t.parent _ _ (by rw [htmp]; exact nofun)
              · rintro rfl
                rw [none_of_append (by rw [hfree]; exact nofun) (List.cons_ne_nil _ _)] at htmp
                cases htmp
            rw [cleanup_gone hdir, hmoved]
            rw [hmoved, Function.update_of_ne hne, Function.update_self]
        · exact .error _
      · exact .error _
    · exact .error _

/-- A new file with all that came, where there was nothing. -/
def Uploaded (os : Os) (t : Fs) (root : Name) (bytes : List UInt8) (t' : Fs) : Prop :=
  ∃ place, Inside t root place ∧ t.entry place = none ∧
    t'.entry = Function.update t.entry place (some (.file (.regular bytes os.nowMs)))

/-- The temporary file takes the content, and is published as a second name and then removed, or
removed at once. -/
theorem uploadOpened_done {made : Fs} {entry : EntryRef} {tmp : Place}
    (htmpFree : t.entry tmp = none)
    (hnew : made.entry = Function.update t.entry tmp (some (.file (.regular [] os.nowMs))))
    (hdirect : ∀ received : Fs, received.entry = Function.update made.entry tmp
      (some (.file (.regular source.chunks.flatten os.nowMs))) → Direct os received entry.abs)
    (hinside : Inside t root entry.abs) (hfree : t.entry entry.abs = none) (maxBytes : ℕ) :
    Atomically t (fun _ t' => Uploaded os t root source.chunks.flatten t')
      (uploadOpened os made entry tmp tmp source maxBytes) := by
  unfold uploadOpened
  split
  · exact cleanup_spec htmpFree hnew
  · split
    · next failure received hreceived =>
      have hsame := pipeline_spec os made entry.rel tmp maxBytes source
      rw [hreceived] at hsame
      exact cleanup_spec htmpFree (hsame.trans hnew)
    · next size received hreceived =>
      have hfilled := pipeline_spec os made entry.rel tmp maxBytes source
      rw [hreceived] at hfilled
      have hfilled' : received.entry = Function.update t.entry tmp
          (some (.file (.regular source.chunks.flatten os.nowMs))) := by
        rw [show received.entry = _ from hfilled, hnew, Function.update_idem]
      have htmp : received.entry tmp =
          some (.file (.regular source.chunks.flatten os.nowMs)) := by
        rw [hfilled', Function.update_self]
      have hpublish := publish_spec entry.rel entry.realRoot htmp (hdirect received hfilled)
      split
      · next failure left hleft =>
        rw [hleft] at hpublish
        exact cleanup_spec htmpFree ((show left.entry = received.entry from hpublish).trans
          hfilled')
      · next published hpublished =>
        rw [hpublished] at hpublish
        obtain ⟨hne, -, hclean⟩ := hpublish
        refine ⟨entry.abs, hinside, hfree, ?_⟩
        rw [show (cleanup os published tmp).entry = _ from hclean, hfilled',
          Function.update_idem, ← htmpFree, Function.update_eq_self]

theorem uploadFile_done (hstraight : t.Straight) (source : Source) (maxBytes : ℕ) :
    Atomically t (fun _ t' => Uploaded os t root source.chunks.flatten t')
      (uploadFile os t root relPath source maxBytes) := by
  refine .attempt fun entry hentry => ?_
  obtain ⟨real, name, hmeans⟩ := resolveEntry_spec hstraight hentry
  split
  · exact .error _
  · split
    · exact .error _
    · next hnone =>
      have hfree := none_of_lstat hnone
      dsimp only
      split
      · exact .error _
      · refine .attempt fun (place, made) hmade => ?_
        have hmade := mapped_ok hmade
        have habs := hmeans.abs
        rw [habs, List.dropLast_concat] at hmade ⊢
        obtain ⟨hleaf, -, htmpFree, hnew⟩ := openNew_spec hmade
        obtain ⟨rfl, hdir⟩ := leaf_below_reached hmeans.resolves.reached hleaf
        have hreal : made.entry real = some .dir := by
          refine made.parent real (partName os) ?_
          rw [hnew, Function.update_self]
          exact nofun
        refine uploadOpened_done htmpFree hnew (fun received hfilled => ?_)
          (hmeans.isInside ⟨real, name, habs, hdir⟩) hfree maxBytes
        rw [habs]
        refine .of_parent (.of_dir ?_)
        rw [hfilled, Function.update_of_ne]
        · exact hreal
        · simp
    · exact .error _

/-- The folders are made, and then the file; if it fails, the folders may stay. -/
theorem upload_spec (hstraight : t.Straight) (source : Source) (maxBytes : ℕ) (mkdirs : Bool) :
    ∃ made, Folders t root made ∧ (mkdirs = false → made = t) ∧
      Atomically made (fun _ t' => Uploaded os made root source.chunks.flatten t')
        (writeProjectFileFromStream os t root relPath source maxBytes mkdirs) := by
  unfold writeProjectFileFromStream
  split
  · next hmkdirs =>
    dsimp only
    have hfolders := @ensureProjectDirs_folders os t root hstraight
      (if dirname relPath = ['.'] then [] else dirname relPath)
    split
    · next failure made hmade =>
      rw [hmade] at hfolders
      refine ⟨made, hfolders, fun hno => ?_, .error _⟩
      exact absurd (hno.symm.trans hmkdirs) Bool.false_ne_true
    · next made hmade =>
      rw [hmade] at hfolders
      exact ⟨made, hfolders, fun hno => absurd (hno.symm.trans hmkdirs) Bool.false_ne_true,
        uploadFile_done (hfolders.straight hstraight) _ _⟩
  · exact ⟨t, .refl t root, fun _ => rfl, uploadFile_done hstraight _ _⟩

/-! ## Reading -/

theorem openRegular_spec (hstraight : t.Straight) {allowRoot : Bool} {resolved : Resolved}
    {bytes : List UInt8} {mtimeMs : ℕ}
    (hresolved : resolveInProject os t root relPath allowRoot = .ok resolved)
    (h : openRegular os t resolved = .ok (bytes, mtimeMs)) :
    ∃ place, Inside t root place ∧ t.entry place = some (.file (.regular bytes mtimeMs)) := by
  have hresolves := resolveInProject_spec hstraight hresolved
  obtain ⟨place, hplace, h⟩ := bind_ok.1 h
  have hspec := openRead_spec hresolves.reached (mapped_ok hplace)
  obtain ⟨-, -, h⟩ := bind_ok.1 h
  split at h
  · cases h
  · next bytes' mtimeMs' hentry =>
    cases h
    rcases hspec with rfl | hpipe
    · exact ⟨resolved.real, hresolves.isInside_regular (List.prefix_refl _) hentry, hentry⟩
    · rw [hentry] at hpipe
      cases hpipe
  · cases h

/-- What an answer shows of a file. -/
def Answer.Shows (bytes : List UInt8) (mtimeMs : ℕ) : Answer → Prop
  | .content c => decodeText bytes = some c.content ∧ c.size = bytes.length ∧ c.mtimeMs = mtimeMs
  | .stat s => s.size = bytes.length ∧ s.mtimeMs = mtimeMs
  | .download d => d.bytes = bytes ∧ d.size = bytes.length
  | _ => True

/-- The answer shows a file. -/
def Answer.ofFile : Answer → Bool
  | .content _ | .stat _ | .download _ => true
  | _ => false

/-- A file in the project, and what the answer shows of it. -/
def FromFile (t : Fs) (root : Name) (answer : Answer) : Prop :=
  ∃ place bytes mtimeMs, Inside t root place ∧
    t.entry place = some (.file (.regular bytes mtimeMs)) ∧ answer.Shows bytes mtimeMs

theorem read_shows (hstraight : t.Straight) {content : ProjectFileContent}
    (h : readProjectFile os t root relPath = .ok content) :
    FromFile t root (.content content) := by
  obtain ⟨resolved, hresolved, h⟩ := bind_ok.1 h
  obtain ⟨⟨bytes, mtimeMs⟩, hopen, h⟩ := bind_ok.1 h
  obtain ⟨place, hinside, hentry⟩ := openRegular_spec hstraight hresolved hopen
  dsimp only at h
  split at h
  · cases h
  · split at h
    · next text htext =>
      cases h
      exact ⟨place, bytes, mtimeMs, hinside, hentry, htext, rfl, rfl⟩
    · cases h

theorem stat_shows (hstraight : t.Straight) {stat : ProjectFileStat}
    (h : statProjectFile os t root relPath = .ok stat) :
    FromFile t root (.stat stat) := by
  obtain ⟨resolved, hresolved, h⟩ := bind_ok.1 h
  split at h
  · cases h
  · obtain ⟨⟨bytes, mtimeMs⟩, hopen, h⟩ := bind_ok.1 h
    obtain ⟨place, hinside, hentry⟩ := openRegular_spec hstraight hresolved hopen
    cases h
    exact ⟨place, bytes, mtimeMs, hinside, hentry, rfl, rfl⟩

theorem download_shows (hstraight : t.Straight) {maxBytes : ℕ} {download : ProjectFileDownload}
    (h : openProjectFileReadStream os t root relPath maxBytes = .ok download) :
    FromFile t root (.download download) := by
  obtain ⟨resolved, hresolved, h⟩ := bind_ok.1 h
  obtain ⟨⟨bytes, mtimeMs⟩, hopen, h⟩ := bind_ok.1 h
  obtain ⟨place, hinside, hentry⟩ := openRegular_spec hstraight hresolved hopen
  dsimp only at h
  split at h
  · cases h
  · cases h
    exact ⟨place, bytes, mtimeMs, hinside, hentry, rfl, rfl⟩

/-- A listing names what lies in one directory of the project, and all of it unless it says so. -/
def Lists (t : Fs) (root : Name) (listing : ProjectDirListing) : Prop :=
  ∃ realRoot place, RealRoot t root realRoot ∧ realRoot <+: place ∧
    t.entry place = some .dir ∧
    (∀ e ∈ listing.entries, t.entry (place ++ [e.name]) ≠ none) ∧
    (listing.truncated = false → ∀ name, t.entry (place ++ [name]) ≠ none →
      ∃ e ∈ listing.entries, e.name = name)

theorem dirEntry_name (realRoot real : Place) (dirent : Name × Entry Name Content) :
    (dirEntry os t realRoot real dirent).name = dirent.1 := by
  obtain ⟨name, entry⟩ := dirent
  cases entry with
  | dir => rfl
  | link target => rfl
  | file content =>
    cases content with
    | regular bytes mtimeMs => rfl
    | pipe => rfl
    | device => rfl

theorem mem_dirents {place : Place} {name : Name} {entry : Entry Name Content} :
    (name, entry) ∈ dirents t place ↔ t.entry (place ++ [name]) = some entry := by
  unfold dirents
  rw [List.mem_filterMap]
  constructor
  · rintro ⟨name', -, hname⟩
    obtain ⟨entry', hentry, heq⟩ := Option.map_eq_some_iff.1 hname
    cases heq
    exact hentry
  · intro h
    refine ⟨name, mem_children.2 (by rw [h]; exact nofun), ?_⟩
    rw [h]
    rfl

theorem readdir_spec {real : Place} {names : List (Name × Entry Name Content)}
    (hreached : Reached t real) (h : readdirSync os t real = .ok names) :
    t.entry real = some .dir ∧ names = dirents t real := by
  unfold readdirSync at h
  split at h
  · cases h
  · next place hplace =>
    split at h
    · next hdir =>
      cases h
      rcases walk_of_reached hreached hplace with rfl | hpipe
      · exact ⟨hdir, rfl⟩
      · rw [hdir] at hpipe
        cases hpipe
    · cases h

theorem list_lists (hstraight : t.Straight) {listing : ProjectDirListing}
    (h : listProjectDir os t root relPath = .ok listing) : Lists t root listing := by
  obtain ⟨resolved, hresolved, h⟩ := bind_ok.1 h
  have hresolves := resolveInProject_spec hstraight hresolved
  obtain ⟨names, hnames, h⟩ := bind_ok.1 h
  obtain ⟨hdir, rfl⟩ := readdir_spec hresolves.reached (mapped_ok hnames)
  have hmem : ∀ e, e ∈ ((dirents t resolved.real).map
      (dirEntry os t resolved.realRoot resolved.real)).mergeSort (entryLe os) ↔
        ∃ dirent ∈ dirents t resolved.real,
          dirEntry os t resolved.realRoot resolved.real dirent = e := by
    intro e
    rw [List.mem_mergeSort, List.mem_map]
  cases h
  refine ⟨resolved.realRoot, resolved.real,
    hresolves.leads (List.prefix_refl _) (not_passes hdir not_stuck_dir),
    prefix_of_isInside hresolves.inside, hdir, fun e he => ?_, fun hall name hname => ?_⟩
  · obtain ⟨⟨name, entry⟩, hname, rfl⟩ := (hmem e).1 (List.mem_of_mem_take he)
    rw [dirEntry_name, mem_dirents.1 hname]
    exact nofun
  · have hfew := of_decide_eq_false hall
    obtain ⟨entry, hentry⟩ := Option.ne_none_iff_exists'.1 hname
    refine ⟨dirEntry os t resolved.realRoot resolved.real (name, entry), ?_, dirEntry_name _ _ _⟩
    rw [List.take_of_length_le (Nat.le_of_not_lt hfew)]
    exact (hmem _).2 ⟨(name, entry), mem_dirents.2 hentry, rfl⟩

/-! ## The search -/

/-- What a search has met lies below where it began. -/
structure Search.Below (t : Fs) (start : Place) (s : Search) : Prop where
  queue : ∀ dir ∈ s.queue, dir.1 = start ++ dir.2 ∧ Reached t dir.1
  scored : ∀ path ∈ s.scored, ∃ bytes mtimeMs,
    t.entry (start ++ path) = some (.file (.regular bytes mtimeMs))

theorem Search.Below.visit {start rel : Place} {s : Search} (h : s.Below t start) (query : Name)
    {name : Name} {entry : Entry Name Content}
    (hentry : t.entry (start ++ rel ++ [name]) = some entry) :
    (s.visit os query (start ++ rel) rel name entry).Below t start := by
  cases entry with
  | dir =>
    rw [Search.visit]
    split
    · exact h
    · refine ⟨fun dir hdir => ?_, h.scored⟩
      rcases List.mem_append.1 hdir with hdir | hdir
      · exact h.queue dir hdir
      · rw [List.mem_singleton.1 hdir]
        exact ⟨List.append_assoc _ _ _, .inl (.of_dir hentry)⟩
  | file content =>
    cases content with
    | regular bytes mtimeMs =>
      rw [Search.visit]
      split
      · refine ⟨h.queue, fun path hpath => ?_⟩
        rcases List.mem_append.1 hpath with hpath | hpath
        · exact h.scored path hpath
        · rw [List.mem_singleton.1 hpath, ← List.append_assoc]
          exact ⟨bytes, mtimeMs, hentry⟩
      · exact h
    | pipe => exact h
    | device => exact h
  | link target => exact h

theorem Search.Below.dirents {start rel : Place} (query : Name)
    (names : List (Name × Entry Name Content))
    (hnames : ∀ name entry, (name, entry) ∈ names → t.entry (start ++ rel ++ [name]) = some entry)
    {s : Search} (h : s.Below t start) :
    (visitDirents os query (start ++ rel) rel names s).Below t start := by
  induction names generalizing s with
  | nil => exact h
  | cons dirent rest ih =>
    obtain ⟨name, entry⟩ := dirent
    rw [visitDirents]
    dsimp only
    split
    · exact ⟨h.queue, h.scored⟩
    · have hcounted : Search.Below t start { s with visited := s.visited + 1 } :=
        ⟨h.queue, h.scored⟩
      exact ih (fun name' entry' hmem => hnames name' entry' (List.mem_cons_of_mem _ hmem))
        (hcounted.visit query (hnames name entry List.mem_cons_self))

theorem searchFrom_below {start : Place} {query : Name} {s s' : Search} (h : s.Below t start)
    (hsearch : searchFrom os t query s = .ok s') : s'.Below t start := by
  fun_induction searchFrom os t query s with
  | case1 s hqueue =>
    cases hsearch
    exact h
  | case2 s abs rel queue hqueue htruncated =>
    cases hsearch
    exact h
  | case3 s abs rel queue hqueue htruncated names hnames ih =>
    have hrest : Search.Below t start { s with queue := queue } :=
      ⟨fun dir hdir => h.queue dir (by rw [hqueue]; exact List.mem_cons_of_mem _ hdir), h.scored⟩
    obtain ⟨habs, hreached⟩ := h.queue (abs, rel) (by rw [hqueue]; exact List.mem_cons_self)
    obtain ⟨-, rfl⟩ := readdir_spec hreached hnames
    dsimp only at habs
    subst habs
    exact ih (hrest.dirents query _ fun name entry => mem_dirents.1) hsearch
  | case4 s abs rel queue hqueue htruncated errno hnames hgone ih =>
    refine ih ⟨fun dir hdir => ?_, h.scored⟩ hsearch
    exact h.queue dir (by rw [hqueue]; exact List.mem_cons_of_mem _ hdir)
  | case5 s abs rel queue hqueue htruncated errno hnames hgone => cases hsearch

/-- What a search finds are regular files of the project. -/
def Finds (t : Fs) (root : Name) (listing : ProjectSearchListing) : Prop :=
  ∃ start, ∀ path ∈ listing.results, Inside t root (start ++ path) ∧
    ∃ bytes mtimeMs, t.entry (start ++ path) = some (.file (.regular bytes mtimeMs))

theorem search_finds (hstraight : t.Straight) {query : Name} {listing : ProjectSearchListing}
    (h : searchProjectFiles os t root query = .ok listing) : Finds t root listing := by
  unfold searchProjectFiles at h
  dsimp only at h
  split at h
  · cases h
    exact ⟨[], fun path hpath => by cases hpath⟩
  · obtain ⟨resolved, hresolved, h⟩ := bind_ok.1 h
    obtain ⟨s, hs, h⟩ := bind_ok.1 h
    have hresolves := resolveInProject_spec hstraight hresolved
    have hbelow : s.Below t resolved.real := by
      refine searchFrom_below ⟨fun dir hdir => ?_, fun path hpath => by cases hpath⟩ hs
      rw [List.mem_singleton.1 hdir]
      exact ⟨(List.append_nil _).symm, hresolves.reached⟩
    cases h
    refine ⟨resolved.real, fun path hpath => ?_⟩
    obtain ⟨bytes, mtimeMs, hentry⟩ :=
      hbelow.scored path (List.mem_mergeSort.1 (List.mem_of_mem_take hpath))
    exact ⟨hresolves.isInside_regular (List.prefix_append _ _) hentry, bytes, mtimeMs, hentry⟩

/-! ## Requests -/

/-- The request makes something new. -/
def Request.creates : Request → Bool
  | .write _ _ _ create => create
  | .mkdir _ | .upload _ _ _ _ => true
  | _ => false

/-- The request makes the folders to its file. -/
def Request.mkdirs : Request → Bool
  | .upload _ _ _ mkdirs => mkdirs
  | _ => false

/-- What a request does, and what it does not. -/
structure Contained (os : Os) (t : Fs) (root : Name) (request : Request)
    (outcome : Outcome Answer) : Prop where
  /-- what it changes lies in the project -/
  changed : ∀ place, outcome.2.entry place ≠ t.entry place → Inside t root place
  /-- it changes nothing when it fails, but for the folders to an upload -/
  failed : ∀ failure, outcome.1 = .error failure → ∀ place,
    outcome.2.entry place = t.entry place ∨
      request.mkdirs = true ∧ t.entry place = none ∧ outcome.2.entry place = some .dir
  /-- what makes something new replaces nothing -/
  kept : request.creates = true → ∀ place entry, t.entry place = some entry →
    outcome.2.entry place = some entry
  /-- a rename takes all that was there to where nothing was -/
  renamed : ∀ fromRel toRel answer, request = .rename fromRel toRel → outcome.1 = .ok answer →
    ∃ source target, Renamed t root outcome.2 source target
  /-- a write that succeeds has left its text, over the file that was there or as a new one -/
  written : ∀ relPath content expected create answer,
    request = .write relPath content expected create → outcome.1 = .ok answer →
      ∃ place, Written os t root (Utf8.encode content) create place outcome.2
  /-- an upload that succeeds has made its file, in full -/
  uploaded : ∀ relPath source maxBytes mkdirs answer,
    request = .upload relPath source maxBytes mkdirs → outcome.1 = .ok answer →
      ∃ place, t.entry place = none ∧ outcome.2.entry place =
        some (.file (.regular source.chunks.flatten os.nowMs))
  /-- what it shows of a file is a file in the project -/
  shown : ∀ answer, outcome.1 = .ok answer → answer.ofFile = true → FromFile t root answer
  /-- what it lists is a directory in the project -/
  listed : ∀ listing, outcome.1 = .ok (.listing listing) → Lists t root listing
  /-- what it finds are regular files in the project -/
  found : ∀ listing, outcome.1 = .ok (.found listing) → Finds t root listing

section Requests

variable {request : Request}

/-- A request that only reads. -/
theorem Contained.of_read {result : Except Failure Answer}
    (hwrite : ∀ relPath content expected create, request ≠ .write relPath content expected create)
    (hrename : ∀ fromRel toRel, request ≠ .rename fromRel toRel)
    (hupload : ∀ relPath source maxBytes mkdirs, request ≠ .upload relPath source maxBytes mkdirs)
    (hshown : ∀ answer, result = .ok answer → answer.ofFile = true → FromFile t root answer)
    (hlisted : ∀ listing, result = .ok (.listing listing) → Lists t root listing)
    (hfound : ∀ listing, result = .ok (.found listing) → Finds t root listing) :
    Contained os t root request (result, t) where
  changed _ hne := absurd rfl hne
  failed _ _ _ := .inl rfl
  kept _ _ _ := id
  renamed _ _ _ heq := absurd heq (hrename _ _)
  written _ _ _ _ _ heq := absurd heq (hwrite _ _ _ _)
  uploaded _ _ _ _ _ heq := absurd heq (hupload _ _ _ _)
  shown := hshown
  listed := hlisted
  found := hfound

/-- What a write has done when it answers. -/
structure Does (os : Os) (t : Fs) (root : Name) (request : Request) (t' : Fs) : Prop where
  changed : ∀ place, t'.entry place ≠ t.entry place → Inside t root place
  kept : request.creates = true → ∀ place entry, t.entry place = some entry →
    t'.entry place = some entry
  renamed : ∀ fromRel toRel, request = .rename fromRel toRel →
    ∃ source target, Renamed t root t' source target
  written : ∀ relPath content expected create,
    request = .write relPath content expected create →
      ∃ place, Written os t root (Utf8.encode content) create place t'
  uploaded : ∀ relPath source maxBytes mkdirs,
    request = .upload relPath source maxBytes mkdirs →
      ∃ place, t.entry place = none ∧ t'.entry place =
        some (.file (.regular source.chunks.flatten os.nowMs))

/-- A request that is done, or changes nothing. -/
theorem Contained.of_does {α : Type} {outcome : Outcome α} {answer : α → Answer}
    (h : Atomically t (fun _ => Does os t root request) outcome)
    (hfile : ∀ value, (answer value).ofFile = false)
    (hlisting : ∀ value listing, answer value ≠ .listing listing)
    (hfound : ∀ value listing, answer value ≠ .found listing) :
    Contained os t root request (outcome.map (·.map answer) id) := by
  obtain ⟨result, t'⟩ := outcome
  cases result with
  | error failure =>
    have hsame : t'.entry = t.entry := h
    exact {
      changed := fun place hne => absurd (congrFun hsame place) hne
      failed := fun _ _ place => .inl (congrFun hsame place)
      kept := fun _ place entry hentry => (congrFun hsame place).trans hentry
      renamed := fun _ _ _ _ hok => by cases hok
      written := fun _ _ _ _ _ _ hok => by cases hok
      uploaded := fun _ _ _ _ _ _ hok => by cases hok
      shown := fun _ hok => by cases hok
      listed := fun _ hok => by cases hok
      found := fun _ hok => by cases hok }
  | ok value =>
    have hdoes : Does os t root request t' := h
    exact {
      changed := hdoes.changed
      failed := fun _ hfailed => by cases hfailed
      kept := hdoes.kept
      renamed := fun _ _ _ heq _ => hdoes.renamed _ _ heq
      written := fun _ _ _ _ _ heq _ => hdoes.written _ _ _ _ heq
      uploaded := fun _ _ _ _ _ heq _ => hdoes.uploaded _ _ _ _ heq
      shown := fun answer' hok hshows => by
        cases hok
        exact absurd (hshows.symm.trans (hfile value)) Bool.noConfusion
      listed := fun listing hok => absurd (Except.ok.inj hok) (hlisting value listing)
      found := fun listing hok => absurd (Except.ok.inj hok) (hfound value listing) }

theorem Atomically.imp {α : Type} {Done Done' : α → Fs → Prop} {outcome : Outcome α}
    (h : Atomically t Done outcome) (himp : ∀ value t', Done value t' → Done' value t') :
    Atomically t Done' outcome := by
  obtain ⟨result, t'⟩ := outcome
  cases result with
  | error failure => exact h
  | ok value => exact himp value t' h

theorem write_does {content : Name} {expected : Option ℕ} {create : Bool} {place : Place}
    (h : Written os t root (Utf8.encode content) create place t') :
    Does os t root (.write relPath content expected create) t' where
  changed p hne := by
    rw [h.entry] at hne
    rw [update_ne hne]
    exact h.inside
  kept hcreates p entry hentry := by
    have hfree := h.before
    rw [if_pos (show create = true from hcreates)] at hfree
    rw [h.entry, Function.update_of_ne]
    · exact hentry
    · rintro rfl
      rw [hfree] at hentry
      cases hentry
  renamed := nofun
  written _ _ _ _ heq := by
    cases heq
    exact ⟨place, h⟩
  uploaded := nofun

theorem mkdir_does {place : Place} (hinside : Inside t root place)
    (hfree : t.entry place = none) (h : t'.entry = Function.update t.entry place (some .dir)) :
    Does os t root (.mkdir relPath) t' where
  changed p hne := by
    rw [h] at hne
    rw [update_ne hne]
    exact hinside
  kept _ p entry hentry := by
    rw [h, Function.update_of_ne]
    · exact hentry
    · rintro rfl
      rw [hfree] at hentry
      cases hentry
  renamed := nofun
  written := nofun
  uploaded := nofun

theorem delete_does {place : Place} (hinside : Inside t root place)
    (h : t'.entry = Function.update t.entry place none) :
    Does os t root (.delete relPath) t' where
  changed p hne := by
    rw [h] at hne
    rw [update_ne hne]
    exact hinside
  kept := nofun
  renamed := nofun
  written := nofun
  uploaded := nofun

/-- What lies below a place in the project is in the project. -/
theorem Inside.below {place rest : Place} (h : Inside t root place) :
    Inside t root (place ++ rest) := by
  obtain ⟨realRoot, hroot, hpre, hne⟩ := h
  refine ⟨realRoot, hroot, hpre.trans (List.prefix_append _ _), fun hdir heq => hne hdir ?_⟩
  refine hpre.eq_of_length_le ?_ |>.symm
  rw [← heq, List.length_append]
  exact Nat.le_add_right _ _

theorem rename_does {fromRel toRel : Name} {source target : Place}
    (h : Renamed t root t' source target) : Does os t root (.rename fromRel toRel) t' where
  changed p hne := by
    by_cases hs : source <+: p
    · obtain ⟨rest, rfl⟩ := hs
      exact h.insideSource.below
    · by_cases ht : target <+: p
      · obtain ⟨rest, rfl⟩ := ht
        exact h.insideTarget.below
      · exact absurd (h.others p hs ht) hne
  kept := nofun
  renamed _ _ _ := ⟨source, target, h⟩
  written := nofun
  uploaded := nofun

/-- An upload that fails leaves its folders at most. -/
theorem Folders.contained_error {made : Fs} (hfolders : Folders t root made) {mkdirs : Bool}
    (hnone : mkdirs = false → made = t) (hsame : t'.entry = made.entry) (source : Source)
    (maxBytes : ℕ) (failure : Failure) :
    Contained os t root (.upload relPath source maxBytes mkdirs) (.error failure, t') where
  changed place hne := by
    refine (hfolders.made place ?_).2
    rwa [← hsame]
  failed _ _ place := by
    by_cases heq : made.entry place = t.entry place
    · exact .inl ((congrFun hsame place).trans heq)
    · refine .inr ⟨?_, ?_, (congrFun hsame place).trans (hfolders.made place heq).1⟩
      · refine Bool.eq_true_of_not_eq_false fun hno => ?_
        rw [hnone hno] at heq
        exact heq rfl
      · by_contra hentry
        obtain ⟨entry, hentry⟩ := Option.ne_none_iff_exists'.1 hentry
        rw [hfolders.grows place entry hentry, hentry] at heq
        exact heq rfl
  kept _ place entry hentry := (congrFun hsame place).trans (hfolders.grows place entry hentry)
  renamed := nofun
  written := nofun
  uploaded _ _ _ _ _ _ hok := by cases hok
  shown _ hok := by cases hok
  listed _ hok := by cases hok
  found _ hok := by cases hok

/-- An upload that succeeds leaves its folders and its file. -/
theorem Folders.contained_ok {made : Fs} (hfolders : Folders t root made) {source : Source}
    (hdone : Uploaded os made root source.chunks.flatten t') (maxBytes : ℕ) (mkdirs : Bool)
    (path : Place) (size : ℕ) :
    Contained os t root (.upload relPath source maxBytes mkdirs)
      (.ok (.uploaded path size), t') := by
  obtain ⟨place, hinside, hfree, hentry⟩ := hdone
  have hfreeBefore : t.entry place = none := by
    by_contra hne
    obtain ⟨entry, hthere⟩ := Option.ne_none_iff_exists'.1 hne
    rw [hfolders.grows place entry hthere] at hfree
    cases hfree
  exact {
    changed := fun p hne => by
      by_cases heq : made.entry p = t.entry p
      · have hplace : p = place := by
          by_contra hother
          refine hne ?_
          rw [show Prod.snd _ = t' from rfl, hentry, Function.update_of_ne hother]
          exact heq
        rw [hplace]
        exact hfolders.inside hinside
      · exact (hfolders.made p heq).2
    failed := fun _ hfailed => by cases hfailed
    kept := fun _ p entry hthere => by
      rw [show Prod.snd _ = t' from rfl, hentry, Function.update_of_ne]
      · exact hfolders.grows p entry hthere
      · rintro rfl
        rw [hfreeBefore] at hthere
        cases hthere
    renamed := nofun
    written := nofun
    uploaded := fun _ _ _ _ _ heq _ => by
      cases heq
      refine ⟨place, hfreeBefore, ?_⟩
      rw [show Prod.snd _ = t' from rfl, hentry, Function.update_self]
    shown := fun answer hok hshows => by
      cases hok
      cases hshows
    listed := fun listing hok => by cases hok
    found := fun listing hok => by cases hok }

/-- An upload, with its folders. -/
theorem upload_contained (hstraight : t.Straight) (source : Source) (maxBytes : ℕ) (mkdirs : Bool) :
    Contained os t root (.upload relPath source maxBytes mkdirs)
      (serve os t root (.upload relPath source maxBytes mkdirs)) := by
  obtain ⟨made, hfolders, hnone, hdone⟩ :=
    @upload_spec os t root relPath hstraight source maxBytes mkdirs
  rw [serve]
  generalize writeProjectFileFromStream os t root relPath source maxBytes mkdirs = outcome at *
  obtain ⟨result, t'⟩ := outcome
  cases result with
  | error failure => exact hfolders.contained_error hnone hdone source maxBytes failure
  | ok value => exact hfolders.contained_ok hdone maxBytes mkdirs value.1 value.2

end Requests

theorem map_ok {α β : Type} {x : Except Failure α} {f : α → β} {b : β}
    (h : x.map f = .ok b) : ∃ a, x = .ok a ∧ f a = b := by
  cases x with
  | error e => cases h
  | ok a =>
    cases h
    exact ⟨a, rfl, rfl⟩

theorem serve_contained (hstraight : t.Straight) (request : Request) :
    Contained os t root request (serve os t root request) := by
  cases request with
  | list relDir =>
    refine .of_read nofun nofun nofun (fun answer hanswer hfile => ?_) (fun listing hlisting => ?_)
      fun listing hfound => ?_
    · obtain ⟨listing, -, rfl⟩ := map_ok hanswer
      cases hfile
    · obtain ⟨listing', hlist, heq⟩ := map_ok hlisting
      cases heq
      exact list_lists hstraight hlist
    · obtain ⟨listing', -, heq⟩ := map_ok hfound
      cases heq
  | read relPath =>
    refine .of_read nofun nofun nofun (fun answer hanswer _ => ?_) (fun listing hlisting => ?_)
      fun listing hfound => ?_
    · obtain ⟨content, hcontent, rfl⟩ := map_ok hanswer
      exact read_shows hstraight hcontent
    · obtain ⟨content, -, heq⟩ := map_ok hlisting
      cases heq
    · obtain ⟨content, -, heq⟩ := map_ok hfound
      cases heq
  | stat relPath =>
    refine .of_read nofun nofun nofun (fun answer hanswer _ => ?_) (fun listing hlisting => ?_)
      fun listing hfound => ?_
    · obtain ⟨stat, hstat, rfl⟩ := map_ok hanswer
      exact stat_shows hstraight hstat
    · obtain ⟨stat, -, heq⟩ := map_ok hlisting
      cases heq
    · obtain ⟨stat, -, heq⟩ := map_ok hfound
      cases heq
  | search query =>
    refine .of_read nofun nofun nofun (fun answer hanswer hfile => ?_) (fun listing hlisting => ?_)
      fun listing hfound => ?_
    · obtain ⟨listing, -, rfl⟩ := map_ok hanswer
      cases hfile
    · obtain ⟨listing', -, heq⟩ := map_ok hlisting
      cases heq
    · obtain ⟨listing', hsearch, heq⟩ := map_ok hfound
      cases heq
      exact search_finds hstraight hsearch
  | download relPath maxBytes =>
    refine .of_read nofun nofun nofun (fun answer hanswer _ => ?_) (fun listing hlisting => ?_)
      fun listing hfound => ?_
    · obtain ⟨download, hdownload, rfl⟩ := map_ok hanswer
      exact download_shows hstraight hdownload
    · obtain ⟨download, -, heq⟩ := map_ok hlisting
      cases heq
    · obtain ⟨download, -, heq⟩ := map_ok hfound
      cases heq
  | write relPath content expected create =>
    have hwrite := @write_spec os t root relPath hstraight content expected create
    exact .of_does (hwrite.imp fun _ _ ⟨_, h⟩ => write_does h) (fun _ => rfl) nofun nofun
  | mkdir relPath =>
    have hmkdir := @mkdir_done os t root relPath hstraight
    exact .of_does (hmkdir.imp fun _ _ ⟨_, hinside, hfree, h⟩ => mkdir_does hinside hfree h)
      (fun _ => rfl) nofun nofun
  | delete relPath =>
    have hdelete := @delete_done os t root relPath hstraight
    exact .of_does (hdelete.imp fun _ _ ⟨_, hinside, h⟩ => delete_does hinside h)
      (fun _ => rfl) nofun nofun
  | rename fromRel toRel =>
    have hrename := @rename_done os t root hstraight fromRel toRel
    exact .of_does (hrename.imp fun _ _ ⟨_, _, h⟩ => rename_does h) (fun _ => rfl) nofun nofun
  | upload relPath source maxBytes mkdirs =>
    exact upload_contained hstraight source maxBytes mkdirs

/-- **Project files stay inside the project.** For every tree in which no link's text has a `..`
behind the name of a link, every root and every request. -/
theorem contained (hstraight : t.Straight) (request : Request) :
    Contained os t root request (serve os t root request) :=
  serve_contained hstraight request

/-! ## A project with links -/

namespace Sample

def linux : Os where
  maxLinks := 40
  realpathLinks := 40
  hardLinks := true
  procFd := true
  nowMs := 0
  uuid := []
  localeLe _ _ := true
  searched := id
  finds _ _ := true
  searchLe _ _ _ := true

/-- Nothing but the root. -/
def bare : Fs where
  entry p := if p = [] then some .dir else none
  places := [[]]
  root := rfl
  parent p n h := absurd (if_neg (by simp)) h
  listed p h := by
    by_contra hp
    exact h (if_neg fun heq => hp (List.mem_singleton.2 heq))

/-- The project `/p`, in which `d` is a link to `/q`. -/
def outward : Fs :=
  ((bare.create [] ['p'] .dir rfl rfl).create [] ['q'] .dir rfl rfl).create [['p']] ['d']
    (.link ⟨true, [.into ['q']]⟩) rfl rfl

/-- And `l` is a link to `../p`. -/
def straight : Fs := outward.create [['p']] ['l'] (.link ⟨false, [.up, .into ['p']]⟩) rfl rfl

/-- Or `l` is a link to `d/../q`, which the kernel finds and `realpathSync` does not. -/
def crooked : Fs :=
  outward.create [['p']] ['l'] (.link ⟨false, [.into ['d'], .up, .into ['q']]⟩) rfl rfl

def project : Name := ['/', 'p']

def mkdir (dir : Char) : Request := .mkdir [dir, '/', 'n']

theorem straight_straight : straight.Straight := by
  have hlinks : ∀ p target, straight.entry p = some (.link target) →
      target.steps = [.up, .into ['p']] ∨ target.steps = [.into ['q']] := by
    intro p target h
    simp only [straight, outward, bare, create, Function.update_apply] at h
    grind
  intro dir n target hlink front name back heq hup
  -- no link's text has a `..` behind a name
  rcases hlinks _ _ hlink with hsteps | hsteps
  · rw [hsteps] at heq
    rcases front with _ | ⟨_, _ | ⟨_, front⟩⟩ <;> simp_all
  · rw [hsteps] at heq
    rcases front with _ | ⟨_, front⟩ <;> simp_all

end Sample

open Sample in
theorem contained_of_links :
    Contained linux straight project (mkdir 'l') (serve linux straight project (mkdir 'l')) ∧
      (serve linux straight project (mkdir 'l')).2.entry [['p'], ['n']] = some .dir ∧
      (serve linux straight project (mkdir 'd')).2.entry [['q'], ['n']] = none :=
  ⟨contained straight_straight _, by decide, by decide⟩

open Sample in
/-- The condition is needed: through a crooked link a directory is made outside the project. -/
example : (serve linux crooked project (mkdir 'l')).2.entry [['q'], ['n']] = some .dir := by decide

end Files
end Mullion
