import Mullion.Files.Contained

/-!
# An agent's project roots

An agent serves the project files of a directory that the primary names, if it lies in one of the
agent's own roots (`routes/internal.ts`).  The directory is checked by what its links say, and
served by its name.  Can the two differ, so that the agent serves a file outside its roots?

`served_within_roots` says no.  A request stays inside the place to which the directory leads
(`serve_contained`); the check has found the same place, since a path leads to one place only
(`within_of_resolved`); and what lies above it is where one of the roots leads (`leads_of_ends`).
Nor does `readExternalFile`, which reads outside any project in the folders of a setting, leave its
folder (`external_contained`).
-/

namespace Mullion
namespace Files

open FileTree DirTree

/-- What a name in a path without dots is. -/
structure Plain (name : Name) : Prop where
  ne_nil : name ≠ []
  unbroken : '/' ∉ name
  ne_dot : name ≠ ['.']
  ne_dots : name ≠ ['.', '.']

/-- Where a process runs. -/
structure Process where
  home : Name
  cwd : Place
  plain : ∀ name ∈ cwd, Plain name

/-- `expandHome`; the callers resolve what it gives. -/
def expandHome (process : Process) (path : Name) : Name :=
  match path with
  | ['~'] => process.home
  | '~' :: '/' :: rest => process.home ++ '/' :: rest
  | _ => path

/-- The text of an absolute path. -/
def text (place : Place) : Name :=
  if place = [] then ['/'] else place.flatMap fun name => '/' :: name

variable (os : Os) (t : Fs) (process : Process)

/-- `none` is answered with a 400. -/
def resolveWithinRoots (roots : List Name) (cwd : Name) : Option Place :=
  let resolved := resolve process.cwd (expandHome process cwd)
  match realpathExistingPrefix os t resolved,
      roots.mapM fun root => realpathExistingPrefix os t (resolve process.cwd root) with
  | .ok realResolved, .ok roots =>
    if roots.any (isInside · realResolved) then some resolved else none
  | _, _ => none

/-- The routes below `/internal/project-files/`; `none` is a 400. -/
def serveWithinRoots (roots : List Name) (cwd : Name) (request : Request) :
    Option (Outcome Answer) :=
  (resolveWithinRoots os t process roots cwd).map fun resolved => serve os t (text resolved) request

/-- `none` is a path that the settings do not allow. -/
def externalRoot (roots : List Name) (target : Place) : Option Place :=
  (roots.map fun folder => resolve process.cwd (expandHome process folder)).find? fun root =>
    root ≠ [] && root ≠ resolve process.cwd process.home &&
      root.isPrefixOf target && root ≠ target

def readExternalFile (absPath : Name) (roots : List Name) : Except Failure ProjectFileContent :=
  let expanded := expandHome process absPath
  if '\x00' ∈ expanded ∨ !isAbsolute expanded then
    .error (.project .invalid "Path must be absolute or start with ~/")
  else
    let target := resolve process.cwd expanded
    match externalRoot process roots target with
    | some root => readProjectFile os t (text root) (joined (target.drop root.length))
    | none => .error (.project .not_allowlisted
        "This path is not in Settings -> Readable paths, so it can't be opened")

/-! ## The text of a place -/

theorem notMem_of_mem_splitOn {path name : Name} (h : name ∈ path.splitOn '/') : '/' ∉ name := by
  induction path generalizing name with
  | nil =>
    rw [List.splitOn_nil, List.mem_singleton] at h
    rw [h]
    exact List.not_mem_nil
  | cons c path ih =>
    rw [List.splitOn_cons_eq_if_modifyHead] at h
    split at h
    · rcases List.mem_cons.1 h with rfl | h
      · exact List.not_mem_nil
      · exact ih h
    · next hne =>
      obtain ⟨first, rest, heq⟩ := List.exists_cons_of_ne_nil (List.splitOn_ne_nil '/' path)
      rw [heq, List.modifyHead_cons] at h
      rw [heq] at ih
      rcases List.mem_cons.1 h with rfl | h
      · rw [List.mem_cons, not_or]
        exact ⟨fun heq => hne (beq_iff_eq.2 heq.symm), ih List.mem_cons_self⟩
      · exact ih (List.mem_cons_of_mem _ h)

theorem plain_of_step {path name : Name} (h : .into name ∈ steps path) : Plain name := by
  obtain ⟨part, hpart, hstep⟩ := List.mem_filterMap.1 h
  obtain ⟨hmem, hne⟩ := List.mem_filter.1 hpart
  have hne := of_decide_eq_true hne
  unfold step at hstep
  split at hstep
  · cases hstep
  · cases hstep
  · next hdot hdots =>
    cases hstep
    exact ⟨hne, notMem_of_mem_splitOn hmem, hdot, hdots⟩

theorem plain_resolve {base : Place} {path : Name} (hbase : ∀ name ∈ base, Plain name) :
    ∀ name ∈ resolve base path, Plain name := by
  have hfold : ∀ (todo : List (Step Name)) (place : Place),
      (∀ name, .into name ∈ todo → Plain name) → (∀ name ∈ place, Plain name) →
        ∀ name ∈ todo.foldl lexical place, Plain name := by
    intro todo
    induction todo with
    | nil => exact fun place _ hplace => hplace
    | cons step todo ih =>
      intro place htodo hplace
      refine ih _ (fun name hname => htodo name (List.mem_cons_of_mem _ hname)) fun name hname => ?_
      cases step with
      | up => exact hplace name (List.mem_of_mem_dropLast hname)
      | into name' =>
        rcases List.mem_append.1 hname with hname | hname
        · exact hplace name hname
        · rw [List.mem_singleton.1 hname]
          exact htodo name' List.mem_cons_self
  refine hfold _ _ (fun name => plain_of_step) ?_
  split
  · exact fun name hname => absurd hname List.not_mem_nil
  · exact hbase

theorem parts_slash (path : Name) : parts ('/' :: path) = parts path := by
  unfold parts
  rw [List.splitOn_cons_eq_if_modifyHead]
  rfl

theorem parts_text {place : Place} (h : ∀ name ∈ place, Plain name) :
    parts (place.flatMap fun name => '/' :: name) = place := by
  induction place with
  | nil => rfl
  | cons name place ih =>
    have hname := h name List.mem_cons_self
    have ih := ih fun name' hname' => h name' (List.mem_cons_of_mem _ hname')
    rw [List.flatMap_cons, List.cons_append, parts_slash]
    cases place with
    | nil =>
      rw [List.flatMap_nil, List.append_nil, parts, List.splitOn_eq_singleton hname.unbroken]
      exact List.filter_eq_self.2 fun part hpart => by
        rw [List.mem_singleton.1 hpart]
        exact decide_eq_true hname.ne_nil
    | cons next place =>
      rw [List.flatMap_cons, List.cons_append] at ih ⊢
      rw [parts_slash] at ih
      rw [parts, List.splitOn_append_cons_self_of_not_mem hname.unbroken, List.filter_cons_of_pos]
      · exact congrArg (name :: ·) ih
      · exact decide_eq_true hname.ne_nil

theorem steps_text {place : Place} (h : ∀ name ∈ place, Plain name) :
    steps (text place) = place.map .into := by
  have hparts : parts (text place) = place := by
    unfold text
    split
    · next hnil =>
      rw [hnil]
      rfl
    · exact parts_text h
  unfold steps
  rw [hparts, List.filterMap_eq_map_iff_forall_eq_some.2]
  intro name hname
  obtain ⟨-, -, hdot, hdots⟩ := h name hname
  unfold step
  split
  · exact absurd rfl hdot
  · exact absurd rfl hdots
  · rfl

/-! ## A directory in the roots -/

variable {os t process} {place real : Place} {roots : List Name} {cwd : Name}

/-- A place below what one of the roots leads to. -/
def WithinRoots (t : Fs) (process : Process) (roots : List Name) (place : Place) : Prop :=
  ∃ root ∈ roots, ∃ realRoot,
    (∃ links, t.walk links [] ((resolve process.cwd root).map .into) = .ok realRoot) ∧
      realRoot <+: place

theorem mem_of_mapM {α β ε : Type} {f : α → Except ε β} {xs : List α} {ys : List β}
    (h : xs.mapM f = .ok ys) {y : β} (hy : y ∈ ys) : ∃ x ∈ xs, f x = .ok y := by
  induction xs generalizing ys with
  | nil =>
    cases h
    cases hy
  | cons x xs ih =>
    rw [List.mapM_cons, bind_ok] at h
    obtain ⟨first, hfirst, h⟩ := h
    obtain ⟨rest, hrest, h⟩ := bind_ok.1 h
    cases h
    rcases List.mem_cons.1 hy with rfl | hy
    · exact ⟨x, List.mem_cons_self, hfirst⟩
    · obtain ⟨x', hx', heq⟩ := ih hrest hy
      exact ⟨x', List.mem_cons_of_mem _ hx', heq⟩

/-- The text of a place means the place. -/
theorem resolve_text {base : Place} (h : ∀ name ∈ place, Plain name) :
    resolve base (text place) = place := by
  have habsolute : isAbsolute (text place) = true := by
    unfold text
    split
    · rfl
    · next hne =>
      cases place with
      | nil => exact absurd rfl hne
      | cons name place => rfl
  unfold resolve
  rw [steps_text h, if_pos habsolute, lexical_names]
  rfl

/-- What is above what is there, a path that was resolved leads to. -/
theorem leads_of_ends {path root : Place} (h : Ends t path root) (hpre : root <+: place)
    (hsolid : t.Solid place) (hpipe : t.entry place ≠ some (.file .pipe)) :
    ∃ links, t.walk links [] (path.map .into) = .ok root := by
  obtain ⟨rest, rfl⟩ := hpre
  have hwalk : t.walk 0 [] ((root ++ rest).map .into) = .ok (root ++ rest) := walk_solid hsolid
  rcases h with (⟨-, hleads⟩ | ⟨-, hpass⟩) | ⟨-, front, name, more, rfl, hfront, hblocked⟩
  · exact hleads
  · exact absurd ((hpass.append rest).found hwalk) hpipe
  · -- a name that is missing is before nothing
    rw [List.append_assoc, List.map_append, walk_names _ _ hfront, List.cons_append, List.map_cons,
      ← List.singleton_append] at hwalk
    exact absurd hwalk (hblocked.append _ 0 _)

/-- What lies in an accepted directory lies in one of the roots. -/
theorem within_of_resolved (hstraight : t.Straight) {resolved realRoot : Place}
    (h : resolveWithinRoots os t process roots cwd = some resolved)
    (hroot : RealRoot t (text resolved) realRoot) (hplace : realRoot <+: place) :
    WithinRoots t process roots place := by
  obtain ⟨⟨links, hwalk⟩, hpipe⟩ := hroot
  have hsolid := walk_ok_solid t.solid_root hwalk
  unfold resolveWithinRoots at h
  dsimp only at h
  split at h
  · next realResolved realRoots hreal hroots =>
    split at h
    · next hany =>
      cases h
      obtain ⟨root', hmem, hinside⟩ := List.any_eq_true.1 hany
      obtain ⟨root, hroot', heq⟩ := mem_of_mapM hroots hmem
      rw [resolve_text (plain_resolve process.plain)] at hwalk
      have hsame : realResolved = realRoot := by
        rcases realpathExistingPrefix_spec hstraight hreal with
          (⟨-, links', hwalk'⟩ | ⟨hpass, -⟩) | ⟨hblocked, -⟩
        · exact walk_unique hwalk' hwalk
        · exact absurd (hpass.found hwalk) hpipe
        · exact absurd hwalk (hblocked links realRoot)
      have hpre := prefix_of_isInside hinside
      rw [hsame] at hpre
      have hends := realpathExistingPrefix_spec hstraight heq
      exact ⟨root, hroot', root', leads_of_ends hends hpre hsolid hpipe, hpre.trans hplace⟩
    · cases h
  · cases h

/-! ## What is served -/

/-- What an agent does for the primary, if it does anything. -/
structure ServesWithin (t : Fs) (process : Process) (roots : List Name)
    (outcome : Outcome Answer) : Prop where
  changed : ∀ place, outcome.2.entry place ≠ t.entry place → WithinRoots t process roots place
  shown : ∀ answer, outcome.1 = .ok answer → answer.ofFile = true →
    ∃ place bytes mtimeMs, WithinRoots t process roots place ∧
      t.entry place = some (.file (.regular bytes mtimeMs)) ∧ answer.Shows bytes mtimeMs
  listed : ∀ listing, outcome.1 = .ok (.listing listing) →
    ∃ place, WithinRoots t process roots place ∧ t.entry place = some .dir ∧
      ∀ e ∈ listing.entries, t.entry (place ++ [e.name]) ≠ none
  found : ∀ listing, outcome.1 = .ok (.found listing) →
    ∃ start, ∀ path ∈ listing.results, WithinRoots t process roots (start ++ path) ∧
      ∃ bytes mtimeMs, t.entry (start ++ path) = some (.file (.regular bytes mtimeMs))

/-- **An agent stays in its roots.** Whatever directory the primary names, in every tree in which no
link's text has a `..` behind the name of a link. -/
theorem served_within_roots (hstraight : t.Straight) (request : Request) {outcome : Outcome Answer}
    (h : serveWithinRoots os t process roots cwd request = some outcome) :
    ServesWithin t process roots outcome := by
  unfold serveWithinRoots at h
  obtain ⟨resolved, hresolved, rfl⟩ := Option.map_eq_some_iff.1 h
  have hcontained := @serve_contained os t (text resolved) hstraight request
  exact {
    changed := fun place hne => by
      obtain ⟨realRoot, hroot, hpre, -⟩ := hcontained.changed place hne
      exact within_of_resolved hstraight hresolved hroot hpre
    shown := fun answer hanswer hfile => by
      obtain ⟨place, bytes, mtimeMs, ⟨realRoot, hroot, hpre, -⟩, hentry, hshows⟩ :=
        hcontained.shown answer hanswer hfile
      exact ⟨place, bytes, mtimeMs, within_of_resolved hstraight hresolved hroot hpre, hentry,
        hshows⟩
    listed := fun listing hlisting => by
      obtain ⟨realRoot, place, hroot, hpre, hdir, hall, -⟩ := hcontained.listed listing hlisting
      exact ⟨place, within_of_resolved hstraight hresolved hroot hpre, hdir, hall⟩
    found := fun listing hlisting => by
      obtain ⟨start, hall⟩ := hcontained.found listing hlisting
      refine ⟨start, fun path hpath => ?_⟩
      obtain ⟨⟨realRoot, hroot, hpre, -⟩, hentry⟩ := hall path hpath
      exact ⟨within_of_resolved hstraight hresolved hroot hpre, hentry⟩ }

namespace Sample

/-- Where the agent runs. -/
def agent : Process := ⟨['/'], [], nofun⟩

def linked : Name := project ++ ['/', 'l']

def outside : Name := project ++ ['/', 'd']

end Sample

open Sample in
theorem served_of_link :
    ∃ outcome, serveWithinRoots linux straight agent [project] linked (mkdir 'l') =
        some outcome ∧
      ServesWithin straight agent [project] outcome ∧
      outcome.2.entry [['p'], ['n']] = some .dir ∧
      serveWithinRoots linux straight agent [project] outside (mkdir 'l') = none := by
  have hserved : ((serveWithinRoots linux straight agent [project] linked (mkdir 'l')).map
      fun outcome => outcome.2.entry [['p'], ['n']]) = some (some .dir) := by
    decide
  obtain ⟨outcome, houtcome, hentry⟩ := Option.map_eq_some_iff.1 hserved
  exact ⟨outcome, houtcome, served_within_roots straight_straight _ houtcome, hentry, by decide⟩

/-! ## External files -/

/-- A file that is read outside any project lies in one of the folders of the setting, which is
neither the root of the file system nor the home directory. -/
theorem external_contained (hstraight : t.Straight) {absPath : Name} {folders : List Name}
    {content : ProjectFileContent}
    (h : readExternalFile os t process absPath folders = .ok content) :
    ∃ folder ∈ folders, resolve process.cwd (expandHome process folder) ≠ [] ∧
      resolve process.cwd (expandHome process folder) ≠ resolve process.cwd process.home ∧
      FromFile t (text (resolve process.cwd (expandHome process folder)))
        (.content content) := by
  unfold readExternalFile at h
  dsimp only at h
  split at h
  · cases h
  · split at h
    · next root hroot =>
      have hmem := List.mem_of_find?_eq_some hroot
      have hallowed := List.find?_some hroot
      obtain ⟨folder, hfolder, rfl⟩ := List.mem_map.1 hmem
      simp only [Bool.and_eq_true, decide_eq_true_eq] at hallowed
      exact ⟨folder, hfolder, hallowed.1.1.1, hallowed.1.1.2, read_shows hstraight h⟩
    · cases h

namespace Sample

/-- With a file in the project. -/
def filed : Fs :=
  straight.create [['p']] ['f'] (.file (.regular [104, 105] 0)) rfl (by decide)

def read : ProjectFileContent := ⟨[['l'], ['f']], ['h', 'i'], 2, 0, some [['f']]⟩

end Sample

open Sample in
/-- The file is read through the link. -/
theorem external_contained_of_link : ∃ folder ∈ [project], FromFile filed
    (text (resolve agent.cwd (expandHome agent folder))) (.content read) := by
  have hread : readExternalFile linux filed agent (linked ++ ['/', 'f']) [project] = .ok read := by
    decide
  obtain ⟨folder, hfolder, -, -, hfile⟩ :=
    external_contained (straight_straight.create rfl (by decide) (by simp)) hread
  exact ⟨folder, hfolder, hfile⟩

end Files
end Mullion
