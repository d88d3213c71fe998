import Mullion.Files.SafePath

/-!
# Calls to the file system

The calls that `project-files.ts` makes, on the tree as the kernel sees it (`lstatSync` to
`renameSync`), and what each of them leaves (`mkdir_spec` to `rename_spec`), on a path on which a
call acts where the path says (`Direct`).
-/

namespace Mullion
namespace Files

open FileTree DirTree

/-! ## The calls -/

section Calls

variable (os : Os) (t : Fs)

def lstatSync (path : Place) : Except Errno (Entry Name Content) := do
  let place ← leaf os t path
  match t.entry place with
  | some entry => .ok entry
  | none => .error .ENOENT

def statSync (path : Place) : Except Errno (Entry Name Content) :=
  match t.walk os.maxLinks [] (path.map .into) with
  | .error why => .error (errno why)
  | .ok place =>
    match t.entry place with
    | some entry => .ok entry
    | none => .error .ENOENT

/-- `openSync` with `O_RDONLY`, `O_NOFOLLOW` and `O_NONBLOCK`. -/
def openRead (path : Place) : Except Errno Place := do
  let place ← leaf os t path
  match t.entry place with
  | none => .error .ENOENT
  | some (.link _) => .error .ELOOP
  | some _ => .ok place

/-- `openSync` with `O_WRONLY`, `O_NOFOLLOW` and `O_NONBLOCK`. -/
def openWrite (path : Place) : Except Errno Place := do
  let place ← leaf os t path
  match t.entry place with
  | none => .error .ENOENT
  | some (.link _) => .error .ELOOP
  | some .dir => .error .EISDIR
  | some (.file .pipe) => .error Errno.ENXIO
  | some _ => .ok place

/-- A new entry, where there is none. -/
def creat (place : Place) (entry : Entry Name Content) : Except Errno Fs :=
  match place.getLast? with
  | none => .error .EEXIST
  | some name =>
    if hdir : t.entry place.dropLast = some .dir then
      if hfree : t.entry (place.dropLast ++ [name]) = none then
        .ok (t.create place.dropLast name entry hdir hfree)
      else .error .EEXIST
    else .error .ENOTDIR

/-- An entry is gone, if nothing lies in it. -/
def erase (place : Place) : Except Errno Fs :=
  if h : place ≠ [] ∧ t.children place = [] then
    .ok (t.remove place h.1 (children_eq_nil.1 h.2))
  else .error .ENOTEMPTY

/-- `ftruncateSync` and `writeFileSync`. -/
def fill (place : Place) (bytes : List UInt8) : Except Errno Fs :=
  match h : t.entry place with
  | some (.file old) => .ok (t.write place old (.regular bytes os.nowMs) h)
  | _ => .error .EINVAL

/-- The names in a directory, with what they are. -/
def dirents (place : Place) : List (Name × Entry Name Content) :=
  (t.children place).filterMap fun name => (t.entry (place ++ [name])).map (name, ·)

def readdirSync (path : Place) : Except Errno (List (Name × Entry Name Content)) :=
  match t.walk os.maxLinks [] (path.map .into) with
  | .error why => .error (errno why)
  | .ok place => if t.entry place = some .dir then .ok (dirents t place) else .error .ENOTDIR

def mkdirSync (path : Place) : Except Errno Fs := do
  let place ← leaf os t path
  creat t place .dir

/-- `openSync` with `O_WRONLY`, `O_CREAT`, `O_EXCL` and `O_NOFOLLOW`. -/
def openNew (path : Place) : Except Errno (Place × Fs) := do
  let place ← leaf os t path
  let made ← creat t place (.file (.regular [] os.nowMs))
  .ok (place, made)

def unlinkSync (path : Place) : Except Errno Fs := do
  let place ← leaf os t path
  match t.entry place with
  | none => .error .ENOENT
  | some .dir => .error .EISDIR
  | some _ => erase t place

def rmdirSync (path : Place) : Except Errno Fs := do
  let place ← leaf os t path
  match t.entry place with
  | none => .error .ENOENT
  | some .dir => erase t place
  | some _ => .error .ENOTDIR

def linkSync (old new : Place) : Except Errno Fs := do
  let source ← leaf os t old
  match t.entry source with
  | none => .error .ENOENT
  | some entry =>
    let target ← leaf os t new
    if (t.entry target).isSome then .error .EEXIST
    else if entry = .dir || !os.hardLinks then .error .EPERM
    else creat t target entry

/-- A rename, which replaces what is there if it may. -/
def replace (source dir : Place) (name : Name) : Except Errno Fs :=
  if h : source ≠ [] ∧ ¬ source <+: dir ∧ t.entry dir = some .dir then
    .ok (t.move source dir name h.1 h.2.2 h.2.1)
  else .error .EINVAL

def renameSync (old new : Place) : Except Errno Fs := do
  let source ← leaf os t old
  let target ← leaf os t new
  match t.entry source, t.entry target, target.getLast? with
  | none, _, _ => .error .ENOENT
  | some _, _, none => .error .EINVAL
  | some entry, there, some name =>
    if source = target then .ok t
    else match entry, there with
      | _, none => replace t source target.dropLast name
      | .dir, some .dir =>
        if t.children target = [] then replace t source target.dropLast name
        else .error .ENOTEMPTY
      | .dir, some _ => .error .ENOTDIR
      | _, some .dir => .error .EISDIR
      | _, some _ => replace t source target.dropLast name

end Calls


/-! ## Where they act -/

variable {os : Os} {t t' : Fs} {path old new : Place} {entry : Entry Name Content}

theorem bind_ok {ε α β : Type} {x : Except ε α} {f : α → Except ε β} {b : β} :
    (x >>= f) = .ok b ↔ ∃ a, x = .ok a ∧ f a = .ok b := by
  cases x with
  | error e => exact ⟨nofun, fun ⟨_, h, _⟩ => nomatch h⟩
  | ok a => exact ⟨fun h => ⟨a, rfl, h⟩, fun ⟨_, h, hf⟩ => by cases h; exact hf⟩

/-- A call on this path acts there, or fails. -/
def Direct (os : Os) (t : Fs) (path : Place) : Prop :=
  ∀ found, leaf os t path = .ok found → found = path

/-- What is there is found. -/
theorem leaf_of_entry (h : t.entry path ≠ none) : leaf os t path = .ok path := by
  cases path using List.reverseRecOn with
  | nil => rfl
  | append_singleton dir name =>
    have hdir := t.parent _ _ h
    unfold leaf
    rw [List.getLast?_concat, List.dropLast_concat, walk_solid (.of_dir hdir)]
    dsimp only
    rw [if_pos hdir]

theorem Direct.of_entry (h : t.entry path ≠ none) : Direct os t path := by
  intro found hfound
  rw [leaf_of_entry h] at hfound
  cases hfound
  rfl

/-- In a directory that is there, a call acts where its path says. -/
theorem Direct.of_parent {name : Name} (h : t.Solid path) : Direct os t (path ++ [name]) :=
  fun _ hfound => (leaf_of_solid h hfound).1

theorem Direct.below_reached {real : Place} {name : Name} (h : Reached t real) :
    Direct os t (real ++ [name]) :=
  fun _ hfound => (leaf_below_reached h hfound).1

/-! ## What they leave -/

/-- The place is in a directory that is there. -/
def Held (t : Fs) (path : Place) : Prop :=
  ∃ dir name, path = dir ++ [name] ∧ t.entry dir = some .dir

/-- What is there is in a directory, but for the root. -/
theorem Held.of_entry (hne : path ≠ []) (h : t.entry path ≠ none) : Held t path := by
  cases path using List.reverseRecOn with
  | nil => exact absurd rfl hne
  | append_singleton dir name => exact ⟨dir, name, rfl, t.parent _ _ h⟩

theorem creat_spec (h : creat t path entry = .ok t') :
    Held t path ∧ t.entry path = none ∧ t'.entry = Function.update t.entry path (some entry) := by
  unfold creat at h
  cases path using List.reverseRecOn with
  | nil => cases h
  | append_singleton dir name =>
    rw [List.getLast?_concat] at h
    dsimp only at h
    split at h
    · next hdir =>
      split at h
      · next hfree =>
        cases h
        simp only [List.dropLast_concat] at hdir hfree ⊢
        exact ⟨⟨dir, name, rfl, hdir⟩, hfree, rfl⟩
      · cases h
    · cases h

theorem erase_spec (h : erase t path = .ok t') :
    path ≠ [] ∧ t'.entry = Function.update t.entry path none := by
  unfold erase at h
  split at h
  · next hempty =>
    cases h
    exact ⟨hempty.1, rfl⟩
  · cases h

theorem fill_spec {bytes : List UInt8} (h : fill os t path bytes = .ok t') :
    (∃ content, t.entry path = some (.file content)) ∧
      t'.entry = Function.update t.entry path (some (.file (.regular bytes os.nowMs))) := by
  unfold fill at h
  split at h
  · next content hcontent =>
    cases h
    exact ⟨⟨content, hcontent⟩, rfl⟩
  · cases h

theorem lstat_of_entry (h : t.entry path = some entry) : lstatSync os t path = .ok entry := by
  refine bind_ok.2 ⟨path, leaf_of_entry (by rw [h]; exact nofun), ?_⟩
  rw [h]

/-- Where `lstatSync` fails there is nothing. -/
theorem none_of_lstat {errno : Errno} (h : lstatSync os t path = .error errno) :
    t.entry path = none := by
  by_contra hne
  obtain ⟨entry, hentry⟩ := Option.ne_none_iff_exists'.1 hne
  rw [lstat_of_entry hentry] at h
  cases h

/-- What is opened to be read is there, or a pipe. -/
theorem openRead_spec {place : Place} (hreached : Reached t path)
    (h : openRead os t path = .ok place) :
    place = path ∨ t.entry place = some (.file .pipe) := by
  rw [openRead, bind_ok] at h
  obtain ⟨found, hfound, h⟩ := h
  split at h
  · cases h
  · cases h
  · next e hlink he =>
    cases h
    rcases leaf_of_reached hreached hfound with heq | ⟨e', he', hstuck | rfl⟩
    · exact .inl heq
    · rw [he] at he'
      cases he'
      cases e with
      | link target => exact absurd rfl (hlink target)
      | _ => cases hstuck
    · exact .inr he'

theorem openWrite_spec {place : Place} (hreached : Reached t path)
    (h : openWrite os t path = .ok place) : place = path := by
  rw [openWrite, bind_ok] at h
  obtain ⟨found, hfound, h⟩ := h
  split at h
  · cases h
  · cases h
  · cases h
  · cases h
  · next e hlink hdir hpipe he =>
    cases h
    rcases leaf_of_reached hreached hfound with heq | ⟨e', he', hstuck | rfl⟩
    · exact heq
    · rw [he] at he'
      cases he'
      cases e with
      | link target => exact absurd rfl (hlink target)
      | _ => cases hstuck
    · rw [he] at he'
      cases he'
      exact absurd rfl hpipe

theorem mkdir_spec (hdirect : Direct os t path) (h : mkdirSync os t path = .ok t') :
    Held t path ∧ t.entry path = none ∧ t'.entry = Function.update t.entry path (some .dir) := by
  obtain ⟨place, hplace, h⟩ := bind_ok.1 h
  rw [hdirect place hplace] at h
  exact creat_spec h

theorem openNew_spec {place : Place} (h : openNew os t path = .ok (place, t')) :
    leaf os t path = .ok place ∧ Held t place ∧ t.entry place = none ∧
      t'.entry = Function.update t.entry place (some (.file (.regular [] os.nowMs))) := by
  rw [openNew, bind_ok] at h
  obtain ⟨found, hfound, h⟩ := h
  obtain ⟨made, hmade, h⟩ := bind_ok.1 h
  cases h
  exact ⟨hfound, creat_spec hmade⟩

theorem unlink_spec (hdirect : Direct os t path) (h : unlinkSync os t path = .ok t') :
    Held t path ∧ t'.entry = Function.update t.entry path none := by
  obtain ⟨place, hplace, h⟩ := bind_ok.1 h
  rw [hdirect place hplace] at h
  split at h
  · cases h
  · cases h
  · next he =>
    obtain ⟨hne, hleft⟩ := erase_spec h
    exact ⟨.of_entry hne (by rw [he]; exact nofun), hleft⟩

/-- What is no directory is removed. -/
theorem unlink_ok (h : t.entry path = some entry) (hdir : entry ≠ .dir) :
    ∃ t', unlinkSync os t path = .ok t' := by
  have hentry : t.entry path ≠ some .dir := by
    rw [h]
    exact fun heq => hdir (Option.some.inj heq)
  have hempty : t.children path = [] :=
    children_eq_nil.2 fun name => none_of_append hentry (List.cons_ne_nil _ _)
  have hne : path ≠ [] := by
    rintro rfl
    exact hentry t.root
  refine ⟨t.remove path hne (children_eq_nil.1 hempty),
    bind_ok.2 ⟨path, leaf_of_entry (by rw [h]; exact nofun), ?_⟩⟩
  rw [h]
  cases entry with
  | dir => exact absurd rfl hdir
  | file content => exact dif_pos ⟨hne, hempty⟩
  | link target => exact dif_pos ⟨hne, hempty⟩

theorem rmdir_spec (hdirect : Direct os t path) (h : rmdirSync os t path = .ok t') :
    Held t path ∧ t'.entry = Function.update t.entry path none := by
  obtain ⟨place, hplace, h⟩ := bind_ok.1 h
  rw [hdirect place hplace] at h
  split at h
  · cases h
  · next he =>
    obtain ⟨hne, hleft⟩ := erase_spec h
    exact ⟨.of_entry hne (by rw [he]; exact nofun), hleft⟩
  · cases h

theorem link_spec (hold : Direct os t old) (hnew : Direct os t new)
    (h : linkSync os t old new = .ok t') :
    ∃ entry, t.entry old = some entry ∧ entry ≠ .dir ∧ Held t new ∧ t.entry new = none ∧
      t'.entry = Function.update t.entry new (some entry) := by
  obtain ⟨source, hsource, h⟩ := bind_ok.1 h
  rw [hold source hsource] at h
  split at h
  · cases h
  · next entry hentry =>
    obtain ⟨target, htarget, h⟩ := bind_ok.1 h
    rw [hnew target htarget] at h
    split at h
    · cases h
    · split at h
      · cases h
      · next hrefused =>
        rw [Bool.or_eq_true, not_or] at hrefused
        exact ⟨entry, hentry, of_decide_eq_false (Bool.eq_false_of_not_eq_true hrefused.1),
          creat_spec h⟩

/-- A rename to where nothing is moves all that is under the old name. -/
theorem rename_spec (hold : Direct os t old) (hnew : Direct os t new) (hfree : t.entry new = none)
    (h : renameSync os t old new = .ok t') :
    t.entry old ≠ none ∧ old ≠ [] ∧ Held t new ∧ ¬ old <+: new ∧ ∀ place, t'.entry place =
      if new <+: place then t.entry (old ++ place.drop new.length)
      else if old <+: place then none
      else t.entry place := by
  rw [renameSync, bind_ok] at h
  obtain ⟨source, hsource, h⟩ := h
  obtain rfl := hold source hsource
  rw [bind_ok] at h
  obtain ⟨target, htarget, h⟩ := h
  obtain rfl := hnew target htarget
  cases target using List.reverseRecOn with
  | nil =>
    rw [t.root] at hfree
    cases hfree
  | append_singleton dir name =>
    rw [List.getLast?_concat, hfree] at h
    cases hentry : t.entry source with
    | none =>
      rw [hentry] at h
      cases h
    | some entry =>
      rw [hentry] at h
      dsimp only at h
      split at h
      · next heq =>
        rw [heq, hfree] at hentry
        cases hentry
      · next hne =>
        rw [List.dropLast_concat] at h
        unfold replace at h
        split at h
        · next hok =>
          cases h
          refine ⟨?_, hok.1, ⟨dir, name, rfl, hok.2.2⟩, fun hpre => ?_, fun place => ?_⟩
          · exact nofun
          · rcases List.prefix_concat_iff.1 hpre with heq | hpre
            · exact hne heq
            · exact hok.2.1 hpre
          · rw [List.length_append, List.length_singleton]
            rfl
        · cases h

end Files
end Mullion
