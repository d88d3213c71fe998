import Mullion.Files.Realpath

/-!
# Paths that stay in a directory

The functions of `safe-path.ts`, and where a call to the file system acts.  `realpathExistingPrefix`
resolves a path as far as it is there and appends the rest.  Is what it gives the place where a call
on it acts?

It is (`leaf_of_reached`, `leaf_below_reached`), or the call acts on a link or a pipe, of which
every operation makes an error.  `realpathExistingPrefix_spec` follows the names: what has been
resolved is free of links, so the next name is looked up there by the kernel as well; and behind a
name that is missing no call reaches anything (`Blocked`).
-/

namespace Mullion
namespace Files

open FileTree DirTree

/-! ## Texts -/

/-- `path.basename`. -/
def basename (path : Name) : Name :=
  ((path.reverse.dropWhile (· = '/')).takeWhile (· ≠ '/')).reverse

/-- `path.dirname`. -/
def dirname (path : Name) : Name :=
  let front := (path.reverse.dropWhile (· = '/')).dropWhile (· ≠ '/')
  match front with
  | [] => if isAbsolute path then ['/'] else ['.']
  | ['/'] => ['/']
  | ['/', '/'] => ['/', '/']
  | _ :: rest => rest.reverse

/-- The names, with slashes between them. -/
def joined (place : Place) : Name := List.intercalate ['/'] place

/-- `target === root || target.startsWith(root + path.sep)`; behind the root of the file system a
second slash never comes. -/
def isInside (root target : Place) : Bool :=
  target = root || (root ≠ [] && root.isPrefixOf target)

theorem prefix_of_isInside {root target : Place} (h : isInside root target = true) :
    root <+: target := by
  unfold isInside at h
  rw [Bool.or_eq_true, Bool.and_eq_true] at h
  rcases h with h | ⟨-, h⟩
  · rw [of_decide_eq_true h]
  · exact List.isPrefixOf_iff_prefix.1 h

/-! ## The file system -/

inductive Errno
  | ENOENT
  | ENOTDIR
  | EISDIR
  | ELOOP
  | ENXIO
  | EEXIST
  | ENOTEMPTY
  | EINVAL
  /-- a refusal of `link` -/
  | EPERM
  deriving DecidableEq, Repr

def errno : Obstacle → Errno
  | .missing => .ENOENT
  | .notDir => .ENOTDIR
  | .loop => .ELOOP

variable (os : Os) (t : Fs)

/-- The place of an entry itself, which is not followed if it is a link. -/
def leaf (path : Place) : Except Errno Place :=
  match path.getLast? with
  | none => .ok []
  | some name =>
    match t.walk os.maxLinks [] (path.dropLast.map .into) with
    | .error why => .error (errno why)
    | .ok dir => if t.entry dir = some .dir then .ok (dir ++ [name]) else .error .ENOTDIR

/-! ## `safe-path.ts` -/

/-- `none` is a `PathEscapeError`. -/
def resolveWithin (root relPath : Name) : Option Place :=
  let resolvedRoot := resolve [] root
  let target := resolve resolvedRoot relPath
  if isInside resolvedRoot target then some target else none

/-- The loop of `realpathExistingPrefix`, at `real` with these segments to go. -/
def realpathFrom (real : Place) : List Name → Except Obstacle Place
  | [] => .ok real
  | name :: rest =>
    match realpathSync os t (real ++ [name]) with
    | .ok real => realpathFrom real rest
    | .error .missing => .ok (real ++ name :: rest)
    | .error why => .error why

def realpathExistingPrefix (path : Place) : Except Obstacle Place := realpathFrom os t [] path

/-! ## What it gives -/

variable {os t} {path place real : Place} {name : Name}

/-- Where a path leads of which nothing is known but its beginning, as far as that is there. -/
def Ends (t : Fs) (path real : Place) : Prop :=
  Answers t path (.ok real) ∨
    t.Blocked [] (path.map .into) ∧ ∃ front name rest, real = front ++ name :: rest ∧
      t.Solid front ∧ t.Blocked front [.into name]

/-- What comes behind a path that was resolved. -/
theorem Answers.behind {front more : Place} (h : Answers t front (.ok place))
    (hmore : Answers t (place ++ more) (.ok real)) : Answers t (front ++ more) (.ok real) := by
  rcases h with ⟨hsolid, links, hwalk⟩ | ⟨hfront, hplace⟩
  · have hhere : t.walk 0 [] (place.map .into) = .ok place := walk_solid hsolid
    exact hmore.of_text hwalk hhere
  · refine .inr ⟨hfront.append more, ?_⟩
    rcases hmore with ⟨hsolid, links, hwalk⟩ | ⟨-, hreal⟩
    · exact .of_pipe hsolid ((hplace.append more).found hwalk)
    · exact hreal

/-- The induction is on the names to go. -/
theorem realpathFrom_spec (hstraight : t.Straight) {front rest : Place}
    (h : Answers t front (.ok place)) (hreal : realpathFrom os t place rest = .ok real) :
    Ends t (front ++ rest) real := by
  induction rest generalizing front place with
  | nil =>
    cases hreal
    rw [List.append_nil]
    exact .inl h
  | cons name rest ih =>
    have hspec : Answers t (place ++ [name]) (realpathSync os t (place ++ [name])) :=
      realpathSync_spec hstraight _
    rw [realpathFrom] at hreal
    rw [List.append_cons]
    split at hreal
    · next place' hplace =>
      rw [hplace] at hspec
      exact ih (h.behind hspec) hreal
    · next hmissing =>
      cases hreal
      rw [hmissing] at hspec
      have hnone : t.Blocked [] ((place ++ [name]).map .into) := hspec rfl
      rcases h with ⟨hsolid, links, hwalk⟩ | ⟨hfront, hplace⟩
      · have hblocked : t.Blocked place [.into name] := by
          intro links' found hfound
          refine hnone links' found ?_
          rw [List.map_append, walk_names _ _ hsolid]
          exact hfound
        refine .inr ⟨?_, place, name, rest, rfl, hsolid, hblocked⟩
        rw [List.map_append]
        refine Blocked.append (fun links' found hfound => ?_) _
        rw [List.map_append] at hfound
        obtain ⟨mid, hmid, hname⟩ := walk_append hfound
        obtain rfl := walk_unique hmid hwalk
        exact hblocked links' found hname
      · rw [List.append_assoc]
        exact .inl (.inr ⟨hfront.append _, hplace.append _⟩)
    · cases hreal

/-- **Where `realpathExistingPrefix` ends.** -/
theorem realpathExistingPrefix_spec (hstraight : t.Straight)
    (h : realpathExistingPrefix os t path = .ok real) : Ends t path real := by
  have hroot : Answers t [] (.ok []) := .inl ⟨t.solid_root, 0, walk_solid t.solid_root⟩
  exact realpathFrom_spec hstraight hroot h

/-! ## Where a call on it acts -/

/-- A place that is there, or a place that no call can reach behind what is there, or a path that
passes a pipe. -/
def Reached (t : Fs) (real : Place) : Prop :=
  t.Solid real ∨ (∃ front name rest, real = front ++ name :: rest ∧ t.Solid front ∧
    t.Blocked front [.into name]) ∨ Passes t [] real

theorem Ends.reached (h : Ends t path real) : Reached t real := by
  rcases h with (⟨hsolid, -⟩ | ⟨-, hpass⟩) | ⟨-, hblocked⟩
  · exact .inl hsolid
  · exact .inr (.inr hpass)
  · exact .inr (.inl hblocked)

/-- A call acts where its path says, if the path to its last name is solid. -/
theorem leaf_of_solid (h : t.Solid real) {found : Place}
    (hleaf : leaf os t (real ++ [name]) = .ok found) :
    found = real ++ [name] ∧ t.entry real = some .dir := by
  unfold leaf at hleaf
  rw [List.getLast?_concat, List.dropLast_concat, walk_solid h] at hleaf
  dsimp only at hleaf
  split at hleaf
  · next hdir =>
    cases hleaf
    exact ⟨rfl, hdir⟩
  · cases hleaf

theorem leaf_of_blocked {front rest : Place} (hfront : t.Solid front)
    (hblocked : t.Blocked front [.into name]) {last : Name} {found : Place} :
    leaf os t (front ++ name :: rest ++ [last]) ≠ .ok found := by
  unfold leaf
  rw [List.getLast?_concat, List.dropLast_concat, List.map_append]
  have hwalk := t.walk_names os.maxLinks ((name :: rest).map .into) hfront
  rw [hwalk, List.map_cons, ← List.singleton_append]
  have hnone := hblocked.append (rest.map .into) os.maxLinks
  dsimp only
  split
  · exact nofun
  · next dir hdir => exact absurd hdir (hnone dir)

/-- The place of an entry lies in the directory to which the path leads. -/
theorem leaf_spec {found : Place} (h : leaf os t (real ++ [name]) = .ok found) :
    ∃ dir, t.walk os.maxLinks [] (real.map .into) = .ok dir ∧ t.entry dir = some .dir ∧
      found = dir ++ [name] := by
  unfold leaf at h
  rw [List.getLast?_concat, List.dropLast_concat] at h
  dsimp only at h
  split at h
  · cases h
  · next dir hwalk =>
    split at h
    · next hdir =>
      cases h
      exact ⟨dir, hwalk, hdir, rfl⟩
    · cases h

/-- Nothing is in a pipe. -/
theorem leaf_below_pipe (h : Passes t [] real) {found : Place} :
    leaf os t (real ++ [name]) ≠ .ok found := by
  intro hleaf
  obtain ⟨dir, hwalk, hdir, -⟩ := leaf_spec hleaf
  have hpipe := h.found hwalk
  rw [hdir] at hpipe
  cases hpipe

/-- A link, or a pipe. -/
def Stuck (entry : Entry Name Content) : Prop := entry.isLink = true ∨ entry = .file .pipe

/-- Where a path passes a pipe, its last name is a link or a pipe. -/
theorem leaf_of_passes (h : Passes t [] real) {found : Place}
    (hleaf : leaf os t real = .ok found) : ∃ e, t.entry found = some e ∧ Stuck e := by
  obtain ⟨front, back, links, pipe, heq, hwalk, hpipe⟩ := h
  cases back using List.reverseRecOn with
  | append_singleton back name =>
    rw [heq, ← List.append_assoc] at hleaf
    have hpass : Passes t [] (front ++ back) := ⟨front, back, links, pipe, rfl, hwalk, hpipe⟩
    exact absurd hleaf (leaf_below_pipe hpass)
  | nil =>
    rw [List.append_nil] at heq
    rw [heq] at hleaf
    cases front using List.reverseRecOn with
    | nil =>
      rw [List.map_nil, walk.eq_def] at hwalk
      cases hwalk
      rw [t.root] at hpipe
      cases hpipe
    | append_singleton front name =>
      obtain ⟨dir, hdir, hentry, rfl⟩ := leaf_spec hleaf
      rw [List.map_append] at hwalk
      obtain ⟨mid, hmid, hlast⟩ := walk_append hwalk
      obtain rfl := walk_unique hmid hdir
      rw [List.map_singleton, walk.eq_def, advance, hentry] at hlast
      dsimp only at hlast
      cases hfound : t.entry (mid ++ [name]) with
      | none =>
        rw [hfound] at hlast
        cases hlast
      | some e =>
        refine ⟨e, rfl, ?_⟩
        cases e with
        | link target => exact .inl rfl
        | dir =>
          rw [hfound] at hlast
          cases hlast
          rw [hfound] at hpipe
          cases hpipe
        | file content =>
          rw [hfound] at hlast
          cases hlast
          rw [hfound] at hpipe
          cases hpipe
          exact .inr rfl

/-- A call on what `realpathExistingPrefix` gives acts there, or on a link or a pipe, or fails. -/
theorem leaf_of_reached (h : Reached t real) {found : Place}
    (hleaf : leaf os t real = .ok found) :
    found = real ∨ ∃ e, t.entry found = some e ∧ Stuck e := by
  rcases h with hsolid | ⟨front, name, rest, rfl, hfront, hblocked⟩ | hpass
  · cases real using List.reverseRecOn with
    | nil =>
      cases hleaf
      exact .inl rfl
    | append_singleton real name => exact .inl (leaf_of_solid (.of_dir hsolid.parent) hleaf).1
  · cases rest using List.reverseRecOn with
    | nil => exact .inl (leaf_of_solid hfront hleaf).1
    | append_singleton rest last =>
      rw [← List.cons_append, ← List.append_assoc] at hleaf
      exact absurd hleaf (leaf_of_blocked hfront hblocked)
  · exact .inr (leaf_of_passes hpass hleaf)

/-- A call on a name in it acts there, or fails. -/
theorem leaf_below_reached (h : Reached t real) {found : Place}
    (hleaf : leaf os t (real ++ [name]) = .ok found) :
    found = real ++ [name] ∧ t.entry real = some .dir := by
  rcases h with hsolid | ⟨front, name', rest, rfl, hfront, hblocked⟩ | hpass
  · exact leaf_of_solid hsolid hleaf
  · exact absurd hleaf (leaf_of_blocked hfront hblocked)
  · exact absurd hleaf (leaf_below_pipe hpass)

/-- The whole path leads there, or to a pipe, or nowhere. -/
theorem walk_of_reached (h : Reached t real) {links : ℕ} {found : Place}
    (hwalk : t.walk links [] (real.map .into) = .ok found) :
    found = real ∨ t.entry found = some (.file .pipe) := by
  rcases h with hsolid | ⟨front, name, rest, rfl, hfront, hblocked⟩ | hpass
  · rw [walk_solid hsolid] at hwalk
    cases hwalk
    exact .inl rfl
  · have hinto := t.walk_names links ((name :: rest).map .into) hfront
    rw [List.map_append, hinto, List.map_cons, ← List.singleton_append] at hwalk
    exact absurd hwalk (hblocked.append (rest.map .into) links found)
  · exact .inr (hpass.found hwalk)

end Files
end Mullion
