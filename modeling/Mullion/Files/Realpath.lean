import Mullion.Lib.FileTree
import Mullion.Text

/-!
# The real path

`fs.realpathSync` is not what the kernel does with a path.  It reads the text of a link with
`path.resolve`, which drops a name before `..` without a look at what the name is, and it starts
over from the root; and once a link has led to a pipe or a socket it stops early, with what it has.
So where do its answers lie?

`realpathSync_ok` and `realpathSync_missing` compare it with the kernel's own walk.  What it returns
is where the path leads and is free of links, or else the path passes a pipe (`Passes`), behind
which nothing can be opened; and what it finds missing is missing for every call, if no link's text
has a `..` behind the name of a link (`Straight`).  The loop is followed from one link to the next:
under that condition the text of a link, read without looking, leads where the kernel goes
(`Straight.follow`).
-/

namespace Mullion
namespace Files

open FileTree DirTree

/-! ## Texts -/

/-- A name, or the text of a path. -/
abbrev Name := List Char

/-- An absolute path without dots, as its names. -/
abbrev Place := List Name

/-- The parts of a path. -/
def parts (path : Name) : List Name := (path.splitOn '/').filter (· ≠ [])

def step : Name → Option (Step Name)
  | ['.'] => none
  | ['.', '.'] => some .up
  | name => some (.into name)

def steps (path : Name) : List (Step Name) := (parts path).filterMap step

def isAbsolute (path : Name) : Bool := path.head? = some '/'

/-- `path.resolve`. -/
def resolve (base : Place) (path : Name) : Place :=
  (steps path).foldl lexical (if isAbsolute path then [] else base)

/-! ## The file system -/

/-- What a file holds. -/
inductive Content
  | regular (bytes : List UInt8) (mtimeMs : ℕ)
  /-- a pipe or a socket -/
  | pipe
  | device
  deriving DecidableEq, Repr

abbrev Fs := DirTree Name Content

/-- What the operating system decides, and the texts of the language. -/
structure Os where
  /-- how many links the kernel follows -/
  maxLinks : ℕ
  /-- behind so many links `realpathSync`, which has no limit, is taken not to return -/
  realpathLinks : ℕ
  /-- `link` is not refused (`EXDEV`, `EPERM`, `ENOTSUP`, `EMLINK`) -/
  hardLinks : Bool
  /-- `/proc/self/fd` is there -/
  procFd : Bool
  /-- the time that a write leaves -/
  nowMs : ℕ
  /-- `randomUUID` -/
  uuid : Name
  /-- `a.localeCompare(b) <= 0` -/
  localeLe : Name → Name → Bool
  /-- `query.trim().toLowerCase()` -/
  searched : Name → Name
  /-- `scorePath` finds a query in a path -/
  finds : Name → Name → Bool
  /-- the order of what is found, by score, length and text -/
  searchLe : Name → Name → Name → Bool

variable (os : Os) (t : Fs)

/-! ## `realpathSync` -/

/-- What the loop remembers: `knownHard`, `seenLinks`, and whether the last `stat` of a link has
found a pipe or a socket. -/
structure Memory where
  knownHard : List Place
  seenLinks : List Place
  piped : Bool

/-- How far the loop comes before it starts over. -/
inductive Scan
  | arrived (place : Place)
  | stopped (why : Obstacle)
  | atLink (memory : Memory) (dir : Place) (name : Name) (target : Target Name) (rest : List Name)

/-- At `base`, with these names to go. -/
def scan (memory : Memory) (base : Place) : List Name → Scan
  | [] => .arrived base
  | name :: rest =>
    if base ++ [name] ∈ memory.knownHard then
      -- `break if a pipe/socket`, with the rest of the path as it is
      if memory.piped then .arrived (base ++ name :: rest)
      else scan memory (base ++ [name]) rest
    else if t.entry base ≠ some .dir then .stopped .notDir
    else match t.entry (base ++ [name]) with
      | none => .stopped .missing
      | some (.link target) => .atLink memory base name target rest
      | some _ =>
        scan { memory with knownHard := (base ++ [name]) :: memory.knownHard } (base ++ [name]) rest

/-- The `stat` of a link that has not been read before. -/
def readLink (memory : Memory) (link : Place) : Except Obstacle Memory :=
  if link ∈ memory.seenLinks then .ok memory
  else (t.walk os.maxLinks [] (link.map .into)).map fun place =>
    { memory with
      seenLinks := link :: memory.seenLinks
      piped := t.entry place = some (.file .pipe) }

/-- The loop; `path.resolve` of the text of a link, and the rest of the path, start it over. -/
def realpathLoop : ℕ → Memory → Place → Except Obstacle Place
  | links, memory, path =>
    match scan t memory [] path with
    | .arrived place => .ok place
    | .stopped why => .error why
    | .atLink memory dir name target rest =>
      match links with
      | 0 => .error .loop
      | links + 1 =>
        match readLink os t memory (dir ++ [name]) with
        | .error why => .error why
        | .ok memory =>
          realpathLoop links memory (target.steps.foldl lexical (target.base dir) ++ rest)

def realpathSync (path : Place) : Except Obstacle Place :=
  realpathLoop os t os.realpathLinks ⟨[], [], false⟩ path

/-! ## Paths that pass a pipe -/

variable {os t} {p place real : Place} {names more : List Name}

/-- The path passes a pipe or a socket. -/
def Passes (t : Fs) (p : Place) (names : List Name) : Prop :=
  ∃ front back links pipe, names = front ++ back ∧
    t.walk links p (front.map .into) = .ok pipe ∧ t.entry pipe = some (.file .pipe)

/-- Nothing is found behind what is no directory. -/
theorem walk_file {links : ℕ} {found : Place} (h : t.entry p ≠ some .dir)
    (hwalk : t.walk links p (names.map .into) = .ok found) : names = [] ∧ found = p := by
  cases names with
  | nil =>
    rw [List.map_nil, walk.eq_def] at hwalk
    cases hwalk
    exact ⟨rfl, rfl⟩
  | cons name names =>
    rw [List.map_cons, walk.eq_def, advance] at hwalk
    split at hwalk
    · next hstep =>
      split at hstep
      · next hdir => exact absurd hdir h
      · cases hstep
    · cases hwalk
    · next hstep =>
      split at hstep
      · next hdir => exact absurd hdir h
      · cases hstep

theorem Passes.append (h : Passes t p names) (more : List Name) : Passes t p (names ++ more) := by
  obtain ⟨front, back, links, pipe, rfl, hwalk, hpipe⟩ := h
  exact ⟨front, back ++ more, links, pipe, List.append_assoc _ _ _, hwalk, hpipe⟩

/-- Where a path leads that passes a pipe: to the pipe, or nowhere. -/
theorem Passes.found (h : Passes t p names) {links : ℕ} {found : Place}
    (hwalk : t.walk links p (names.map .into) = .ok found) :
    t.entry found = some (.file .pipe) := by
  obtain ⟨front, back, links', pipe, rfl, hfront, hpipe⟩ := h
  rw [List.map_append] at hwalk
  obtain ⟨mid, hmid, hback⟩ := walk_append hwalk
  obtain rfl := walk_unique hmid hfront
  rw [(walk_file (by rw [hpipe]; exact nofun) hback).2]
  exact hpipe

theorem Passes.of_pipe (h : t.Solid place) (hpipe : t.entry place = some (.file .pipe)) :
    Passes t [] place :=
  ⟨place, [], 0, place, (List.append_nil place).symm, walk_solid h, hpipe⟩

theorem Passes.of_walk {links : ℕ} (hwalk : t.walk links p (names.map .into) = .ok place)
    (h : Passes t place more) : Passes t p (names ++ more) := by
  obtain ⟨front, back, links', pipe, rfl, hfront, hpipe⟩ := h
  refine ⟨names ++ front, back, links + links', pipe, (List.append_assoc _ _ _).symm, ?_, hpipe⟩
  rw [List.map_append]
  exact walk_trans hwalk hfront

theorem Passes.behind {links : ℕ} (hwalk : t.walk links p (names.map .into) = .ok place)
    (h : Passes t p (names ++ more)) : Passes t place more := by
  obtain ⟨front, back, links', pipe, heq, hfront, hpipe⟩ := h
  rcases List.append_eq_append_iff.1 heq with ⟨rest, rfl, rfl⟩ | ⟨rest, rfl, rfl⟩
  · rw [List.map_append] at hfront
    obtain ⟨mid, hmid, hrest⟩ := walk_append hfront
    obtain rfl := walk_unique hmid hwalk
    exact ⟨rest, back, links', pipe, rfl, hrest, hpipe⟩
  · -- the pipe comes before the place, which is the pipe then
    rw [List.map_append] at hwalk
    obtain ⟨mid, hmid, hrest⟩ := walk_append hwalk
    obtain rfl := walk_unique hmid hfront
    obtain ⟨rfl, rfl⟩ := walk_file (by rw [hpipe]; exact nofun) hrest
    exact ⟨[], more, 0, _, rfl, by rw [List.map_nil, walk.eq_def]; rfl, hpipe⟩

/-! ## Where it leads -/

/-- What the loop remembers is so. -/
structure Memory.Right (os : Os) (t : Fs) (memory : Memory) (path : Place) : Prop where
  knownHard : ∀ place ∈ memory.knownHard, t.Solid place
  seenLinks : ∀ link ∈ memory.seenLinks, ∃ place, t.walk os.maxLinks [] (link.map .into) = .ok place
  piped : memory.piped = true → Passes t [] path

/-- What the loop comes to before it starts over. -/
def Scanned (os : Os) (t : Fs) (base : Place) (names : List Name) : Scan → Prop
  | .arrived place => place = base ++ names ∧ (t.Solid place ∨ Passes t [] place)
  | .stopped why => why = .missing → t.Blocked base (names.map .into)
  | .atLink memory dir name target rest => base ++ names = dir ++ name :: rest ∧
      t.entry dir = some .dir ∧ t.entry (dir ++ [name]) = some (.link target) ∧
      memory.Right os t (base ++ names)

/-- A name that is no link is passed. -/
theorem Scanned.into {base : Place} {name : Name} {rest : List Name} {result : Scan}
    (hsolid : t.Solid (base ++ [name])) (h : Scanned os t (base ++ [name]) rest result) :
    Scanned os t base (name :: rest) result := by
  have hassoc : base ++ name :: rest = base ++ [name] ++ rest := List.append_cons base name rest
  cases result with
  | arrived place =>
    unfold Scanned
    rw [hassoc]
    exact h
  | stopped why =>
    refine fun hmissing links found hwalk => h hmissing links found ?_
    rw [List.map_cons, ← List.singleton_append, ← List.map_singleton, walk_into hsolid] at hwalk
    exact hwalk
  | atLink memory dir name' target rest' =>
    unfold Scanned
    rw [hassoc]
    exact h

theorem scan_spec {memory : Memory} {base : Place} (hbase : t.Solid base)
    (h : memory.Right os t (base ++ names)) :
    Scanned os t base names (scan t memory base names) := by
  induction names generalizing base memory with
  | nil => exact ⟨(List.append_nil base).symm, .inl hbase⟩
  | cons name rest ih =>
    rw [List.append_cons] at h
    rw [scan]
    split
    · next hknown =>
      split
      · next hpiped =>
        have hpass := h.piped hpiped
        rw [← List.append_cons] at hpass
        exact ⟨rfl, .inr hpass⟩
      · exact .into (h.knownHard _ hknown) (ih (h.knownHard _ hknown) h)
    · split
      · exact nofun
      · next hdir =>
        rw [not_not] at hdir
        split
        · next hnone =>
          refine fun _ links found hwalk => ?_
          rw [List.map_cons, walk.eq_def, advance, hdir, hnone] at hwalk
          cases hwalk
        · next target hlink =>
          rw [← List.append_cons] at h
          exact ⟨rfl, hdir, hlink, h⟩
        · next e hlink he =>
          have hsolid : t.Solid (base ++ [name]) := by
            refine ⟨e, he, ?_⟩
            cases e with
            | link target => exact absurd rfl (hlink target)
            | _ => rfl
          refine .into hsolid (ih hsolid ⟨fun place hmem => ?_, h.seenLinks, h.piped⟩)
          rcases List.mem_cons.1 hmem with rfl | hmem
          · exact hsolid
          · exact h.knownHard place hmem

/-- The text of a link, read without looking, leads where the link leads. -/
theorem link_text (hstraight : t.Straight) {dir : Place} {name : Name} {target : Target Name}
    {links : ℕ} (hdir : t.entry dir = some .dir)
    (hlink : t.entry (dir ++ [name]) = some (.link target))
    (hwalk : t.walk links [] ((dir ++ [name]).map .into) = .ok place) :
    ∃ links', t.walk links' []
      ((target.steps.foldl lexical (target.base dir)).map .into) = .ok place := by
  rw [List.map_append, walk_names _ _ (.of_dir hdir), List.map_singleton, walk.eq_def, advance,
    hdir, hlink] at hwalk
  cases links with
  | zero => cases hwalk
  | succ links =>
    have hfollow : t.walk links [] ((target.steps.foldl lexical (target.base dir) ++
        []).map .into) = .ok place := hstraight.follow hdir hlink hwalk
    rw [List.append_nil] at hfollow
    exact ⟨links, hfollow⟩

/-- What is remembered of a link that is read. -/
theorem readLink_spec {memory memory' : Memory} {dir rest : Place} {name : Name}
    {target : Target Name} (hstraight : t.Straight) (hdir : t.entry dir = some .dir)
    (hlink : t.entry (dir ++ [name]) = some (.link target))
    (h : memory.Right os t (dir ++ name :: rest))
    (hread : readLink os t memory (dir ++ [name]) = .ok memory') :
    (∃ place, t.walk os.maxLinks [] ((dir ++ [name]).map .into) = .ok place) ∧
      memory'.Right os t (target.steps.foldl lexical (target.base dir) ++ rest) := by
  have hpath : dir ++ name :: rest = dir ++ [name] ++ rest := List.append_cons dir name rest
  have hnext : ∀ {place}, t.walk os.maxLinks [] ((dir ++ [name]).map .into) = .ok place →
      Passes t place rest → Passes t [] (target.steps.foldl lexical (target.base dir) ++ rest) := by
    intro place hplace hpass
    obtain ⟨links, htext⟩ := link_text hstraight hdir hlink hplace
    exact hpass.of_walk htext
  unfold readLink at hread
  split at hread
  · next hseen =>
    cases hread
    obtain ⟨place, hplace⟩ := h.seenLinks _ hseen
    refine ⟨⟨place, hplace⟩, h.knownHard, h.seenLinks, fun hpiped => hnext hplace ?_⟩
    have hpass := h.piped hpiped
    rw [hpath] at hpass
    exact hpass.behind hplace
  · cases hplace : t.walk os.maxLinks [] ((dir ++ [name]).map .into) with
    | error why =>
      rw [hplace] at hread
      cases hread
    | ok place =>
      rw [hplace] at hread
      cases hread
      refine ⟨⟨place, rfl⟩, h.knownHard, fun link hmem => ?_, fun hpiped => hnext hplace ?_⟩
      · rcases List.mem_cons.1 hmem with rfl | hmem
        · exact ⟨place, hplace⟩
        · exact h.seenLinks link hmem
      · exact ⟨[], rest, 0, place, rfl, by rw [List.map_nil, walk.eq_def]; rfl,
          of_decide_eq_true hpiped⟩

/-- What `realpathSync` says of a path: a place without links to which it leads, or it passes a
pipe; and what is missing is missing for every call. -/
def Answers (t : Fs) (path : Place) : Except Obstacle Place → Prop
  | .ok real => (t.Solid real ∧ ∃ links, t.walk links [] (path.map .into) = .ok real) ∨
      Passes t [] path ∧ Passes t [] real
  | .error why => why = .missing → t.Blocked [] (path.map .into)

theorem Answers.arrived {path : Place} (h : Scanned os t [] path (.arrived place)) :
    Answers t path (.ok place) := by
  obtain ⟨rfl, hsolid | hpass⟩ := h
  · exact .inl ⟨hsolid, 0, walk_solid hsolid⟩
  · exact .inr ⟨hpass, hpass⟩

/-- A link and its text lead to one place, and so does what comes behind them. -/
theorem Answers.of_text {link text rest : Place} {links links' : ℕ}
    {result : Except Obstacle Place} (hlink : t.walk links [] (link.map .into) = .ok place)
    (htext : t.walk links' [] (text.map .into) = .ok place) (h : Answers t (text ++ rest) result) :
    Answers t (link ++ rest) result := by
  cases result with
  | ok real =>
    refine h.imp ?_ ?_
    · rintro ⟨hsolid, n, hreal⟩
      rw [List.map_append] at hreal ⊢
      obtain ⟨mid, hmid, hrest⟩ := walk_append hreal
      obtain rfl := walk_unique hmid htext
      exact ⟨hsolid, links + n, walk_trans hlink hrest⟩
    · rintro ⟨hpath, hreal⟩
      exact ⟨(hpath.behind htext).of_walk hlink, hreal⟩
  | error why =>
    refine fun hmissing n found hfound => ?_
    rw [List.map_append] at hfound
    obtain ⟨mid, hmid, hrest⟩ := walk_append hfound
    obtain rfl := walk_unique hmid hlink
    refine h hmissing (links' + n) found ?_
    rw [List.map_append]
    exact walk_trans htext hrest

/-- What could not be read of a link. -/
theorem readLink_error {memory : Memory} {link : Place} {why : Obstacle}
    (hread : readLink os t memory link = .error why) :
    t.walk os.maxLinks [] (link.map .into) = .error why := by
  unfold readLink at hread
  split at hread
  · cases hread
  · cases hplace : t.walk os.maxLinks [] (link.map .into) with
    | ok place =>
      rw [hplace] at hread
      cases hread
    | error why' =>
      rw [hplace] at hread
      cases hread
      rfl

/-- The induction is on the links that are followed. -/
theorem realpathLoop_spec (hstraight : t.Straight) (links : ℕ) {memory : Memory} {path : Place}
    (h : memory.Right os t path) : Answers t path (realpathLoop os t links memory path) := by
  induction links generalizing memory path with
  | zero =>
    have hscan : Scanned os t [] path (scan t memory [] path) := scan_spec t.solid_root h
    unfold realpathLoop
    split
    · next place hs =>
      rw [hs] at hscan
      exact .arrived hscan
    · next why hs =>
      rw [hs] at hscan
      exact hscan
    · exact nofun
  | succ links ih =>
    have hscan : Scanned os t [] path (scan t memory [] path) := scan_spec t.solid_root h
    unfold realpathLoop
    split
    · next place hs =>
      rw [hs] at hscan
      exact .arrived hscan
    · next why hs =>
      rw [hs] at hscan
      exact hscan
    · next memory' dir name target rest hs =>
      rw [hs] at hscan
      obtain ⟨hpath, hdir, hlink, hmemory⟩ := hscan
      rw [List.nil_append] at hpath hmemory
      rw [hpath] at hmemory ⊢
      dsimp only
      rw [List.append_cons]
      split
      · next why hread =>
        refine fun hmissing => ?_
        have hwalk := readLink_error hread
        rw [hmissing] at hwalk
        rw [List.map_append]
        exact (Blocked.of_missing hwalk).append _
      · next memory'' hread =>
        obtain ⟨⟨place, hplace⟩, hright⟩ := readLink_spec hstraight hdir hlink hmemory hread
        obtain ⟨links', htext⟩ := link_text hstraight hdir hlink hplace
        exact (ih hright).of_text hplace htext

/-- **Where `realpathSync` leads.** -/
theorem realpathSync_spec (hstraight : t.Straight) (path : Place) :
    Answers t path (realpathSync os t path) :=
  realpathLoop_spec hstraight os.realpathLinks ⟨nofun, nofun, nofun⟩

end Files
end Mullion
