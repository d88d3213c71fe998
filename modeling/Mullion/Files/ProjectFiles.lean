import Mullion.Files.Calls
import Mullion.Lib.Utf8

/-!
# The files of a project

`project-files.ts`: a project's files are listed, searched, read, written, made, removed, renamed
and uploaded under its root.  No other process changes the tree meanwhile.

* `resolveInProject`, `resolveEntry` — the paths of a request;
* `listProjectDir` to `writeProjectFileFromStream` — the operations;
* `Request`, `serve` — one request.
-/

namespace Mullion
namespace Files

open FileTree DirTree

/-! ## Errors -/

inductive Code
  | escape
  | not_found
  | is_directory
  | not_directory
  | not_regular
  | symlink
  | too_large
  | binary
  | conflict
  | not_empty
  | invalid
  | not_allowlisted
  deriving DecidableEq, Repr

inductive Failure
  /-- `ProjectFileError` -/
  | project (code : Code) (message : String)
  | system (errno : Errno)
  /-- the body of an upload broke off -/
  | source
  deriving DecidableEq, Repr

/-- A path between quotes, and a text behind it. -/
def about (path : Name) (text : String) : String := "\"" ++ String.ofList path ++ "\"" ++ text

def mapFsError (rel : Place) : Failure → Failure
  | .system .ENOENT => .project .not_found (about (joined rel) " not found")
  | .system .ENOTDIR => .project .not_directory (about (joined rel) " has a non-directory parent")
  | .system .EISDIR => .project .is_directory (about (joined rel) " is a directory")
  | .system .ELOOP =>
    .project .symlink (about (joined rel) " changed to a symlink; refusing to follow")
  | .system Errno.ENXIO => .project .not_regular (about (joined rel) " is not a regular file")
  | .system .EEXIST => .project .conflict (about (joined rel) " already exists")
  | .system .ENOTEMPTY => .project .not_empty (about (joined rel) " is not empty")
  | .system .EINVAL => .project .invalid (about (joined rel) " can't be moved there")
  | failure => failure

/-- A call whose errors go through `mapFsError`. -/
def mapped {α : Type} (rel : Place) : Except Errno α → Except Failure α
  | .ok value => .ok value
  | .error errno => .error (mapFsError rel (.system errno))

/-! ## The path of a request -/

structure Resolved where
  realRoot : Place
  real : Place
  rel : Place
  symlinkTarget : Option Place

section Resolve

variable (os : Os) (t : Fs)

def resolveInProject (root relPath : Name) (allowRoot : Bool) : Except Failure Resolved :=
  if '\x00' ∈ relPath ∨ isAbsolute relPath ∨ (!allowRoot ∧ relPath = []) then
    .error (.project .escape ("Invalid path " ++ about (relPath.filter (· ≠ '\x00')) ""))
  else match realpathSync os t (resolve [] root) with
    | .error _ => .error (.project .not_found "Project directory not found")
    | .ok realRoot =>
      match resolveWithin root relPath with
      | none =>
        .error (.project .escape ("Path " ++ about relPath " is outside the project"))
      | some lexical =>
        let rel := lexical.drop (resolve [] root).length
        if !allowRoot ∧ rel = [] then
          .error (.project .is_directory "Path is the project root")
        else match realpathExistingPrefix os t lexical with
          | .error .notDir => .error (.project .not_directory (about relPath " is invalid"))
          | .error .loop => .error (.project .symlink (about relPath " has a symlink loop"))
          | .error .missing => .error (.system .ENOENT)
          | .ok contained =>
            if isInside realRoot contained then
              .ok ⟨realRoot, contained, rel,
                if contained ≠ realRoot ++ rel then some (contained.drop realRoot.length)
                else none⟩
            else .error (.project .escape
              ("Path " ++ about relPath " resolves outside the project"))

/-- `EntryRef`. -/
structure EntryRef where
  realRoot : Place
  rel : Place
  abs : Place

def resolveEntry (root relPath : Name) : Except Failure EntryRef := do
  let dir := dirname relPath
  let lexical ← resolveInProject os t root (if dir = ['.'] then [] else dir) true
  let name := basename relPath
  if relPath = [] ∨ '\x00' ∈ relPath ∨ isAbsolute relPath then
    .error (.project .escape ("Invalid path " ++ about (relPath.filter (· ≠ '\x00')) ""))
  else if name = [] ∨ name = ['.'] ∨ name = ['.', '.'] then
    .error (.project .escape ("Invalid path " ++ about relPath ""))
  else .ok ⟨lexical.realRoot, lexical.rel ++ [name], lexical.real ++ [name]⟩

/-- `realpathSync` of the descriptor gives the place that was opened. -/
def assertFdInside (place realRoot rel : Place) : Except Failure Unit :=
  if os.procFd && !isInside realRoot place then
    .error (.project .escape ("Path " ++ about (joined rel) " resolves outside the project"))
  else .ok ()

end Resolve

/-! ## Operations that only read -/

inductive Kind
  | file
  | dir
  | symlink
  deriving DecidableEq, Repr

inductive TargetKind
  | file
  | dir
  | outside
  deriving DecidableEq, Repr

structure ProjectDirEntry where
  name : Name
  kind : Kind
  size : ℕ
  targetKind : Option TargetKind
  deriving DecidableEq, Repr

structure ProjectDirListing where
  path : Place
  entries : List ProjectDirEntry
  truncated : Bool
  deriving DecidableEq, Repr

structure ProjectFileContent where
  path : Place
  content : Name
  size : ℕ
  mtimeMs : ℕ
  symlinkTarget : Option Place
  deriving DecidableEq, Repr

structure ProjectFileStat where
  path : Place
  size : ℕ
  mtimeMs : ℕ
  deriving DecidableEq, Repr

structure ProjectFileDownload where
  bytes : List UInt8
  size : ℕ
  path : Place
  name : Name
  deriving DecidableEq, Repr

/-- `MAX_PROJECT_FILE_BYTES`. -/
def maxProjectFileBytes : ℕ := 1024 * 1024

/-- `MAX_DIR_ENTRIES`. -/
def maxDirEntries : ℕ := 2000

section Reading

variable (os : Os) (t : Fs) (root relPath : Name)

/-- What the listing says of one name. -/
def dirEntry (realRoot real : Place) (dirent : Name × Entry Name Content) : ProjectDirEntry :=
  let (name, entry) := dirent
  match entry with
  | .link _ =>
    let targetKind : TargetKind :=
      match realpathSync os t (real ++ [name]) with
      | .error _ => .outside
      | .ok target =>
        if isInside realRoot target then
          match statSync os t target with
          | .ok .dir => .dir
          | .ok _ => .file
          | .error _ => .outside
        else .outside
    ⟨name, .symlink, 0, some targetKind⟩
  | .dir => ⟨name, .dir, 0, none⟩
  | .file (.regular bytes _) => ⟨name, .file, bytes.length, none⟩
  | .file _ => ⟨name, .file, 0, none⟩

def isDirLike (e : ProjectDirEntry) : Bool := e.kind = .dir || e.targetKind = some .dir

/-- The comparator of the listing: directories first. -/
def entryLe (a b : ProjectDirEntry) : Bool :=
  if isDirLike a = isDirLike b then os.localeLe a.name b.name else isDirLike a

def listProjectDir : Except Failure ProjectDirListing := do
  let resolved ← resolveInProject os t root relPath true
  let dirents ← mapped resolved.rel (readdirSync os t resolved.real)
  let entries :=
    (dirents.map (dirEntry os t resolved.realRoot resolved.real)).mergeSort (entryLe os)
  .ok ⟨resolved.rel, entries.take maxDirEntries, maxDirEntries < entries.length⟩

/-- `TextDecoder` with `fatal`, which drops a byte order mark. -/
def decodeText (bytes : List UInt8) : Option Name :=
  let text := Utf8.decode bytes
  if 0 ∉ bytes ∧ Utf8.encode text = bytes then
    some (if text.head? = some '\uFEFF' then text.tail else text)
  else none

/-- A regular file is opened to be read: its place, its bytes and its time. -/
def openRegular (resolved : Resolved) : Except Failure (List UInt8 × ℕ) := do
  let place ← mapped resolved.rel (openRead os t resolved.real)
  assertFdInside os place resolved.realRoot resolved.rel
  match t.entry place with
  | some .dir => .error (.project .is_directory (about (joined resolved.rel) " is a directory"))
  | some (.file (.regular bytes mtimeMs)) => .ok (bytes, mtimeMs)
  | _ => .error (.project .not_regular (about (joined resolved.rel) " is not a regular file"))

def readProjectFile : Except Failure ProjectFileContent := do
  let resolved ← resolveInProject os t root relPath false
  let (bytes, mtimeMs) ← openRegular os t resolved
  if maxProjectFileBytes < bytes.length then
    .error (.project .too_large (about (joined resolved.rel) " is over the 1 MiB edit limit"))
  else match decodeText bytes with
    | some content =>
      .ok ⟨resolved.rel, content, bytes.length, mtimeMs, resolved.symlinkTarget⟩
    | none =>
      .error (.project .binary (about (joined resolved.rel) " is not a UTF-8 text file"))

/-- The containment is checked once more. -/
def statProjectFile : Except Failure ProjectFileStat := do
  let resolved ← resolveInProject os t root relPath false
  if !isInside resolved.realRoot resolved.real then
    .error (.project .escape
      ("Path " ++ about (joined resolved.rel) " resolves outside the project"))
  else
    let (bytes, mtimeMs) ← openRegular os t resolved
    .ok ⟨resolved.rel, bytes.length, mtimeMs⟩

def openProjectFileReadStream (maxBytes : ℕ) : Except Failure ProjectFileDownload := do
  let resolved ← resolveInProject os t root relPath false
  let (bytes, _) ← openRegular os t resolved
  if maxBytes < bytes.length then
    .error (.project .too_large (about (joined resolved.rel)
      (" is over the " ++ toString maxBytes ++ " byte transfer limit")))
  else .ok ⟨bytes, bytes.length, resolved.rel, resolved.rel.getLast?.getD []⟩

end Reading

/-! ## The search -/

/-- `MAX_SEARCH_VISITED`. -/
def maxSearchVisited : ℕ := 20000

/-- `MAX_SEARCH_RESULTS`. -/
def maxSearchResults : ℕ := 50

/-- `SEARCH_SKIP_DIRS`. -/
def searchSkipDirs : List Name :=
  [".git".toList, "node_modules".toList, ".mullion-worktrees".toList]

structure ProjectSearchListing where
  results : List Place
  truncated : Bool
  deriving DecidableEq, Repr

/-- The variables of the search; the directories of the queue have their place and their path in the
project. -/
structure Search where
  queue : List (Place × Place)
  visited : ℕ
  truncated : Bool
  scored : List Place

/-- One name of a directory, which is counted. -/
def Search.visit (os : Os) (query : Name) (abs rel : Place) (s : Search) (name : Name) :
    Entry Name Content → Search
  | .dir =>
    if name ∈ searchSkipDirs then s
    else { s with queue := s.queue ++ [(abs ++ [name], rel ++ [name])] }
  | .file (.regular _ _) =>
    if os.finds query (joined (rel ++ [name])) then { s with scored := s.scored ++ [rel ++ [name]] }
    else s
  | _ => s

/-- The loop over the names of one directory. -/
def visitDirents (os : Os) (query : Name) (abs rel : Place) :
    List (Name × Entry Name Content) → Search → Search
  | [], s => s
  | (name, entry) :: rest, s =>
    let s := { s with visited := s.visited + 1 }
    if maxSearchVisited < s.visited then { s with truncated := true }
    else visitDirents os query abs rel rest (s.visit os query abs rel name entry)

/-- A name puts one directory into the queue at most. -/
theorem visit_queue (os : Os) (query : Name) (abs rel : Place) (s : Search) (name : Name)
    (entry : Entry Name Content) :
    (s.visit os query abs rel name entry).queue.length ≤ s.queue.length + 1 ∧
      (s.visit os query abs rel name entry).visited = s.visited := by
  cases entry with
  | dir =>
    rw [Search.visit]
    split
    · exact ⟨Nat.le_succ _, rfl⟩
    · exact ⟨by rw [List.length_append, List.length_singleton], rfl⟩
  | file content =>
    cases content with
    | regular bytes mtimeMs =>
      rw [Search.visit]
      split
      · exact ⟨Nat.le_succ _, rfl⟩
      · exact ⟨Nat.le_succ _, rfl⟩
    | pipe => exact ⟨Nat.le_succ _, rfl⟩
    | device => exact ⟨Nat.le_succ _, rfl⟩
  | link target => exact ⟨Nat.le_succ _, rfl⟩

theorem visitDirents_queue (os : Os) (query : Name) (abs rel : Place)
    (dirents : List (Name × Entry Name Content)) (s : Search) :
    (visitDirents os query abs rel dirents s).queue.length +
      (maxSearchVisited - (visitDirents os query abs rel dirents s).visited) ≤
        s.queue.length + (maxSearchVisited - s.visited) := by
  induction dirents generalizing s with
  | nil => exact Nat.le_refl _
  | cons dirent rest ih =>
    obtain ⟨name, entry⟩ := dirent
    rw [visitDirents]
    dsimp only
    split
    · dsimp only
      omega
    · obtain ⟨hqueue, hvisited⟩ :=
        visit_queue os query abs rel { s with visited := s.visited + 1 } name entry
      refine (ih _).trans ?_
      dsimp only at hqueue hvisited
      omega

/-- The loop over the queue. -/
def searchFrom (os : Os) (t : Fs) (query : Name) (s : Search) : Except Failure Search :=
  match _hqueue : s.queue with
  | [] => .ok s
  | (abs, rel) :: queue =>
    if s.truncated then .ok s
    else match readdirSync os t abs with
      | .ok dirents =>
        searchFrom os t query (visitDirents os query abs rel dirents { s with queue := queue })
      | .error errno =>
        -- a directory that is gone is skipped
        if errno = .ENOENT ∨ errno = .ENOTDIR then
          searchFrom os t query { s with queue := queue }
        else .error (.system errno)
  termination_by s.queue.length + (maxSearchVisited - s.visited)
  decreasing_by
    · have hle := visitDirents_queue os query abs rel dirents { s with queue := queue }
      rw [_hqueue, List.length_cons]
      dsimp only at hle
      omega
    · rw [_hqueue, List.length_cons]
      omega

def searchProjectFiles (os : Os) (t : Fs) (root query : Name) :
    Except Failure ProjectSearchListing :=
  let query := os.searched query
  if query = [] ∨ '\x00' ∈ query then .ok ⟨[], false⟩
  else do
    let resolved ← resolveInProject os t root [] true
    let s ← searchFrom os t query ⟨[(resolved.real, [])], 0, false, []⟩
    let scored := s.scored.mergeSort fun a b => os.searchLe query (joined a) (joined b)
    .ok ⟨scored.take maxSearchResults, s.truncated⟩

/-! ## Operations that write -/

/-- What an operation answers, and the tree it leaves. -/
abbrev Outcome (α : Type) := Except Failure α × Fs

/-- A part of an operation that changes nothing. -/
def attempt {α β : Type} (t : Fs) (first : Except Failure α) (next : α → Outcome β) : Outcome β :=
  match first with
  | .ok value => next value
  | .error failure => (.error failure, t)

structure ProjectFileWriteResult where
  size : ℕ
  mtimeMs : ℕ
  deriving DecidableEq, Repr

section Writing

variable (os : Os) (t : Fs) (root relPath : Name)

/-- The file is open, and `t` the tree then. -/
def writeOpened (resolved : Resolved) (place : Place) (content : List UInt8)
    (expectedMtimeMs : Option ℕ) : Outcome ProjectFileWriteResult :=
  attempt t (assertFdInside os place resolved.realRoot resolved.rel) fun _ =>
    match t.entry place with
    | some (.file (.regular _ before)) =>
      if expectedMtimeMs.any (· ≠ before) then
        (.error (.project .conflict
          (about (joined resolved.rel) " changed on disk since it was loaded")), t)
      else attempt t (mapped resolved.rel (fill os t place content)) fun written =>
        (.ok ⟨content.length, os.nowMs⟩, written)
    | _ =>
      (.error (.project .not_regular (about (joined resolved.rel) " is not a regular file")), t)

def writeProjectFile (content : Name) (expectedMtimeMs : Option ℕ) (create : Bool) :
    Outcome ProjectFileWriteResult :=
  let bytes := Utf8.encode content
  if maxProjectFileBytes < bytes.length then
    (.error (.project .too_large "Content is over the 1 MiB edit limit"), t)
  else attempt t (resolveInProject os t root relPath false) fun resolved =>
    if create then
      attempt t (mapped resolved.rel (openNew os t resolved.real)) fun (place, made) =>
        writeOpened os made resolved place bytes none
    else
      attempt t (mapped resolved.rel (openWrite os t resolved.real)) fun place =>
        writeOpened os t resolved place bytes expectedMtimeMs

def makeProjectDir : Outcome Place :=
  attempt t (resolveEntry os t root relPath) fun entry =>
    attempt t (mapped entry.rel (mkdirSync os t entry.abs)) fun made => (.ok entry.rel, made)

def deleteProjectPath : Outcome Place :=
  attempt t (resolveEntry os t root relPath) fun entry =>
    attempt t (mapped entry.rel (lstatSync os t entry.abs)) fun found =>
      attempt t (mapped entry.rel
        (if found = .dir then rmdirSync os t entry.abs else unlinkSync os t entry.abs)) fun left =>
        (.ok entry.rel, left)

/-- `lstatSync` must find nothing, and then `renameSync`. -/
def checkThenRename (source target : EntryRef) : Outcome Place :=
  match lstatSync os t target.abs with
  | .ok _ =>
    (.error (.project .conflict (about (joined target.rel) " already exists")), t)
  | .error .ENOENT =>
    attempt t (mapped target.rel (renameSync os t source.abs target.abs)) fun moved =>
      (.ok target.rel, moved)
  | .error errno => (.error (mapFsError target.rel (.system errno)), t)

def renameProjectPath (fromRel toRel : Name) : Outcome Place :=
  attempt t (resolveEntry os t root fromRel) fun source =>
    attempt t (resolveEntry os t root toRel) fun target =>
      attempt t (mapped source.rel (lstatSync os t source.abs)) fun found =>
        if found = .dir then checkThenRename os t source target
        else match linkSync os t source.abs target.abs with
          | .error .EPERM => checkThenRename os t source target
          | .error errno => (.error (mapFsError target.rel (.system errno)), t)
          | .ok linked =>
            match unlinkSync os linked source.abs with
            | .ok left => (.ok target.rel, left)
            | .error errno =>
              -- the entry must not stay under two names
              let undone := match unlinkSync os linked target.abs with
                | .ok undone => undone
                | .error _ => linked
              if errno = .EPERM then checkThenRename os undone source target
              else (.error (mapFsError target.rel (.system errno)), undone)

/-! ## Uploads -/

/-- The loop of `ensureProjectDirs`, behind the folders of `acc`. -/
def ensureFrom (t : Fs) (acc : Name) : List Name → Outcome Unit
  | [] => (.ok (), t)
  | part :: rest =>
    let acc := if acc = [] then part else acc ++ '/' :: part
    attempt t (resolveEntry os t root acc) fun entry =>
      match lstatSync os t entry.abs with
      | .error .ENOENT =>
        match mkdirSync os t entry.abs with
        | .ok made => ensureFrom made acc rest
        | .error .EEXIST => ensureFrom t acc rest
        | .error errno => (.error (mapFsError entry.rel (.system errno)), t)
      | .error errno => (.error (mapFsError entry.rel (.system errno)), t)
      | .ok .dir => ensureFrom t acc rest
      | .ok (.link _) =>
        attempt t (resolveInProject os t root (joined entry.rel) true) fun target =>
          attempt t (mapped entry.rel (statSync os t target.real)) fun found =>
            if found = .dir then ensureFrom t acc rest
            else (.error (.project .conflict
              (about (joined entry.rel) " already exists and is not a folder")), t)
      | .ok (.file _) =>
        (.error (.project .conflict
          (about (joined entry.rel) " already exists and is not a folder")), t)

def ensureProjectDirs (relDir : Name) : Outcome Unit :=
  if relDir = [] ∨ relDir = ['.'] then (.ok (), t)
  else ensureFrom os root t [] ((parts relDir).filter (· ≠ ['.']))

def publishNewFile (tmp dest rel realRoot : Place) : Outcome Unit :=
  if !isInside realRoot dest || !(isInside realRoot tmp && tmp ≠ realRoot) then
    (.error (.project .escape ("Path " ++ about (joined rel) " resolves outside the project")), t)
  else match linkSync os t tmp dest with
    | .ok linked => (.ok (), linked)
    | .error .EEXIST => (.error (.project .conflict (about (joined rel) " already exists")), t)
    | .error .EPERM =>
      match lstatSync os t dest with
      | .ok _ => (.error (.project .conflict (about (joined rel) " already exists")), t)
      | .error .ENOENT =>
        match renameSync os t tmp dest with
        | .ok moved => (.ok (), moved)
        | .error errno => (.error (.system errno), t)
      | .error errno => (.error (.system errno), t)
    | .error errno => (.error (.system errno), t)

/-- The body of an upload; `whole` is whether it ends. -/
structure Source where
  chunks : List (List UInt8)
  whole : Bool
  deriving DecidableEq, Repr

/-- What passes the counter. -/
def count (rel : Place) (maxBytes received : ℕ) : List (List UInt8) → Except Failure ℕ
  | [] => .ok received
  | chunk :: rest =>
    if maxBytes < received + chunk.length then
      .error (.project .too_large
        (about (joined rel) (" is over the " ++ toString maxBytes ++ " byte transfer limit")))
    else count rel maxBytes (received + chunk.length) rest

/-- `pipeline`: the file has what came, when it has come in full. -/
def pipeline (rel place : Place) (maxBytes : ℕ) (source : Source) : Outcome ℕ :=
  attempt t (count rel maxBytes 0 source.chunks) fun received =>
    if source.whole then
      attempt t (mapped rel (fill os t place source.chunks.flatten)) fun filled =>
        (.ok received, filled)
    else (.error .source, t)

/-- `cleanup`. -/
def cleanup (tmp : Place) : Fs :=
  match unlinkSync os t tmp with
  | .ok left => left
  | .error _ => t

def partName : Name := ".mullion-part-".toList ++ os.uuid

/-- The temporary file is open, and `t` the tree then. -/
def uploadOpened (entry : EntryRef) (tmp place : Place) (source : Source) (maxBytes : ℕ) :
    Outcome (Place × ℕ) :=
  match assertFdInside os place entry.realRoot entry.rel with
  | .error failure => (.error failure, cleanup os t tmp)
  | .ok _ =>
    match pipeline os t entry.rel place maxBytes source with
    | (.error failure, received) =>
      (.error (mapFsError entry.rel failure), cleanup os received tmp)
    | (.ok size, received) =>
      match publishNewFile os received tmp entry.abs entry.rel entry.realRoot with
      | (.error failure, left) => (.error (mapFsError entry.rel failure), cleanup os left tmp)
      | (.ok _, published) => (.ok (entry.rel, size), cleanup os published tmp)

/-- The folders are there. -/
def uploadFile (source : Source) (maxBytes : ℕ) : Outcome (Place × ℕ) :=
  attempt t (resolveEntry os t root relPath) fun entry =>
    if !isInside entry.realRoot entry.abs then
      (.error (.project .escape
        ("Path " ++ about (joined entry.rel) " resolves outside the project")), t)
    else match lstatSync os t entry.abs with
      | .ok _ =>
        (.error (.project .conflict (about (joined entry.rel) " already exists")), t)
      | .error .ENOENT =>
        let tmp := entry.abs.dropLast ++ [partName os]
        if !(isInside entry.realRoot tmp && tmp ≠ entry.realRoot) then
          (.error (.project .escape
            ("Path " ++ about (joined entry.rel) " resolves outside the project")), t)
        else attempt t (mapped entry.rel (openNew os t tmp)) fun (place, made) =>
          uploadOpened os made entry tmp place source maxBytes
      | .error errno => (.error (mapFsError entry.rel (.system errno)), t)

def writeProjectFileFromStream (source : Source) (maxBytes : ℕ) (mkdirs : Bool) :
    Outcome (Place × ℕ) :=
  if mkdirs then
    let dir := dirname relPath
    match ensureProjectDirs os t root (if dir = ['.'] then [] else dir) with
    | (.error failure, made) => (.error failure, made)
    | (.ok _, made) => uploadFile os made root relPath source maxBytes
  else uploadFile os t root relPath source maxBytes

end Writing

/-! ## Requests -/

inductive Request
  | list (relDir : Name)
  | read (relPath : Name)
  | stat (relPath : Name)
  | search (query : Name)
  | download (relPath : Name) (maxBytes : ℕ)
  | write (relPath content : Name) (expectedMtimeMs : Option ℕ) (create : Bool)
  | mkdir (relPath : Name)
  | delete (relPath : Name)
  | rename (fromRel toRel : Name)
  | upload (relPath : Name) (source : Source) (maxBytes : ℕ) (mkdirs : Bool)
  deriving DecidableEq, Repr

inductive Answer
  | listing (listing : ProjectDirListing)
  | content (content : ProjectFileContent)
  | stat (stat : ProjectFileStat)
  | found (listing : ProjectSearchListing)
  | download (download : ProjectFileDownload)
  | written (result : ProjectFileWriteResult)
  | done (path : Place)
  | uploaded (path : Place) (size : ℕ)

def serve (os : Os) (t : Fs) (root : Name) : Request → Outcome Answer
  | .list relDir => ((listProjectDir os t root relDir).map .listing, t)
  | .read relPath => ((readProjectFile os t root relPath).map .content, t)
  | .stat relPath => ((statProjectFile os t root relPath).map .stat, t)
  | .search query => ((searchProjectFiles os t root query).map .found, t)
  | .download relPath maxBytes =>
    ((openProjectFileReadStream os t root relPath maxBytes).map .download, t)
  | .write relPath content expectedMtimeMs create =>
    (writeProjectFile os t root relPath content expectedMtimeMs create).map (·.map .written) id
  | .mkdir relPath => (makeProjectDir os t root relPath).map (·.map .done) id
  | .delete relPath => (deleteProjectPath os t root relPath).map (·.map .done) id
  | .rename fromRel toRel => (renameProjectPath os t root fromRel toRel).map (·.map .done) id
  | .upload relPath source maxBytes mkdirs =>
    (writeProjectFileFromStream os t root relPath source maxBytes mkdirs).map
      (·.map fun (path, size) => .uploaded path size) id

end Files
end Mullion
