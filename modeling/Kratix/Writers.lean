import Kratix.Api.Types
import Kratix.Lib.FileMap

/-!
# State store writers

What the Git and the S3 writer make of the content of a state store. Both take
a sub-directory of the writer's root. With a sub-directory, the files below it
that are not part of the new workloads go away; without one, only the listed
files are removed.
-/

namespace Kratix

open GoPath

abbrev Files := FileMap Bytes

structure Writer where
  kind : StateStoreKind
  backend : String
  path : Path
  deriving DecidableEq

inductive StoreError
  | fileNotFound
  | blocked
  /-- Some objects of a bucket could not be deleted. -/
  | undeleted (count : ℕ)
  | unavailable
  deriving DecidableEq, Repr

/-- The text of an error; the texts of libraries are left out. -/
def StoreError.text : StoreError → String
  | fileNotFound => "file not found"
  | undeleted count => "failed to delete " ++ toString count ++ " objects"
  | blocked | unavailable => ""

/-- The root of a Git writer never begins with a slash. -/
def trimRoot : Path → Path
  | "" :: rest => rest
  | p => p

def newGitWriter (store : StateStoreSpec) (destinationPath : Path) : Writer where
  kind := .git
  backend := store.backend
  path := trimRoot (join [store.path, destinationPath])

def newS3Writer (store : StateStoreSpec) (destinationPath : Path) : Writer where
  kind := .bucket
  backend := store.backend
  path := join [store.path, destinationPath]

namespace GitWriter

def systemTmp : Path := ["", "tmp"]

/-- The absolute path of a directory for temporary files. -/
def localPath (dir : String) : Path := systemTmp ++ [dir]

/-- Write the workloads below `dir` of the clone at `localTmpDir`. A path that
leads out of the clone stops the update, and nothing of it is pushed. -/
def writeFiles (localTmpDir dir : Path) (cloned : Files) :
    List Workload → Files → Except StoreError Files
  | [], files => .ok files
  | file :: rest, files =>
    let worktreeFilePath := join [dir, file.filepath]
    let absoluteFilePath := join [localTmpDir, worktreeFilePath]
    if !textPrefix localTmpDir absoluteFilePath then .ok cloned
    else if worktreeFilePath.isEmpty || files.blocked worktreeFilePath ||
        worktreeFilePath.head? == some ".." then .error .blocked
    else writeFiles localTmpDir dir cloned rest (files.insert worktreeFilePath file.content)

def deleteExistingFiles (removeDirectory : Bool) (dir : Path) (workloadsToDelete : List Path)
    (files : Files) : Files :=
  files.restrict fun q =>
    if removeDirectory then !dir.isPrefixOf q
    else !workloadsToDelete.any fun file => (join [dir, file]).isPrefixOf q

def update (localTmpDir : Path) (g : Writer) (subDir : Path) (workloadsToCreate : List Workload)
    (workloadsToDelete : List Path) (files : Files) : Except StoreError Files :=
  if workloadsToCreate.isEmpty && workloadsToDelete.isEmpty && subDir.isEmpty then .ok files
  else
    let dirInGitRepo := join [g.path, subDir]
    writeFiles localTmpDir dirInGitRepo files workloadsToCreate
      (deleteExistingFiles (!subDir.isEmpty) dirInGitRepo workloadsToDelete files)

theorem deleteExistingFiles_nil (dir : Path) (files : Files) :
    deleteExistingFiles false dir [] files = files :=
  AList.ext (List.filter_eq_self.mpr fun _ _ => rfl)

/-- An update that asks for nothing needs no case of its own. -/
theorem update_eq (localTmpDir : Path) (g : Writer) (subDir : Path) (create : List Workload)
    (delete : List Path) (files : Files) :
    update localTmpDir g subDir create delete files =
      writeFiles localTmpDir (join [g.path, subDir]) files create
        (deleteExistingFiles (!subDir.isEmpty) (join [g.path, subDir]) delete files) := by
  unfold update
  split
  · next hempty =>
    simp only [Bool.and_eq_true, List.isEmpty_iff] at hempty
    obtain ⟨⟨rfl, rfl⟩, rfl⟩ := hempty
    exact congrArg Except.ok (deleteExistingFiles_nil _ _).symm
  · rfl

/-- What the deletions leave. A file that `Lstat` fails to find stays. -/
inductive Remains (removeDirectory : Bool) (dir : Path) (workloadsToDelete : List Path)
    (files : Files) : Files → Prop
  | all : Remains removeDirectory dir workloadsToDelete files
      (deleteExistingFiles removeDirectory dir workloadsToDelete files)
  | some (deleted : List Path)
      (hdeleted : deleted.Sublist (if removeDirectory then [] else workloadsToDelete)) :
      Remains removeDirectory dir workloadsToDelete files
        (deleteExistingFiles false dir deleted files)

/-- What an update of a repository returns and leaves. It pushes one commit or
none, and the answer to the push may get lost. -/
inductive Outcome (g : Writer) (subDir : Path) (create : List Workload) (delete : List Path)
    (files : Files) : Except StoreError String → Files → Prop
  | kept (e : StoreError) : Outcome g subDir create delete files (.error e) files
  | made {r : Except StoreError String} {left made after : Files} (dir : String)
      (hdir : isPlain dir = true)
      (hleft : Remains (!subDir.isEmpty) (join [g.path, subDir]) delete files left)
      (hwrite : writeFiles (localPath dir) (join [g.path, subDir]) files create left = .ok made)
      (hafter : ∀ q, after.lookup q = made.lookup q) : Outcome g subDir create delete files r after

end GitWriter

namespace S3Writer

variable (etag : Bytes → String)

def isUnchanged (files : Files) (path : Path) (content : Bytes) : Bool :=
  match files.lookup path with
  | none => false
  | some stored => etag stored == etag content

/-- Objects with unchanged content are not written again. -/
def putFile (b : Writer) (subDir : Path) (files : Files) (work : Workload) : Files :=
  let objectFullPath := join [b.path, subDir, work.filepath]
  if isUnchanged etag files objectFullPath work.content then files
  else files.insert objectFullPath work.content

/-- The text that the keys of a directory are listed by; the current directory is
the text of one dot. -/
def listPrefix (b : Writer) (subDir : Path) : Path :=
  let dir := join [b.path, subDir]
  if dir.isEmpty then ["."] else dir

/-- The objects that go away unless a workload is written to their key. -/
def objectsToDelete (b : Writer) (subDir : Path) (workloadsToDelete : List Path) (q : Path) :
    Bool :=
  if !subDir.isEmpty then textPrefix (listPrefix b subDir) q
  else workloadsToDelete.any fun work => join [b.path, work] == q

def update (b : Writer) (subDir : Path) (workloadsToCreate : List Workload)
    (workloadsToDelete : List Path) (files : Files) : Files :=
  (workloadsToCreate.foldl (putFile etag b subDir) files).restrict fun q =>
    !(objectsToDelete b subDir workloadsToDelete q &&
      !workloadsToCreate.any fun work => join [b.path, subDir, work.filepath] == q)

/-- What an update of a bucket returns and leaves. It stops at the first call
that fails while the workloads are written; every deletion is tried. -/
inductive Outcome (b : Writer) (subDir : Path) (create : List Workload)
    (delete : List Path) (s : Files) : Except StoreError String → Files → Prop
  | stopped (e : StoreError) (n : ℕ) :
      Outcome b subDir create delete s (.error e)
        ((create.take n).foldl (putFile etag b subDir) s)
  | undeleted (e : StoreError) (removed : List Path)
      (hremoved : ∀ q ∈ removed, objectsToDelete b subDir delete q = true ∧
        ∀ work ∈ create, join [b.path, subDir, work.filepath] ≠ q) :
      Outcome b subDir create delete s (.error e)
        ((create.foldl (putFile etag b subDir) s).restrict fun q => !removed.contains q)
  | done (versionID : String) :
      Outcome b subDir create delete s (.ok versionID) (update etag b subDir create delete s)

end S3Writer

/-- Read a file of the store. The Git writer finds a directory, but cannot read it. -/
def readFile (w : Writer) (filePath : Path) (files : Files) : Except StoreError Bytes :=
  match files.lookup (join [w.path, filePath]) with
  | none =>
    if w.kind = .git && files.entries.any fun e => (join [w.path, filePath]).isPrefixOf e.1 then
      .error .blocked
    else .error .fileNotFound
  | some content => .ok content

end Kratix
