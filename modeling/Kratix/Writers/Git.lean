import Kratix.Writers
import Kratix.Lib.Concurrent

/-!
# The Git writer, call by call

An operation of the Git writer works on a clone in a directory of its own below
the system's directory for temporary files. The calls it makes on the file
system, the clone and the remote are interleaved with those of other operations
in the same process, and each of them may fail.
-/

namespace Kratix.GitWriter

open Effect GoPath

/-! ### Calls -/

inductive GitCall
  | mkdirTemp
  | clone (dir : String)
  | lstat (dir : String) (path : Path)
  | remove (dir : String) (path : Path)
  /-- `os.MkdirAll` of the parent and `os.WriteFile`, with an absolute path. -/
  | writeFile (path : Path) (content : Bytes)
  | add (dir : String) (path : Path)
  | status (dir : String)
  | commit (dir : String) (message : String)
  | push (dir : String)
  | readFile (dir : String) (path : Path)
  | removeAll (path : Path)
  deriving DecidableEq

abbrev GitCall.Answer : GitCall → Type
  | mkdirTemp => Except StoreError String
  | clone _ => Except StoreError Unit
  -- whether the path exists
  | lstat _ _ => Bool
  | remove _ _ => Except StoreError Unit
  | writeFile _ _ => Except StoreError Unit
  | add _ _ => Except StoreError Unit
  -- whether the worktree is clean
  | status _ => Except StoreError Bool
  | commit _ _ => Except StoreError String
  | push _ => Except StoreError Unit
  | readFile _ _ => Except StoreError Bytes
  | removeAll _ => Unit

abbrev gitSignature : Signature := ⟨GitCall, GitCall.Answer⟩

abbrev GitProg := Program gitSignature

def mkdirTemp : GitProg (Except StoreError String) :=
  Program.perform (S := gitSignature) .mkdirTemp

def clone (dir : String) : GitProg (Except StoreError Unit) :=
  Program.perform (S := gitSignature) (.clone dir)

def lstat (dir : String) (path : Path) : GitProg Bool :=
  Program.perform (S := gitSignature) (.lstat dir path)

def remove (dir : String) (path : Path) : GitProg (Except StoreError Unit) :=
  Program.perform (S := gitSignature) (.remove dir path)

def writeLocalFile (path : Path) (content : Bytes) : GitProg (Except StoreError Unit) :=
  Program.perform (S := gitSignature) (.writeFile path content)

def add (dir : String) (path : Path) : GitProg (Except StoreError Unit) :=
  Program.perform (S := gitSignature) (.add dir path)

def status (dir : String) : GitProg (Except StoreError Bool) :=
  Program.perform (S := gitSignature) (.status dir)

def commit (dir message : String) : GitProg (Except StoreError String) :=
  Program.perform (S := gitSignature) (.commit dir message)

def push (dir : String) : GitProg (Except StoreError Unit) :=
  Program.perform (S := gitSignature) (.push dir)

def readLocalFile (dir : String) (path : Path) : GitProg (Except StoreError Bytes) :=
  Program.perform (S := gitSignature) (.readFile dir path)

def removeAll (path : Path) : GitProg Unit :=
  Program.perform (S := gitSignature) (.removeAll path)

/-! ### Operations -/

def setupLocalDirectoryWithRepo : GitProg (Except StoreError String) := do
  match ← mkdirTemp with
  | .error e => return .error e
  | .ok localTmpDir =>
    match ← clone localTmpDir with
    | .error e => return .error e
    | .ok () => return .ok localTmpDir

def removeIfExists (localTmpDir : String) (path : Path) : GitProg (Except StoreError Unit) := do
  match ← lstat localTmpDir path with
  | true => remove localTmpDir path
  | false => return .ok ()

def removeFiles (localTmpDir : String) (dir : Path) : List Path → GitProg (Except StoreError Unit)
  | [] => return .ok ()
  | file :: rest => do
    match ← removeIfExists localTmpDir (join [dir, file]) with
    | .error e => return .error e
    | .ok () => removeFiles localTmpDir dir rest

def deleteFromClone (removeDirectory : Bool) (dir : Path) (workloadsToDelete : List Path)
    (localTmpDir : String) : GitProg (Except StoreError Unit) :=
  if removeDirectory then removeIfExists localTmpDir dir
  else removeFiles localTmpDir dir workloadsToDelete

/-- Writes and stages the workloads; `false` if a path leads out of the clone. -/
def writeToClone (localTmpDir : String) (dir : Path) :
    List Workload → GitProg (Except StoreError Bool)
  | [] => return .ok true
  | file :: rest =>
    let worktreeFilePath := join [dir, file.filepath]
    let absoluteFilePath := join [localPath localTmpDir, worktreeFilePath]
    if !textPrefix (localPath localTmpDir) absoluteFilePath then return .ok false
    else do
      match ← writeLocalFile absoluteFilePath file.content with
      | .error e => return .error e
      | .ok () =>
        match ← add localTmpDir worktreeFilePath with
        | .error e => return .error e
        | .ok () => writeToClone localTmpDir dir rest

def commitAndPush (localTmpDir message : String) : GitProg (Except StoreError String) := do
  match ← status localTmpDir with
  | .error e => return .error e
  | .ok true => return .ok ""
  | .ok false =>
    match ← commit localTmpDir message with
    | .error e => return .error e
    | .ok sha =>
      match ← push localTmpDir with
      | .error e => return .error e
      | .ok () => return .ok sha

/-- What an update asks for. -/
structure Update where
  subDir : Path
  workPlacementName : String
  workloadsToCreate : List Workload
  workloadsToDelete : List Path

namespace Update

def isEmpty (u : Update) : Bool :=
  u.workloadsToCreate.isEmpty && u.workloadsToDelete.isEmpty && u.subDir.isEmpty

def removesDirectory (u : Update) : Bool := !u.subDir.isEmpty

def dirInGitRepo (g : Writer) (u : Update) : Path := join [g.path, u.subDir]

def message (u : Update) : String :=
  (if u.workloadsToCreate.isEmpty then "Delete" else "Update") ++ " from: " ++ u.workPlacementName

end Update

def updateClone (g : Writer) (u : Update) (localTmpDir : String) :
    GitProg (Except StoreError String) := do
  match ← deleteFromClone u.removesDirectory (u.dirInGitRepo g) u.workloadsToDelete
      localTmpDir with
  | .error e => return .error e
  | .ok () =>
    match ← writeToClone localTmpDir (u.dirInGitRepo g) u.workloadsToCreate with
    | .error e => return .error e
    | .ok false => return .ok ""
    | .ok true => commitAndPush localTmpDir u.message

/-- The deferred removal comes after whatever the update returns. -/
def updateFiles (g : Writer) (u : Update) : GitProg (Except StoreError String) := do
  if u.isEmpty then return .ok ""
  match ← setupLocalDirectoryWithRepo with
  | .error e => return .error e
  | .ok localTmpDir =>
    let result ← updateClone g u localTmpDir
    removeAll (localPath localTmpDir).dropLast
    return result

def readFromClone (localTmpDir : String) (fullPath : Path) : GitProg (Except StoreError Bytes) := do
  match ← lstat localTmpDir fullPath with
  | false => return .error .fileNotFound
  | true => readLocalFile localTmpDir fullPath

def readFile (g : Writer) (filePath : Path) : GitProg (Except StoreError Bytes) := do
  match ← setupLocalDirectoryWithRepo with
  | .error e => return .error e
  | .ok localTmpDir =>
    let result ← readFromClone localTmpDir (join [g.path, filePath])
    removeAll (localPath localTmpDir).dropLast
    return result

/-! ### The machine -/

/-- What a clone keeps besides its worktree. -/
structure Repository where
  /-- The number of commits on the branch when it was cloned. -/
  cloned : ℕ
  head : Files
  index : Files

/-- An entry of the directory for temporary files: a file tree, perhaps a clone. -/
structure Entry where
  files : Files := ∅
  repository : Option Repository := none

/-- The temporary files of the process and the branch of the remote. -/
structure Machine (ι : Type) where
  /-- The entries of the directory for temporary files, if the directory exists. -/
  tmp : Option (String → Option Entry)
  /-- The operation that made a directory. -/
  owner : String → Option ι
  initial : Files
  /-- The commits pushed to the branch, each by one operation. -/
  commits : List (ι × Files)

namespace Machine

variable {ι : Type}

def entry (s : Machine ι) (dir : String) : Option Entry := s.tmp.bind fun entries => entries dir

def withEntry (s : Machine ι) (dir : String) (e : Option Entry) : Machine ι :=
  { s with tmp := s.tmp.map fun entries => Function.update entries dir e }

/-- Parent directories that are missing are made. -/
def withFile (s : Machine ι) (dir : String) (path : Path) (content : Bytes) : Machine ι :=
  let e := (s.entry dir).getD {}
  { s with tmp := some (Function.update (s.tmp.getD fun _ => none) dir
      (some { e with files := e.files.insert path content })) }

/-- The tree of the branch after this many commits. -/
def treeAt (s : Machine ι) (n : ℕ) : Files := ((s.commits.take n).getLast?.map Prod.snd).getD s.initial

def tree (s : Machine ι) : Files := s.treeAt s.commits.length

def pushed (s : Machine ι) : List ι := s.commits.map Prod.fst

end Machine

/-- The path, or a file below it, is there. -/
def Entry.Has (e : Entry) (path : Path) : Prop :=
  ∃ q, (e.files.lookup q).isSome = true ∧ path <+: q

/-- The path of a file in a worktree. -/
def isWorktreePath (path : Path) : Prop := path.head? ≠ some ".." ∧ path.head? ≠ some ""

def withoutPath (path : Path) (files : Files) : Files := files.restrict fun q => !path.isPrefixOf q

/-- Worktree, index and last commit hold the same files. -/
def Entry.Clean (e : Entry) (repo : Repository) : Prop :=
  (∀ q, repo.index.lookup q = repo.head.lookup q) ∧ ∀ q, e.files.lookup q = repo.index.lookup q

/-- The operation `i` makes a call. A call that fails may leave anything in the
entry it works on; the answer to a push may get lost. -/
def handle {ι : Type} (i : ι) : Handler gitSignature (Machine ι)
  | .mkdirTemp, s, .ok dir, t => isPlain dir = true ∧ s.tmp.isSome = true ∧
      s.entry dir = none ∧ s.owner dir = none ∧
      t = { s.withEntry dir (some {}) with owner := Function.update s.owner dir (some i) }
  | .mkdirTemp, s, .error _, t => t = s
  | .clone dir, s, .ok (), t => (s.entry dir).isSome = true ∧
      t = s.withEntry dir (some ⟨s.tree, some ⟨s.commits.length, s.tree, s.tree⟩⟩)
  | .lstat dir path, s, found, t => t = s ∧ (found = true → ∃ e, s.entry dir = some e ∧ e.Has path)
  | .remove dir path, s, .ok (), t => ∃ files repo, s.entry dir = some ⟨files, some repo⟩ ∧
      t = s.withEntry dir (some ⟨withoutPath path files,
        some { repo with index := withoutPath path repo.index }⟩)
  | .writeFile path content, s, .ok (), t => ∃ dir rest, path = localPath dir ++ rest ∧
      ((s.entry dir).isSome = true → rest ≠ []) ∧
      ((s.entry dir).getD {}).files.blocked rest = false ∧ t = s.withFile dir rest content
  | .add dir path, s, .ok (), t => ∃ files repo content, s.entry dir = some ⟨files, some repo⟩ ∧
      isWorktreePath path ∧ files.lookup path = some content ∧
      t = s.withEntry dir (some ⟨files, some { repo with index := repo.index.insert path content }⟩)
  | .status dir, s, .ok clean, t => t = s ∧ ∃ files repo, s.entry dir = some ⟨files, some repo⟩ ∧
      (clean = true ↔ Entry.Clean ⟨files, some repo⟩ repo)
  | .commit dir _, s, .ok sha, t => sha ≠ "" ∧ ∃ files repo,
      s.entry dir = some ⟨files, some repo⟩ ∧
      t = s.withEntry dir (some ⟨files, some { repo with head := repo.index }⟩)
  | .push dir, s, r, t => (t = s ∧ r ≠ .ok ()) ∨ ∃ files repo,
      s.entry dir = some ⟨files, some repo⟩ ∧ repo.cloned = s.commits.length ∧
      t = { s with commits := s.commits ++ [(i, repo.head)] }
  | .readFile dir path, s, r, t => t = s ∧ ∀ content, r = .ok content →
      ∃ e, s.entry dir = some e ∧ e.files.lookup path = some content
  | .removeAll path, s, (), t => ∃ entries, t = { s with tmp := entries } ∧
      (s.tmp = none → entries = none) ∧ (entries = none → s.tmp = none ∨ path <+: systemTmp) ∧
      ∀ dir, t.entry dir = s.entry dir ∨ path <+: localPath dir ∧ t.entry dir = none
  | .clone dir, s, .error _, t => ∃ e, t = s.withEntry dir e
  | .remove dir _, s, .error _, t => ∃ e, t = s.withEntry dir e
  | .writeFile path _, s, .error _, t => t = s ∨
      ∃ dir e, localPath dir <+: path ∧ t = s.withEntry dir e
  | .add dir _, s, .error _, t => ∃ e, t = s.withEntry dir e
  | .status _, s, .error _, t => t = s
  | .commit dir _, s, .error _, t => ∃ e, t = s.withEntry dir e

/-! ### What a call can do -/

/-- The call changes this entry of the directory for temporary files. -/
def GitCall.Touches (dir : String) : GitCall → Prop
  | .clone d => d = dir
  | .remove d _ => d = dir
  | .add d _ => d = dir
  | .commit d _ => d = dir
  | .writeFile path _ => localPath dir <+: path
  | _ => False

inductive CallEffect {ι : Type} (i : ι) (s t : Machine ι) : GitCall → Prop
  | same {c : GitCall} (ht : t = s) : CallEffect i s t c
  | entry {c : GitCall} (dir : String) (e : Option Entry) (hdir : c.Touches dir)
      (ht : t = s.withEntry dir e) : CallEffect i s t c
  | wrote {c : GitCall} (dir : String) (path : Path) (content : Bytes) (hdir : c.Touches dir)
      (ht : t = s.withFile dir path content) : CallEffect i s t c
  | made (dir : String) (htmp : s.tmp.isSome = true) (hnone : s.entry dir = none)
      (hfree : s.owner dir = none)
      (ht : t = { s.withEntry dir (some {}) with owner := Function.update s.owner dir (some i) }) :
      CallEffect i s t .mkdirTemp
  | pushed (dir : String) (files : Files) (repo : Repository)
      (hentry : s.entry dir = some ⟨files, some repo⟩) (hbase : repo.cloned = s.commits.length)
      (ht : t = { s with commits := s.commits ++ [(i, repo.head)] }) : CallEffect i s t (.push dir)
  | removed (path : Path) (entries : Option (String → Option Entry))
      (ht : t = { s with tmp := entries }) (hnone : s.tmp = none → entries = none)
      (hentry : ∀ dir, t.entry dir = s.entry dir ∨ t.entry dir = none) :
      CallEffect i s t (.removeAll path)

theorem handle_effect {ι : Type} {i : ι} {s t : Machine ι} {c : GitCall} {r : c.Answer}
    (hc : handle i c s r t) : CallEffect i s t c := by
  cases c with
  | mkdirTemp =>
    cases r with
    | error e => exact .same hc
    | ok dir =>
      obtain ⟨-, htmp, hnone, hfree, ht⟩ := hc
      exact .made dir htmp hnone hfree ht
  | clone dir =>
    cases r with
    | error e =>
      obtain ⟨e, ht⟩ := hc
      exact .entry dir e rfl ht
    | ok u => exact .entry dir _ rfl hc.2
  | lstat dir path => exact .same hc.1
  | remove dir path =>
    cases r with
    | error e =>
      obtain ⟨e, ht⟩ := hc
      exact .entry dir e rfl ht
    | ok u =>
      obtain ⟨files, repo, -, ht⟩ := hc
      exact .entry dir _ rfl ht
  | writeFile path content =>
    cases r with
    | error e =>
      rcases hc with ht | ⟨dir, e, hdir, ht⟩
      · exact .same ht
      · exact .entry dir e hdir ht
    | ok u =>
      obtain ⟨dir, rest, rfl, -, -, ht⟩ := hc
      exact .wrote dir rest content (List.prefix_append _ _) ht
  | add dir path =>
    cases r with
    | error e =>
      obtain ⟨e, ht⟩ := hc
      exact .entry dir e rfl ht
    | ok u =>
      obtain ⟨files, repo, content, -, -, -, ht⟩ := hc
      exact .entry dir _ rfl ht
  | status dir =>
    cases r with
    | error e => exact .same hc
    | ok clean => exact .same hc.1
  | commit dir message =>
    cases r with
    | error e =>
      obtain ⟨e, ht⟩ := hc
      exact .entry dir e rfl ht
    | ok sha =>
      obtain ⟨-, files, repo, -, ht⟩ := hc
      exact .entry dir _ rfl ht
  | push dir =>
    rcases hc with ⟨ht, -⟩ | ⟨files, repo, hentry, hbase, ht⟩
    · exact .same ht
    · exact .pushed dir files repo hentry hbase ht
  | readFile dir path => exact .same hc.1
  | removeAll path =>
    obtain ⟨entries, ht, hnone, -, hentry⟩ := hc
    exact .removed path entries ht hnone fun dir => (hentry dir).imp_right And.right

namespace Machine

variable {ι : Type} {dir : String}

@[simp] theorem isSome_tmp_withEntry (s : Machine ι) (dir : String) (e : Option Entry) :
    (s.withEntry dir e).tmp.isSome = s.tmp.isSome := by
  simp [withEntry]

theorem entry_withEntry_of_ne (s : Machine ι) (e : Option Entry) {d : String} (hd : d ≠ dir) :
    (s.withEntry dir e).entry d = s.entry d := by
  unfold entry withEntry
  cases s.tmp with
  | none => rfl
  | some entries => simp [hd]

theorem entry_withFile_of_ne (s : Machine ι) (path : Path) (content : Bytes) {d : String}
    (hd : d ≠ dir) : (s.withFile dir path content).entry d = s.entry d := by
  unfold entry withFile
  cases s.tmp with
  | none => simp [hd]
  | some entries => simp [hd]

end Machine

end Kratix.GitWriter
