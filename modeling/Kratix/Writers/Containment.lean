import Kratix.Writers.WorkingCopies

/-!
# Where the Git writer writes

The worktree is reached through a file system that is rooted at the clone and
refuses paths that lead out of it. Only the workloads are written with absolute
paths, after a comparison of texts.
-/

namespace Kratix.GitWriter

open Effect GoPath

variable {ι : Type} {i : ι} {s t : Machine ι} {dir : String} {q : Path}

/-! ### The files that a call alters -/

/-- The file at an absolute path below the directory for temporary files. -/
def Machine.file (s : Machine ι) : Path → Option Bytes
  | "" :: "tmp" :: dir :: rest => (s.entry dir).bind fun e => e.files.lookup rest
  | _ => none

/-- The call may create, overwrite or remove this file. A write that fails may leave
anything in the directory that it goes to. -/
def GitCall.Alters (q : Path) : GitCall → Prop
  | .clone dir => localPath dir <+: q
  | .remove dir _ => localPath dir <+: q
  | .add dir _ => localPath dir <+: q
  | .commit dir _ => localPath dir <+: q
  | .writeFile path _ => q = path ∨ ∃ dir, localPath dir <+: path ∧ localPath dir <+: q
  | .removeAll path => path <+: q
  | _ => False

/-- The call alters files in this directory or below it only. -/
def Inside (dir : String) (c : GitCall) : Prop := ∀ q, c.Alters q → localPath dir <+: q

theorem GitCall.Touches.alters {c : GitCall} (hdir : c.Touches dir) (hq : localPath dir <+: q) :
    c.Alters q := by
  cases c with
  | clone d => exact hdir ▸ hq
  | remove d path => exact hdir ▸ hq
  | add d path => exact hdir ▸ hq
  | commit d message => exact hdir ▸ hq
  | writeFile path content => exact Or.inr ⟨dir, hdir, hq⟩
  | _ => exact hdir.elim

theorem entry_ne_of_file_ne (hq : t.file q ≠ s.file q) :
    ∃ dir, localPath dir <+: q ∧ t.entry dir ≠ s.entry dir := by
  unfold Machine.file at hq
  split at hq
  · next dir rest =>
    refine ⟨dir, ⟨rest, rfl⟩, fun hentry => hq ?_⟩
    rw [hentry]
  · exact absurd rfl hq

theorem file_of_made {dir : String} (hnone : s.entry dir = none)
    (ht : ∀ d, t.entry d = (s.withEntry dir (some {})).entry d) : t.file q = s.file q := by
  unfold Machine.file
  split
  · next d rest =>
    rw [ht]
    by_cases hd : d = dir
    · subst hd
      rw [hnone]
      unfold Machine.entry Machine.withEntry
      cases s.tmp with
      | none => rfl
      | some entries => simp
    · rw [s.entry_withEntry_of_ne _ hd]
  · rfl

/-- Whatever a call answers, only the files that it alters are different after it. -/
theorem alters_of_file_ne {c : GitCall} {r : c.Answer} (hc : handle i c s r t)
    (hq : t.file q ≠ s.file q) : c.Alters q := by
  cases handle_effect hc with
  | same ht => exact absurd (ht ▸ rfl) hq
  | entry dir e hdir ht =>
    obtain ⟨d, hprefix, hd⟩ := entry_ne_of_file_ne hq
    by_cases heq : d = dir
    · exact hdir.alters (heq ▸ hprefix)
    · exact absurd (ht ▸ s.entry_withEntry_of_ne e heq) hd
  | wrote dir path content hdir ht =>
    obtain ⟨d, hprefix, hd⟩ := entry_ne_of_file_ne hq
    by_cases heq : d = dir
    · exact hdir.alters (heq ▸ hprefix)
    · exact absurd (ht ▸ s.entry_withFile_of_ne path content heq) hd
  | made dir htmp hnone hfree ht => exact absurd (file_of_made hnone fun d => by rw [ht]; rfl) hq
  | pushed dir files repo hentry hbase ht => exact absurd (ht ▸ rfl) hq
  | removed path entries ht hnone hentry =>
    obtain ⟨d, hprefix, hd⟩ := entry_ne_of_file_ne hq
    obtain ⟨-, -, -, -, hgone⟩ := hc
    exact ((hgone d).resolve_left hd).1.trans hprefix

/-! ### The calls of an update -/

section

variable (dir : String) (path : Path)

/-- Where a workload is written to. -/
def absoluteFilePath (file : Workload) : Path := join [localPath dir, join [path, file.filepath]]

/-- The text of the absolute path begins with that of the clone's directory. -/
def accepts (file : Workload) : Bool := textPrefix (localPath dir) (absoluteFilePath dir path file)

/-- Up to the first workload that is not accepted, all go into the clone. -/
def NoneBeside (files : List Workload) : Prop :=
  ∀ before file after, files = before ++ file :: after → (∀ x ∈ before, accepts dir path x = true) →
    accepts dir path file = true → localPath dir <+: absoluteFilePath dir path file

end

variable {path : Path} {file : Workload} {files : List Workload}

theorem noneBeside_nil : NoneBeside dir path [] := by
  rintro before file after heq
  exact absurd heq.symm (List.append_ne_nil_of_right_ne_nil _ (List.cons_ne_nil _ _))

theorem noneBeside_cons : NoneBeside dir path (file :: files) ↔
    (accepts dir path file = true →
      localPath dir <+: absoluteFilePath dir path file ∧ NoneBeside dir path files) := by
  constructor
  · intro h haccepts
    refine ⟨h [] file files rfl (fun x hx => by cases hx) haccepts, ?_⟩
    rintro before x after rfl hbefore
    exact h (file :: before) x after rfl (List.forall_mem_cons.mpr ⟨haccepts, hbefore⟩)
  · rintro h before x after heq hbefore hx
    cases before with
    | nil =>
      obtain ⟨rfl, rfl⟩ := List.cons.inj heq
      exact (h hx).1
    | cons y before =>
      obtain ⟨rfl, rfl⟩ := List.cons.inj heq
      obtain ⟨hfile, hbefore⟩ := List.forall_mem_cons.mp hbefore
      exact (h hfile).2 before x after rfl hbefore hx

theorem inside_writeFile {abs : Path} {content : Bytes} :
    Inside dir (.writeFile abs content) ↔ localPath dir <+: abs := by
  constructor
  · exact fun h => h abs (Or.inl rfl)
  · rintro h q (rfl | ⟨d, hd, hq⟩)
    · exact h
    · have hlocal : localPath d = localPath dir :=
        (List.prefix_of_prefix_length_le hd h le_rfl).eq_of_length rfl
      exact hlocal ▸ hq

theorem inside_removeIfExists (path : Path) : (removeIfExists dir path).Calls (Inside dir) := by
  refine calls_bind (calls_perform.mpr fun q hq => hq.elim) fun found => ?_
  cases found with
  | true => exact calls_perform.mpr fun q hq => hq
  | false => exact calls_pure _

theorem inside_deleteFromClone (removeDirectory : Bool) (path : Path) (listed : List Path) :
    (deleteFromClone removeDirectory path listed dir).Calls (Inside dir) := by
  unfold deleteFromClone
  split
  · exact inside_removeIfExists _
  · induction listed with
    | nil => exact calls_pure _
    | cons file listed ih =>
      refine calls_bind (inside_removeIfExists _) fun r => ?_
      cases r with
      | error e => exact calls_pure _
      | ok u => exact ih

theorem inside_commitAndPush (message : String) : (commitAndPush dir message).Calls (Inside dir) := by
  refine calls_bind (calls_perform.mpr fun q hq => hq.elim) fun r => ?_
  rcases r with e | (_ | _)
  · exact calls_pure _
  · refine calls_bind (calls_perform.mpr fun q hq => hq) fun r => ?_
    cases r with
    | error e => exact calls_pure _
    | ok sha =>
      refine calls_bind (calls_perform.mpr fun q hq => hq.elim) fun r => ?_
      cases r <;> exact calls_pure _
  · exact calls_pure _

/-- The loop over the workloads stops at the first one that is not accepted. -/
theorem inside_writeToClone_iff :
    (writeToClone dir path files).Calls (Inside dir) ↔ NoneBeside dir path files := by
  induction files with
  | nil => exact iff_of_true (calls_pure _) noneBeside_nil
  | cons file files ih =>
    unfold writeToClone
    rw [noneBeside_cons, ← ih]
    dsimp only
    split
    · next hrefused =>
      have hrefused : accepts dir path file = false := by
        simpa [accepts, absoluteFilePath] using hrefused
      exact iff_of_true (calls_pure _) fun haccepts => absurd (hrefused.symm.trans haccepts) (by simp)
    · next haccepts =>
      have haccepts : accepts dir path file = true := by
        simpa [accepts, absoluteFilePath] using haccepts
      constructor
      · intro hcalls _
        exact ⟨inside_writeFile.mp hcalls.1, ((hcalls.2 (.ok ())).2 (.ok ()))⟩
      · intro h
        obtain ⟨hfile, hrest⟩ := h haccepts
        refine calls_bind (calls_perform.mpr (inside_writeFile.mpr hfile)) fun r => ?_
        cases r with
        | error e => exact calls_pure _
        | ok u =>
          refine calls_bind (calls_perform.mpr fun q hq => hq) fun r => ?_
          cases r with
          | error e => exact calls_pure _
          | ok u => exact hrest

/-- Nothing needs to be there that is to be removed. -/
theorem exec_deleteFromClone (removeDirectory : Bool) (path : Path) (listed : List Path) :
    Exec (fun _ _ _ _ => True : Handler gitSignature Unit)
      (deleteFromClone removeDirectory path listed dir) () (.ok ()) () := by
  have hmissing (path : Path) : Exec (fun _ _ _ _ => True : Handler gitSignature Unit)
      (removeIfExists dir path) () (.ok ()) () :=
    exec_bind.mpr ⟨false, (), exec_perform.mpr trivial, rfl, rfl⟩
  unfold deleteFromClone
  split
  · exact hmissing _
  · induction listed with
    | nil => exact ⟨rfl, rfl⟩
    | cons file listed ih => exact exec_bind.mpr ⟨.ok (), (), hmissing _, ih⟩

/-- A workload that leads to a sibling of the clone. -/
def siblingUpdate : Update := ⟨[], "placement", [⟨["..", "kratix-repo12", "file"], [1]⟩], []⟩

def lonelyClone : Machine Unit where
  tmp := some (Function.update (fun _ => none) "kratix-repo1" (some ⟨∅, some ⟨0, ∅, ∅⟩⟩))
  owner := Function.update (fun _ => none) "kratix-repo1" (some ())
  initial := ∅
  commits := []

/-- An update whose path leads up and back into the clone. -/
def windingUpdate : Update := ⟨["app"], "placement", [⟨["..", "app", "file"], [1]⟩], []⟩

end Kratix.GitWriter
