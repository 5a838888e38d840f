import Kratix.Writers.Git

/-!
# Working copies of concurrent operations

Every call of an operation changes only the directory that the operation has
made, with two exceptions: a file may be written to a directory whose name
merely begins with that of its own, and the deferred cleanup removes the whole
directory for temporary files.
-/

namespace Kratix.GitWriter

open Effect GoPath

variable {ι : Type} {i : ι} {s t : Machine ι} {dir : String}

/-- What a process does with Git at one time. -/
inductive Operation
  | update (g : Writer) (u : Update)
  | read (g : Writer) (filePath : Path)

def Operation.program : Operation → GitProg (Except StoreError (String ⊕ Bytes))
  | .update g u => do
    let version ← updateFiles g u
    return version.map Sum.inl
  | .read g filePath => do
    let content ← readFile g filePath
    return content.map Sum.inr

/-- The operation leaves the directory for temporary files in place, and in it
everything but its own. -/
structure Confined (i : ι) (s t : Machine ι) : Prop where
  tmp : s.tmp.isSome = true → t.tmp.isSome = true
  others : ∀ dir, s.owner dir ≠ some i → t.owner dir ≠ some i → t.entry dir = s.entry dir

/-- A write goes below the operation's own directory, and nothing is left that a
cleanup could remove. -/
def Harmless (i : ι) (s : Machine ι) : GitCall → Prop
  | .writeFile path _ => ∃ dir, localPath dir <+: path ∧ s.owner dir = some i
  | .removeAll _ => s.tmp = none
  | _ => True

theorem Confined.refl (i : ι) (s : Machine ι) : Confined i s s := ⟨id, fun _ _ _ => rfl⟩

/-- The entries that the call changes belong to the operation, paths aside. -/
def InOwn (i : ι) (s : Machine ι) : GitCall → Prop
  | .clone dir => s.owner dir = some i
  | .remove dir _ => s.owner dir = some i
  | .add dir _ => s.owner dir = some i
  | .commit dir _ => s.owner dir = some i
  | _ => True

theorem owner_of_touches {c : GitCall} (hin : InOwn i s c)
    (hwrite : ∀ path content, c = .writeFile path content →
      ∃ dir, localPath dir <+: path ∧ s.owner dir = some i)
    (hdir : c.Touches dir) : s.owner dir = some i := by
  cases c with
  | clone d => exact hdir ▸ hin
  | remove d path => exact hdir ▸ hin
  | add d path => exact hdir ▸ hin
  | commit d message => exact hdir ▸ hin
  | writeFile path content =>
    obtain ⟨d, hprefix, hown⟩ := hwrite path content rfl
    have hlocal : localPath d = localPath dir :=
      (List.prefix_of_prefix_length_le hprefix hdir le_rfl).eq_of_length rfl
    obtain rfl : d = dir := by simpa [localPath] using hlocal
    exact hown
  | _ => cases hdir

theorem CallEffect.confined {c : GitCall} (hc : CallEffect i s t c) (hin : InOwn i s c)
    (hharmless : Harmless i s c) : Confined i s t := by
  have htouches : ∀ {dir}, c.Touches dir → s.owner dir = some i :=
    owner_of_touches hin fun path content heq => by subst heq; exact hharmless
  cases hc with
  | same ht => exact ht ▸ .refl i s
  | entry dir e hdir ht =>
    have hown := htouches hdir
    subst ht
    refine ⟨fun h => by simpa using h, fun d hd _ => s.entry_withEntry_of_ne e ?_⟩
    rintro rfl
    exact hd hown
  | wrote dir path content hdir ht =>
    have hown := htouches hdir
    subst ht
    refine ⟨fun _ => rfl, fun d hd _ => s.entry_withFile_of_ne path content ?_⟩
    rintro rfl
    exact hd hown
  | made dir htmp _ _ ht =>
    subst ht
    refine ⟨fun _ => by simpa using htmp, fun d _ hd => s.entry_withEntry_of_ne (some {}) ?_⟩
    rintro rfl
    exact hd (Function.update_self ..)
  | pushed dir files repo _ _ ht =>
    subst ht
    exact ⟨id, fun _ _ _ => rfl⟩
  | removed path entries ht hnone _ =>
    have hgone : s.tmp = none := hharmless
    obtain rfl := hnone hgone
    subst ht
    refine ⟨fun h => by simp [hgone] at h, fun d _ _ => ?_⟩
    simp [Machine.entry, hgone]

theorem CallEffect.owner {c : GitCall} (hc : CallEffect i s t c) {d : String} {j : ι}
    (hj : s.owner d = some j) : t.owner d = some j := by
  cases hc with
  | made dir _ _ hfree ht =>
    subst ht
    have hne : d ≠ dir := by
      rintro rfl
      exact absurd (hfree.symm.trans hj) (by simp)
    exact (Function.update_of_ne hne _ _).trans hj
  | same ht => exact ht ▸ hj
  | entry _ _ _ ht => exact ht ▸ hj
  | wrote _ _ _ _ ht => exact ht ▸ hj
  | pushed _ _ _ _ _ ht => exact ht ▸ hj
  | removed _ _ ht _ _ => exact ht ▸ hj

/-! ### Operations keep to their directory -/

/-- What others may do: directories keep their owners. -/
def KeepsOwners (i : ι) (s t : Machine ι) : Prop :=
  ∀ dir, s.owner dir = some i → t.owner dir = some i

/-- What the operation does. -/
def StaysIn (i : ι) (c : GitCall) (s t : Machine ι) : Prop :=
  (Harmless i s c → Confined i s t) ∧ ∀ d j, s.owner d = some j → t.owner d = some j

/-- The call works in this directory, or with an absolute path. -/
def WorksIn (dir : String) : GitCall → Prop
  | .mkdirTemp => False
  | .clone d => d = dir
  | .remove d _ => d = dir
  | .add d _ => d = dir
  | .commit d _ => d = dir
  | _ => True

theorem within_worksIn {α : Type} {p : GitProg α} (hp : p.Calls (WorksIn dir))
    (hown : s.owner dir = some i) :
    Within (handle i) (KeepsOwners i) (StaysIn i) (fun _ _ => True) p s := by
  induction p generalizing s with
  | done a => exact fun _ _ => True.intro
  | call c next ih =>
    intro t ht r u hc
    have hown' := ht dir hown
    have heffect := handle_effect hc
    have hin : InOwn i t c := by
      have hworks : WorksIn dir c := hp.1
      cases c with
      | clone d => exact hworks ▸ hown'
      | remove d path => exact hworks ▸ hown'
      | add d path => exact hworks ▸ hown'
      | commit d message => exact hworks ▸ hown'
      | _ => exact True.intro
    exact ⟨⟨heffect.confined hin, fun _ _ => heffect.owner⟩, ih r (hp.2 r) (heffect.owner hown')⟩

theorem calls_removeIfExists (path : Path) :
    (removeIfExists dir path).Calls (WorksIn dir) := by
  refine calls_bind (calls_perform.mpr True.intro) fun found => ?_
  cases found with
  | true => exact calls_perform.mpr rfl
  | false => exact calls_pure _

theorem calls_removeFiles (path : Path) (files : List Path) :
    (removeFiles dir path files).Calls (WorksIn dir) := by
  induction files with
  | nil => exact calls_pure _
  | cons file files ih =>
    refine calls_bind (calls_removeIfExists _) fun r => ?_
    cases r with
    | error e => exact calls_pure _
    | ok u => exact ih

theorem calls_writeToClone (path : Path) (files : List Workload) :
    (writeToClone dir path files).Calls (WorksIn dir) := by
  induction files with
  | nil => exact calls_pure _
  | cons file files ih =>
    unfold writeToClone
    dsimp only
    split
    · exact calls_pure _
    · refine calls_bind (calls_perform.mpr True.intro) fun r => ?_
      cases r with
      | error e => exact calls_pure _
      | ok u =>
        refine calls_bind (calls_perform.mpr rfl) fun r => ?_
        cases r with
        | error e => exact calls_pure _
        | ok u => exact ih

theorem calls_commitAndPush (message : String) :
    (commitAndPush dir message).Calls (WorksIn dir) := by
  refine calls_bind (calls_perform.mpr True.intro) fun r => ?_
  rcases r with e | (_ | _)
  · exact calls_pure _
  · refine calls_bind (calls_perform.mpr rfl) fun r => ?_
    cases r with
    | error e => exact calls_pure _
    | ok sha =>
      refine calls_bind (calls_perform.mpr True.intro) fun r => ?_
      cases r <;> exact calls_pure _
  · exact calls_pure _

theorem calls_updateClone (g : Writer) (u : Update) :
    (updateClone g u dir).Calls (WorksIn dir) := by
  have hdelete : (deleteFromClone u.removesDirectory (u.dirInGitRepo g) u.workloadsToDelete
      dir).Calls (WorksIn dir) := by
    unfold deleteFromClone
    split
    · exact calls_removeIfExists _
    · exact calls_removeFiles _ _
  refine calls_bind hdelete fun r => ?_
  cases r with
  | error e => exact calls_pure _
  | ok done =>
    refine calls_bind (calls_writeToClone _ _) fun r => ?_
    rcases r with e | (_ | _)
    · exact calls_pure _
    · exact calls_pure _
    · exact calls_commitAndPush _

theorem calls_readFromClone (path : Path) : (readFromClone dir path).Calls (WorksIn dir) := by
  refine calls_bind (calls_perform.mpr True.intro) fun found => ?_
  cases found with
  | false => exact calls_pure _
  | true => exact calls_perform.mpr True.intro

theorem KeepsOwners.refl (s : Machine ι) : KeepsOwners i s s := fun _ h => h

/-- The operation gets a directory of its own, or stops. -/
theorem within_setupLocalDirectoryWithRepo (s : Machine ι) :
    Within (handle i) (KeepsOwners i) (StaysIn i)
      (fun r t => ∀ dir, r = .ok dir → t.owner dir = some i) setupLocalDirectoryWithRepo s := by
  have hmade : Within (handle i) (KeepsOwners i) (StaysIn i)
      (fun r t => ∀ dir, r = .ok dir → t.owner dir = some i) mkdirTemp s := by
    refine within_perform fun t _ r u hc => ?_
    have heffect := handle_effect hc
    refine ⟨⟨heffect.confined True.intro, fun _ _ => heffect.owner⟩, ?_⟩
    rintro v hv dir rfl
    obtain ⟨-, -, -, -, rfl⟩ := hc
    exact hv dir (Function.update_self ..)
  refine within_bind KeepsOwners.refl hmade fun r t hr => ?_
  cases r with
  | error e => exact within_pure fun _ _ dir h => by cases h
  | ok dir =>
    have hown := hr dir rfl
    refine within_bind (M := fun _ u => u.owner dir = some i) KeepsOwners.refl ?_ fun r u hu => ?_
    · refine within_perform fun u hu r v hc => ?_
      have heffect := handle_effect hc
      exact ⟨⟨heffect.confined (hu dir hown), fun _ _ => heffect.owner⟩,
        fun w hw => hw dir (heffect.owner (hu dir hown))⟩
    · cases r with
      | error e => exact within_pure fun _ _ d h => by cases h
      | ok done =>
        refine within_pure fun v hv d h => ?_
        obtain rfl : dir = d := Except.ok.inj h
        exact hv dir hu

theorem Operation.within (o : Operation) (s : Machine ι) :
    Within (handle i) (KeepsOwners i) (StaysIn i) (fun _ _ => True) o.program s := by
  have hcleanup : ∀ {α β : Type} {p : GitProg α} {f : α → GitProg β} {dir : String} (t : Machine ι),
      t.owner dir = some i → p.Calls (WorksIn dir) → (∀ a, (f a).Calls (WorksIn dir)) →
      Within (handle i) (KeepsOwners i) (StaysIn i) (fun _ _ => True) (p >>= f) t :=
    fun t hown hp hf => within_worksIn (calls_bind hp hf) hown
  cases o with
  | update g u =>
    refine within_bind (M := fun _ _ => True) KeepsOwners.refl ?_ fun r t _ =>
      within_pure fun _ _ => True.intro
    unfold updateFiles
    split
    · exact within_pure fun _ _ => True.intro
    · refine within_bind KeepsOwners.refl (within_setupLocalDirectoryWithRepo s) fun r t hr => ?_
      cases r with
      | error e => exact within_pure fun _ _ => True.intro
      | ok dir =>
        exact hcleanup t (hr dir rfl) (calls_updateClone g u) fun r =>
          calls_bind (calls_perform.mpr True.intro) fun _ => calls_pure _
  | read g filePath =>
    refine within_bind (M := fun _ _ => True) KeepsOwners.refl ?_ fun r t _ =>
      within_pure fun _ _ => True.intro
    refine within_bind KeepsOwners.refl (within_setupLocalDirectoryWithRepo s) fun r t hr => ?_
    cases r with
    | error e => exact within_pure fun _ _ => True.intro
    | ok dir =>
      exact hcleanup t (hr dir rfl) (calls_readFromClone _) fun r =>
        calls_bind (calls_perform.mpr True.intro) fun _ => calls_pure _

/-! ### The deferred cleanup -/

/-- Two operations that read a file of an empty repository. -/
def twoReads : Bool → Operation :=
  fun _ => .read ⟨.git, "store", []⟩ ["file"]

/-- No temporary files yet, and nothing on the branch. -/
def freshMachine : Machine Bool := ⟨some fun _ => none, fun _ => none, ∅, []⟩

/-- The first operation has made its directory. -/
def firstMade : Machine Bool :=
  { freshMachine.withEntry "kratix-repo1" (some {}) with
    owner := Function.update freshMachine.owner "kratix-repo1" (some false) }

/-- It has cloned the branch. -/
def firstCloned : Machine Bool :=
  firstMade.withEntry "kratix-repo1" (some ⟨∅, some ⟨0, ∅, ∅⟩⟩)

/-- The second one has made its directory, too. -/
def bothMade : Machine Bool :=
  { firstCloned.withEntry "kratix-repo2" (some {}) with
    owner := Function.update firstCloned.owner "kratix-repo2" (some true) }

end Kratix.GitWriter
