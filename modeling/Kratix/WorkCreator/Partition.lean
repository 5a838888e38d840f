import Kratix.WorkCreator.Execute
import Kratix.WorkCreator.Output

/-!
# Every output file in one workload group

The group of a file is the one of its top-level directory, if the pipeline gives
selectors for that directory, and the default group otherwise. The directories
`..` and `/` pass the check for sub-directories although neither is a directory
of the output; `Partitionable` is what the document has to satisfy besides.
-/

namespace Kratix

open Apiserver Effect GoPath

variable {env : Externals}

/-! ### The files of a directory as workloads -/

def isBelow (directories : List Path) : Path → Bool
  | name :: _ :: _ => directories.contains [name]
  | _ => false

theorem join_plain {dir : Path} (hdir : ∀ part ∈ dir, isPlain part = true) {name : String}
    (hname : isPlain name = true) : join [dir, [name]] = dir ++ [name] := by
  have hparts : ∀ part ∈ dir ++ [name], isPlain part = true := by
    intro part hpart
    rcases List.mem_append.mp hpart with hpart | hpart
    · exact hdir part hpart
    · rwa [List.mem_singleton.mp hpart]
  simpa [join] using clean_plain hparts

def workloadAt (env : Externals) (prefixToTrim dir : Path) (e : Path × Bytes) : Workload :=
  ⟨rel prefixToTrim (dir ++ e.1), env.compressContent e.2⟩

theorem getWorkloadsFromDir_eq {prefixToTrim dir : Path} {ignored : List Path}
    {t : FileTree Bytes} (ht : t.wellFormed = true) (hdir : ∀ part ∈ dir, isPlain part = true) :
    getWorkloadsFromDir env prefixToTrim dir ignored t =
      (t.files.filter fun e => !isBelow ignored e.1).map (workloadAt env prefixToTrim dir) := by
  induction t generalizing dir ignored with
  | nil => rfl
  | file name content rest ih =>
    simp only [FileTree.wellFormed, Bool.and_eq_true] at ht
    rw [getWorkloadsFromDir, ih ht.2 hdir, join_plain hdir ht.1.1]
    rfl
  | dir name entries rest ihe ih =>
    simp only [FileTree.wellFormed, Bool.and_eq_true] at ht
    have hsub : ∀ part ∈ dir ++ [name], isPlain part = true := by
      intro part hpart
      rcases List.mem_append.mp hpart with hpart | hpart
      · exact hdir part hpart
      · rw [List.mem_singleton.mp hpart]
        exact ht.1.1.1
    rw [getWorkloadsFromDir, ih ht.2 hdir, join_plain hdir ht.1.1.1, ihe ht.1.2 hsub,
      FileTree.files, List.filter_append, List.map_append]
    congr 1
    -- a file below the sub-directory is ignored exactly when the sub-directory is
    have hbelow {ignored' : List Path} {e : Path × Bytes} (he : e ∈ entries.files) :
        isBelow ignored' (name :: e.1) = ignored'.contains [name] := by
      obtain ⟨n, r, heq, -⟩ := FileTree.exists_head_of_mem_files he
      rw [heq]
      rfl
    have hall : entries.files.filter (fun e => !isBelow [] e.1) = entries.files := by
      refine List.filter_eq_self.mpr fun e he => ?_
      obtain ⟨n, r, heq, -⟩ := FileTree.exists_head_of_mem_files he
      rw [heq]
      cases r <;> rfl
    split
    · next hcontains =>
      rw [List.filter_eq_nil_iff.mpr, List.map_nil]
      intro e he
      obtain ⟨x, hx, rfl⟩ := List.mem_map.mp he
      rw [hbelow hx, hcontains]
      decide
    · next hcontains =>
      rw [hall, List.filter_eq_self.mpr, List.map_map]
      · refine List.map_congr_left fun e _ => ?_
        simp [workloadAt]
      · intro e he
        obtain ⟨x, hx, rfl⟩ := List.mem_map.mp he
        simpa [hbelow hx] using hcontains

theorem rel_append (p q : Path) : rel p (p ++ q) = q := by
  induction p with
  | nil => cases q <;> rfl
  | cons b p ih => simpa [rel] using ih

/-! ### Fibers of a list -/

theorem perm_flatMap_fibers {α κ : Type} [DecidableEq κ] (group : α → κ) {l : List α}
    {keys : List κ} (hnodup : keys.Nodup) (hcover : ∀ a ∈ l, group a ∈ keys) :
    (keys.flatMap fun k => l.filter fun a => group a = k).Perm l := by
  induction keys generalizing l with
  | nil =>
    cases l with
    | nil => exact .nil
    | cons a l => exact absurd (hcover a List.mem_cons_self) List.not_mem_nil
  | cons k keys ih =>
    obtain ⟨hk, hnodup'⟩ := List.nodup_cons.mp hnodup
    have hrest : (keys.flatMap fun k' => l.filter fun a => group a = k').Perm
        (l.filter fun a => !decide (group a = k)) := by
      have hcover' : ∀ a ∈ l.filter (fun a => !decide (group a = k)), group a ∈ keys := by
        intro a ha
        obtain ⟨ha, hne⟩ := List.mem_filter.mp ha
        have hne : group a ≠ k := by simpa using hne
        exact (List.mem_cons.mp (hcover a ha)).resolve_left hne
      have hsame : ∀ k' ∈ keys, (l.filter fun a => !decide (group a = k)).filter
          (fun a => group a = k') = l.filter fun a => group a = k' := by
        intro k' hk'
        rw [List.filter_filter]
        refine List.filter_congr fun a _ => ?_
        by_cases ha : group a = k'
        · have : k' ≠ k := fun h => hk (h ▸ hk')
          simp [ha, this]
        · simp [ha]
      rw [← List.flatMap_congr hsame]
      exact ih hnodup' hcover'
    rw [List.flatMap_cons]
    exact (hrest.append_left _).trans (List.filter_append_perm _ _)

/-! ### The groups of an output -/

/-- The directory of the group of a file. -/
def groupOf (scheduling : List WorkflowDestinationSelectors) : Path → Path
  | name :: _ :: _ =>
    if [name] ∈ scheduling.map WorkflowDestinationSelectors.directory then [name]
    else defaultWorkloadGroupDirectory
  | _ => defaultWorkloadGroupDirectory

def outputWorkload (env : Externals) (e : Path × Bytes) : Workload :=
  ⟨e.1, env.compressContent e.2⟩

/-- Each file of the output is one workload of one group: that of its top-level
directory if the directory is listed, and otherwise the default group. There are
no other workloads. -/
structure Partitions (env : Externals) (scheduling : List WorkflowDestinationSelectors)
    (output : FileTree Bytes) (groups : List WorkloadGroup) : Prop where
  files : (groups.flatMap WorkloadGroup.workloads).Perm
    (output.files.map (outputWorkload env))
  grouped : ∀ g ∈ groups, ∀ w ∈ g.workloads, g.directory = groupOf scheduling w.filepath
  distinct : (groups.map WorkloadGroup.directory).Nodup

/-- The document lists neither the parent of the output directory nor, unless the
output has no files, the root of the file system. -/
def Partitionable (scheduling : List WorkflowDestinationSelectors) (output : FileTree Bytes) :
    Prop :=
  [".."] ∉ scheduling.map WorkflowDestinationSelectors.directory ∧
    ([""] ∈ scheduling.map WorkflowDestinationSelectors.directory → output.files = [])

/-- What a directory can be that is listed in an accepted document. -/
theorem Accepted.directory {scheduling : List WorkflowDestinationSelectors}
    (h : Accepted scheduling) {x : WorkflowDestinationSelectors} (hx : x ∈ scheduling) :
    x.directory = [] ∨ x.directory = [""] ∨ x.directory = [".."] ∨
      ∃ name, isPlain name = true ∧ x.directory = [name] := by
  have hflat := h.flat x hx
  obtain ⟨p, hp⟩ := h.clean x hx
  unfold base at hflat
  cases hlast : x.directory.getLast? with
  | none => exact Or.inl (List.getLast?_eq_none_iff.mp hlast)
  | some part =>
    rw [hlast] at hflat
    by_cases hroot : part = ""
    · exact Or.inr (Or.inl (by rw [← hflat, hroot]))
    by_cases hup : part = ".."
    · exact Or.inr (Or.inr (Or.inl (by rw [← hflat, hup])))
    · have hclean : GoPath.clean p = [part] := by rw [← hp, ← hflat]
      have hplain := @isPlain_of_mem_clean p (by simpa [hclean] using hup)
        (by simpa [hclean] using hroot)
      exact Or.inr (Or.inr (Or.inr ⟨part, hplain part (by simp [hclean]), hflat.symm⟩))

section

variable {root output : FileTree Bytes} {type : WorkflowType}
  {scheduling : List WorkflowDestinationSelectors}

theorem workloadAt_output (d : Path) (e : Path × Bytes) :
    workloadAt env pipelineOutputDir (pipelineOutputDir ++ d) e =
      outputWorkload env (d ++ e.1, e.2) := by
  rw [workloadAt, List.append_assoc, rel_append, outputWorkload]

theorem isPlain_pipelineOutputDir : ∀ part ∈ pipelineOutputDir, isPlain part = true := by decide

theorem find_of_readDir {t entries : FileTree Bytes} {name : String}
    (h : t.readDir [name] = .ok entries) : t.find name = some (.inr entries) := by
  rw [FileTree.readDir] at h
  cases hfind : t.find name with
  | none => simp [hfind] at h
  | some x =>
    cases x with
    | inl content => simp [hfind] at h
    | inr es =>
      rw [hfind] at h
      rw [show es = entries from Except.ok.inj h]

/-- The workloads of the output directory are its files that are not ignored. -/
theorem getWorkloads_output (hwf : output.wellFormed = true)
    (houtput : root.readDir pipelineOutputDir = .ok output) (ignored : List Path) :
    getWorkloads env root pipelineOutputDir ignored =
      .ok ((output.files.filter fun e => !isBelow ignored e.1).map (outputWorkload env)) := by
  rw [getWorkloads, houtput]
  dsimp only
  rw [getWorkloadsFromDir_eq hwf isPlain_pipelineOutputDir]
  refine congrArg Except.ok (List.map_congr_left fun e _ => ?_)
  exact workloadAt_output [] e

/-- The workloads of a directory of the output are the files below it. -/
theorem getWorkloads_directory (hwf : output.wellFormed = true)
    (houtput : root.readDir pipelineOutputDir = .ok output) {name : String}
    (hname : isPlain name = true) {workloads : List Workload}
    (hw : getWorkloads env root (join [pipelineOutputDir, [name]]) [] = .ok workloads) :
    workloads = (output.files.filter fun e => isBelow [[name]] e.1).map (outputWorkload env) := by
  rw [join_plain isPlain_pipelineOutputDir hname] at hw
  unfold getWorkloads at hw
  split at hw
  · cases hw
  · next entries hentries =>
    obtain rfl := Except.ok.inj hw
    have hdir : output.find name = some (.inr entries) := by
      change root.readDir ("input" :: [name]) = .ok entries at hentries
      rw [FileTree.readDir, find_of_readDir houtput] at hentries
      exact find_of_readDir hentries
    have hparts : ∀ part ∈ pipelineOutputDir ++ [name], isPlain part = true := by
      intro part hpart
      rcases List.mem_append.mp hpart with hpart | hpart
      · exact isPlain_pipelineOutputDir part hpart
      · rwa [List.mem_singleton.mp hpart]
    have hfiber := FileTree.filter_files_of_find hwf hdir
    -- the directory's name is not the name of a file
    have hbelow : output.files.filter (fun e => isBelow [[name]] e.1) =
        entries.files.map fun e => (name :: e.1, e.2) := by
      rw [← hfiber]
      refine List.filter_congr fun e he => ?_
      obtain ⟨n, r, heq, -⟩ := FileTree.exists_head_of_mem_files he
      cases r with
      | nil =>
        have hne : n ≠ name := by
          rintro rfl
          have hmem : e ∈ output.files.filter fun e => e.1.head? == some n :=
            List.mem_filter.mpr ⟨he, by simp [heq]⟩
          rw [hfiber] at hmem
          obtain ⟨x, hx, rfl⟩ := List.mem_map.mp hmem
          obtain ⟨m, q, hm, -⟩ := FileTree.exists_head_of_mem_files hx
          simp [hm] at heq
        simp [heq, isBelow, hne]
      | cons m r =>
        rw [heq, Bool.eq_iff_iff]
        simp [isBelow]
    rw [hbelow, getWorkloadsFromDir_eq (FileTree.wellFormed_of_find hwf hdir) hparts,
      List.map_map, List.filter_eq_self.mpr]
    · exact List.map_congr_left fun e _ => workloadAt_output [name] e
    · intro e he
      obtain ⟨n, r, heq, -⟩ := FileTree.exists_head_of_mem_files he
      rw [heq]
      cases r <;> rfl

theorem isBelow_ignored (p : Path) :
    isBelow (directoriesToIgnoreForTheBaseScheduling scheduling) p =
      !decide (groupOf scheduling p = defaultWorkloadGroupDirectory) := by
  have hmem (name : String) : (directoriesToIgnoreForTheBaseScheduling scheduling).contains [name] =
      decide ([name] ∈ scheduling.map WorkflowDestinationSelectors.directory) := by
    rw [Bool.eq_iff_iff, List.contains_iff_mem, directoriesToIgnoreForTheBaseScheduling,
      List.mem_filter, decide_eq_true_eq]
    simp [isRootDirectory, defaultWorkloadGroupDirectory]
  rcases p with _ | ⟨name, _ | ⟨m, r⟩⟩
  · rfl
  · rfl
  · rw [isBelow, hmem, groupOf]
    by_cases h : [name] ∈ scheduling.map WorkflowDestinationSelectors.directory
    · simp [h, defaultWorkloadGroupDirectory]
    · simp [h]

theorem isBelow_directory {name : String}
    (hname : [name] ∈ scheduling.map WorkflowDestinationSelectors.directory) (p : Path) :
    isBelow [[name]] p = decide (groupOf scheduling p = [name]) := by
  rcases p with _ | ⟨n, _ | ⟨m, r⟩⟩
  · simp [isBelow, groupOf, defaultWorkloadGroupDirectory]
  · simp [isBelow, groupOf, defaultWorkloadGroupDirectory]
  · rw [isBelow, groupOf]
    by_cases h : n = name
    · subst h
      simp [hname]
    · have hne : (if [n] ∈ scheduling.map WorkflowDestinationSelectors.directory then [n]
          else defaultWorkloadGroupDirectory) ≠ [name] := by
        split
        · simpa using h
        · simp [defaultWorkloadGroupDirectory]
      rw [decide_eq_false hne]
      simpa using h

/-- The group of a listed directory holds the files of that group. -/
theorem scheduledWorkloadGroup_workloads (hwf : output.wellFormed = true)
    (houtput : root.readDir pipelineOutputDir = .ok output) (haccepted : Accepted scheduling)
    (hpart : Partitionable scheduling output) {x : WorkflowDestinationSelectors}
    (hx : x ∈ scheduling) (hroot : isRootDirectory x.directory = false) {g : WorkloadGroup}
    (hg : scheduledWorkloadGroup env root type x = .ok g) : g.directory = x.directory ∧
      g.workloads = (output.files.filter fun e => groupOf scheduling e.1 = x.directory).map
        (outputWorkload env) := by
  obtain ⟨workloads, hw, rfl⟩ := scheduledWorkloadGroup_eq_ok hg
  refine ⟨rfl, ?_⟩
  have hmem : x.directory ∈ scheduling.map WorkflowDestinationSelectors.directory :=
    List.mem_map_of_mem hx
  rcases haccepted.directory hx with hdir | hdir | hdir | ⟨name, hname, hdir⟩
  · simp [hdir, isRootDirectory, defaultWorkloadGroupDirectory] at hroot
  · have hempty := hpart.2 (hdir ▸ hmem)
    rw [hdir, show join [pipelineOutputDir, [""]] = pipelineOutputDir from rfl,
      getWorkloads_output hwf houtput] at hw
    rw [← Except.ok.inj hw, hempty]
    rfl
  · exact absurd (hdir ▸ hmem) hpart.1
  · rw [hdir] at hw hmem ⊢
    rw [getWorkloads_directory hwf houtput hname hw]
    refine congrArg _ (List.filter_congr fun e _ => ?_)
    rw [isBelow_directory hmem]

/-- The files of one group of the output, as workloads. -/
def groupWorkloads (env : Externals) (scheduling : List WorkflowDestinationSelectors)
    (output : FileTree Bytes) (directory : Path) : List Workload :=
  (output.files.filter fun e => groupOf scheduling e.1 = directory).map (outputWorkload env)

theorem scheduled_workloads {xs : List WorkflowDestinationSelectors} {gs : List WorkloadGroup}
    (hgs : List.Forall₂ (fun x g => scheduledWorkloadGroup env root type x = .ok g) xs gs)
    (hx : ∀ x ∈ xs, ∀ g, scheduledWorkloadGroup env root type x = .ok g →
      g.directory = x.directory ∧ g.workloads = groupWorkloads env scheduling output x.directory) :
    gs.map WorkloadGroup.directory = xs.map WorkflowDestinationSelectors.directory ∧
      ∀ g ∈ gs, g.workloads = groupWorkloads env scheduling output g.directory := by
  induction hgs with
  | nil => simp
  | cons hg _ ih =>
    obtain ⟨hdirs, hrest⟩ := ih fun x hx' => hx x (List.mem_cons_of_mem _ hx')
    obtain ⟨hdir, hworkloads⟩ := hx _ List.mem_cons_self _ hg
    refine ⟨by rw [List.map_cons, List.map_cons, hdirs, hdir], fun g hg => ?_⟩
    rcases List.mem_cons.mp hg with rfl | hg
    · rw [hworkloads, hdir]
    · exact hrest g hg

/-- The group for the rest of the output holds the files of the default group. -/
theorem restWorkloadGroups_workloads (hwf : output.wellFormed = true)
    (houtput : root.readDir pipelineOutputDir = .ok output) {rest : List WorkloadGroup}
    (hrest : restWorkloadGroups env root type scheduling = .ok rest) :
    (∀ g ∈ rest, g.directory = defaultWorkloadGroupDirectory ∧
      g.workloads = groupWorkloads env scheduling output defaultWorkloadGroupDirectory) ∧
    rest.flatMap WorkloadGroup.workloads =
      groupWorkloads env scheduling output defaultWorkloadGroupDirectory ∧ rest.length ≤ 1 := by
  obtain ⟨workloads, hw, hcases⟩ := restWorkloadGroups_eq_ok hrest
  have hworkloads : workloads =
      groupWorkloads env scheduling output defaultWorkloadGroupDirectory := by
    rw [getWorkloads_output hwf houtput] at hw
    rw [← Except.ok.inj hw, groupWorkloads]
    refine congrArg _ (List.filter_congr fun e _ => ?_)
    rw [isBelow_ignored, Bool.not_not]
  rcases hcases with ⟨hnil, rfl⟩ | ⟨-, selectors, -, rfl⟩
  · rw [← hworkloads, hnil]
    simp
  · rw [← hworkloads]
    simp

theorem groupOf_mem_keys (p : Path) :
    groupOf scheduling p ∈ ((scheduling.filter fun x => !isRootDirectory x.directory).map
      WorkflowDestinationSelectors.directory) ++ [defaultWorkloadGroupDirectory] := by
  rw [List.mem_append, List.mem_singleton]
  rcases p with _ | ⟨name, _ | ⟨m, r⟩⟩
  · exact Or.inr rfl
  · exact Or.inr rfl
  · rw [groupOf]
    split
    · next h =>
      obtain ⟨x, hx, hdir⟩ := List.mem_map.mp h
      refine Or.inl (List.mem_map.mpr ⟨x, List.mem_filter.mpr ⟨hx, ?_⟩, hdir⟩)
      simp [hdir, isRootDirectory, defaultWorkloadGroupDirectory]
    · exact Or.inr rfl

theorem partitions_of_partitionable (hwf : output.wellFormed = true)
    (houtput : root.readDir pipelineOutputDir = .ok output) (haccepted : Accepted scheduling)
    (hpart : Partitionable scheduling output) {scheduled rest : List WorkloadGroup}
    (hscheduled : List.Forall₂ (fun x g => scheduledWorkloadGroup env root type x = .ok g)
      (scheduling.filter fun x => !isRootDirectory x.directory) scheduled)
    (hrest : restWorkloadGroups env root type scheduling = .ok rest) :
    Partitions env scheduling output (scheduled ++ rest) := by
  obtain ⟨hdirs, hworkloads⟩ : _ ∧
      ∀ g ∈ scheduled, g.workloads = groupWorkloads env scheduling output g.directory :=
    scheduled_workloads hscheduled fun x hx g hg => by
      obtain ⟨hx, hroot⟩ := List.mem_filter.mp hx
      exact scheduledWorkloadGroup_workloads hwf houtput haccepted hpart hx
        (by simpa using hroot) hg
  obtain ⟨hdefault, hflat, hlength⟩ := restWorkloadGroups_workloads hwf houtput hrest
  have hroots : defaultWorkloadGroupDirectory ∉ (scheduling.filter
      fun x => !isRootDirectory x.directory).map WorkflowDestinationSelectors.directory := by
    intro hmem
    obtain ⟨x, hx, hdir⟩ := List.mem_map.mp hmem
    have hroot := (List.mem_filter.mp hx).2
    simp [hdir, isRootDirectory] at hroot
  have hnodup : ((scheduling.filter fun x => !isRootDirectory x.directory).map
      WorkflowDestinationSelectors.directory).Nodup :=
    haccepted.nodup.sublist (List.filter_sublist.map _)
  refine ⟨?_, fun g hg w hw => ?_, ?_⟩
  · have hkeys : (((scheduling.filter fun x => !isRootDirectory x.directory).map
        WorkflowDestinationSelectors.directory) ++ [defaultWorkloadGroupDirectory]).Nodup := by
      refine List.nodup_append.mpr ⟨hnodup, List.nodup_singleton _, fun a ha b hb => ?_⟩
      rw [List.mem_singleton.mp hb]
      rintro rfl
      exact hroots ha
    have hperm : List.Perm _ output.files :=
      perm_flatMap_fibers (fun e => groupOf scheduling e.1) hkeys fun e _ => groupOf_mem_keys e.1
    have hfibers := hperm.map (outputWorkload env)
    rw [List.map_flatMap, List.flatMap_append, List.flatMap_singleton, ← hdirs,
      List.flatMap_map] at hfibers
    rw [List.flatMap_append, hflat]
    rwa [List.flatMap_congr hworkloads]
  · have hg' : g.workloads = groupWorkloads env scheduling output g.directory := by
      rcases List.mem_append.mp hg with hg | hg
      · exact hworkloads g hg
      · rw [(hdefault g hg).1]
        exact (hdefault g hg).2
    rw [hg'] at hw
    obtain ⟨e, he, rfl⟩ := List.mem_map.mp hw
    exact (of_decide_eq_true (List.mem_filter.mp he).2).symm
  · rw [List.map_append, hdirs]
    refine List.nodup_append.mpr ⟨hnodup, ?_, fun a ha b hb => ?_⟩
    · rcases rest with _ | ⟨g, _ | ⟨g', r⟩⟩
      · exact List.nodup_nil
      · exact List.nodup_singleton _
      · simp at hlength
    · obtain ⟨g, hg, rfl⟩ := List.mem_map.mp hb
      rw [(hdefault g hg).1]
      rintro rfl
      exact hroots ha

theorem exists_scheduled {xs : List WorkflowDestinationSelectors} {gs : List WorkloadGroup}
    (hgs : List.Forall₂ (fun x g => scheduledWorkloadGroup env root type x = .ok g)
      (xs.filter fun x => !isRootDirectory x.directory) gs) {dir : Path}
    (hdir : dir ∈ xs.map WorkflowDestinationSelectors.directory)
    (hroot : isRootDirectory dir = false) :
    ∃ g ∈ gs, g.directory = dir ∧
      getWorkloads env root (join [pipelineOutputDir, dir]) [] = .ok g.workloads := by
  obtain ⟨x, hx, rfl⟩ := List.mem_map.mp hdir
  obtain ⟨g, hg, hok⟩ :=
    (exists_of_forall₂ hgs).2 x (List.mem_filter.mpr ⟨hx, by simp [hroot]⟩)
  obtain ⟨workloads, hw, rfl⟩ := scheduledWorkloadGroup_eq_ok hok
  exact ⟨_, hg, rfl, hw⟩

/-- The document itself is a file outside the output directory. -/
theorem mem_files_of_scheduling (hscheduling : getWorkflowScheduling env root = .ok scheduling)
    (hne : scheduling ≠ []) :
    ∃ content, (["metadata", "destination-selectors.yaml"], content) ∈ root.files := by
  unfold getWorkflowScheduling at hscheduling
  split at hscheduling
  · exact absurd (Except.ok.inj hscheduling).symm hne
  · cases hscheduling
  · next content hread => exact ⟨content, FileTree.mem_files_of_readFile hread⟩

theorem Partitions.partitionable (hroot : root.wellFormed = true) (hwf : output.wellFormed = true)
    (houtput : root.readDir pipelineOutputDir = .ok output)
    (hscheduling : getWorkflowScheduling env root = .ok scheduling)
    {scheduled rest : List WorkloadGroup}
    (hscheduled : List.Forall₂ (fun x g => scheduledWorkloadGroup env root type x = .ok g)
      (scheduling.filter fun x => !isRootDirectory x.directory) scheduled)
    (h : Partitions env scheduling output (scheduled ++ rest)) :
    Partitionable scheduling output := by
  constructor
  · intro hup
    obtain ⟨content, hfile⟩ := mem_files_of_scheduling hscheduling fun hnil => by simp [hnil] at hup
    obtain ⟨g, hg, -, hw⟩ := exists_scheduled hscheduled hup rfl
    -- the group of the parent directory holds the document
    have hmem : outputWorkload env (["..", "metadata", "destination-selectors.yaml"], content) ∈
        g.workloads := by
      have hall : getWorkloads env root (join [pipelineOutputDir, [".."]]) [] =
          .ok (getWorkloadsFromDir env pipelineOutputDir [] [] root) := rfl
      rw [← Except.ok.inj (hall.symm.trans hw), getWorkloadsFromDir_eq hroot (by simp)]
      exact List.mem_map.mpr ⟨_, List.mem_filter.mpr ⟨hfile, rfl⟩, rfl⟩
    have hflat := h.files.subset
      (List.mem_flatMap.mpr ⟨g, List.mem_append_left _ hg, hmem⟩)
    obtain ⟨e, he, heq⟩ := List.mem_map.mp hflat
    have hpath : e.1 = ["..", "metadata", "destination-selectors.yaml"] :=
      congrArg Workload.filepath heq
    have hplain := FileTree.isPlain_of_mem_files hwf he ".." (by simp [hpath])
    exact absurd hplain (by decide)
  · intro hslash
    obtain ⟨g, hg, hdir, hw⟩ := exists_scheduled hscheduled hslash rfl
    refine List.eq_nil_iff_forall_not_mem.mpr fun e he => ?_
    have hmem : outputWorkload env e ∈ g.workloads := by
      rw [show join [pipelineOutputDir, [""]] = pipelineOutputDir from rfl,
        getWorkloads_output hwf houtput] at hw
      rw [← Except.ok.inj hw]
      refine List.mem_map_of_mem (List.mem_filter.mpr ⟨he, ?_⟩)
      obtain ⟨n, r, heq, -⟩ := FileTree.exists_head_of_mem_files he
      rw [heq]
      cases r <;> rfl
    have hgroup := h.grouped g (List.mem_append_left _ hg) _ hmem
    obtain ⟨n, r, heq, -⟩ := FileTree.exists_head_of_mem_files he
    have hn := FileTree.isPlain_of_mem_files hwf he n (by simp [heq])
    rw [hdir, show (outputWorkload env e).filepath = n :: r from heq] at hgroup
    cases r with
    | nil => simp [groupOf, defaultWorkloadGroupDirectory] at hgroup
    | cons m r =>
      rw [groupOf] at hgroup
      split at hgroup
      · obtain rfl : "" = n := by simpa using hgroup
        exact absurd hn (by decide)
      · simp [defaultWorkloadGroupDirectory] at hgroup

theorem partitions_iff (hroot : root.wellFormed = true)
    (houtput : root.readDir pipelineOutputDir = .ok output)
    (hscheduling : getWorkflowScheduling env root = .ok scheduling) {groups : List WorkloadGroup}
    (hgroups : getWorkloadGroups env root type = .ok groups) :
    Partitions env scheduling output groups ↔ Partitionable scheduling output := by
  have hwf := FileTree.wellFormed_of_find hroot (find_of_readDir houtput)
  obtain ⟨scheduling', scheduled, rest, hsame, hscheduled, hrest, rfl⟩ :=
    getWorkloadGroups_eq_ok.mp hgroups
  obtain rfl : scheduling = scheduling' := Except.ok.inj (hscheduling.symm.trans hsame)
  have haccepted := getWorkflowScheduling_accepted hscheduling
  constructor
  · exact fun h => h.partitionable hroot hwf houtput hscheduling hscheduled
  · exact fun h => partitions_of_partitionable hwf houtput haccepted h hscheduled hrest

end

/-! ### The Work of an output -/

/-- A root directory with these output files and this document. -/
def rootWith (output : FileTree Bytes) (scheduling : List WorkflowDestinationSelectors) :
    FileTree Bytes :=
  .dir "input" output (.dir "metadata" (.file "destination-selectors.yaml"
    (selectorsCodec.list.put scheduling) .nil) .nil)

def selectDirectory (directory : Path) : WorkflowDestinationSelectors :=
  ⟨Labels.ofList [("zone", "a")], directory⟩

def installArgs : WorkCreatorArgs := ⟨"redis", "install", "", .promise, ""⟩

/-- The document of this root lists the parent directory. -/
def escapingRoot : FileTree Bytes :=
  rootWith (.file "redis.yaml" [1] .nil) [selectDirectory [".."]]

set_option maxRecDepth 4096 in
/-- The document becomes a workload itself, at a path that leads out. -/
theorem parent_directory_escapes :
    ∃ (t : World) (w : Work),
      Exec (faulty plainExternals) (WorkCreator.execute plainExternals installArgs escapingRoot)
        emptyWorld (.ok ()) t ∧
      WorkCreator.Written emptyWorld t w ∧
      ∃ g ∈ w.spec.workloadGroups, ∃ x ∈ g.workloads, ".." ∈ x.filepath := by
  have heval : (eval (serveCall plainExternals)
      (WorkCreator.execute plainExternals installArgs escapingRoot) emptyWorld).any
      (fun out => out.1.isOk) = true := by
    decide +kernel
  obtain ⟨r, t, he, hr⟩ := exists_exec_of_eval (h := faulty plainExternals) faulty_of_serveCall heval
  obtain ⟨⟨⟩, rfl⟩ := exists_ok_of_isOk hr
  obtain ⟨groups, hgroups, happlies⟩ := WorkCreator.exec_execute_ok he
  obtain ⟨w, hspec, hw⟩ := happlies.written
  have hescapes : (getWorkloadGroups plainExternals escapingRoot .promise).toOption.any
      (fun groups => groups.any fun g => g.workloads.any fun x => x.filepath.contains "..") =
        true := by
    decide +kernel
  rw [show getWorkloadGroups plainExternals escapingRoot .promise = _ from hgroups] at hescapes
  obtain ⟨g, hg, hx⟩ := List.any_eq_true.mp hescapes
  obtain ⟨x, hx, hup⟩ := List.any_eq_true.mp hx
  exact ⟨t, w, he, hw, g, hspec ▸ hg, x, hx, List.contains_iff_mem.mp hup⟩

/-- After a successful execution the files of the output are partitioned into the
groups of the Work, exactly if the document lists only directories of the output. -/
theorem output_partitioned_iff (env : Externals) {args : WorkCreatorArgs}
    {root output : FileTree Bytes} {scheduling : List WorkflowDestinationSelectors} {s t : World}
    (hroot : root.wellFormed = true) (houtput : root.readDir pipelineOutputDir = .ok output)
    (hscheduling : getWorkflowScheduling env root = .ok scheduling)
    (he : Exec (faulty env) (WorkCreator.execute env args root) s (.ok ()) t) :
    ∃ w, WorkCreator.Written s t w ∧
      (Partitions env scheduling output w.spec.workloadGroups ↔
        Partitionable scheduling output) := by
  obtain ⟨groups, hgroups, happlies⟩ := WorkCreator.exec_execute_ok he
  obtain ⟨w, hspec, hw⟩ := happlies.written
  refine ⟨w, hw, ?_⟩
  rw [hspec]
  exact partitions_iff hroot houtput hscheduling hgroups

/-- A file in a listed directory and one beside it. -/
def sampleOutput : FileTree Bytes :=
  .dir "app" (.file "redis.yaml" [1] .nil) (.file "other.yaml" [2] .nil)

def twoGroupsRoot : FileTree Bytes :=
  rootWith sampleOutput [selectDirectory ["app"]]

set_option maxRecDepth 4096 in
theorem output_partitioned_iff_sample :
    ∃ (t : World) (w : Work), WorkCreator.Written emptyWorld t w ∧
      Partitions plainExternals [selectDirectory ["app"]] sampleOutput w.spec.workloadGroups := by
  have heval : (eval (serveCall plainExternals)
      (WorkCreator.execute plainExternals installArgs twoGroupsRoot) emptyWorld).any
      (fun out => out.1.isOk) = true := by
    decide +kernel
  obtain ⟨r, t, he, hr⟩ := exists_exec_of_eval (h := faulty plainExternals) faulty_of_serveCall heval
  obtain ⟨⟨⟩, rfl⟩ := exists_ok_of_isOk hr
  have hscheduling : getWorkflowScheduling plainExternals twoGroupsRoot =
      .ok [selectDirectory ["app"]] := by
    decide +kernel
  obtain ⟨w, hw, hiff⟩ := output_partitioned_iff plainExternals (by decide) rfl hscheduling he
  exact ⟨t, w, hw, hiff.mpr ⟨by decide, by decide⟩⟩

end Kratix
