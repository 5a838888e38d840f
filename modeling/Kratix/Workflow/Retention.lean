import Kratix.Lib.Retention
import Kratix.Workflow.Quiescence

/-!
# How many Jobs are kept

When the last pipeline has completed, `cleanup` deletes old Jobs. It finds the
Jobs of a pipeline by the names of the Promise, of the request and of the
pipeline, and by nothing else. The deletions are computed exactly, for any Jobs
in the cluster, and compared with what is meant to be kept: the newest Jobs of
each pipeline of this configure workflow.
-/

namespace Kratix.Workflow

open Apiserver Effect Retention

variable {env : Externals} {p : ParentKind} {opts opts' : Opts p} {s t u : World} {r : Result p}
  {job : Job}

/-! ### Deleting objects -/

/-- Objects are deleted at once, or marked if they have finalizers. -/
def deletion (σ τ : Type) : Removal (Object σ τ) where
  created := Object.created
  left o := o.markDeleting.settle
  created_left := by
    intro o o' h
    rw [Object.settle_eq_some h]
    rfl
  left_left := by
    intro o o' h
    obtain rfl := Object.settle_eq_some h
    exact h

theorem exec_deleteObject_objects {k : Kind} {ns name : String} {a : Except ApiError Unit}
    (he : Exec (unfailing env) (deleteObject k ns name) s a t) : a = .ok () ∧
      t.cluster.objects k =
        remove (deletion _ _) (fun o => decide (o.key = (ns, name))) (s.cluster.objects k) := by
  obtain ⟨hfree, x, rfl⟩ := exec_perform.mp he
  refine ⟨rfl, ?_⟩
  obtain ⟨hr, rfl⟩ := Prod.mk.inj hfree
  cases hf : s.cluster.find k (ns, name) with
  | none =>
    simp only [serve, hf] at hr
    cases hr
  | some o =>
    simp only [serve, hf, World.cluster_withCluster, Cluster.rewrite, Function.update_self, remove]
    refine congrArg (List.filterMap · _) (funext fun o => ?_)
    simp only [atKey, decide_eq_true_eq]
    rfl

theorem exec_deleteJobs_objects {jobs : List Job} {a : Unit}
    (he : Exec (unfailing env) (deleteJobs jobs) s a t) :
    t.cluster.objects .job = remove (deletion _ _) (fun j => jobs.any fun x => x.key = j.key)
      (s.cluster.objects .job) := by
  induction jobs generalizing s with
  | nil =>
    obtain ⟨-, rfl⟩ := he
    exact (remove_of_not fun _ _ => rfl).symm
  | cons job jobs ih =>
    obtain ⟨b, u, hdel, hrest⟩ := exec_bind.mp he
    obtain ⟨rfl, hu⟩ := exec_deleteObject_objects hdel
    rw [ih hrest, hu, remove_remove]
    refine congrArg (remove _ · _) (funext fun j => ?_)
    simp only [List.any_cons, eq_comm (a := j.key)]
    rfl

/-! ### Cleaning up -/

/-- A list call with the labels for cleaning up returns the Job. -/
def selects (env : Externals) (ns : String) (pipeline : PipelineJobResources) (j : Job) : Bool :=
  (env.parseLabels (cleanupLabels pipeline)).any fun sel =>
    inNamespace ns j.metadata && sel j.metadata.labels

theorem ignores_selects (pipeline : PipelineJobResources) (ns : String) :
    (deletion _ _).Ignores (selects env ns pipeline) := by
  intro j j' h
  obtain rfl := Object.settle_eq_some h
  rfl

theorem exec_cleanupJobs_objects {sel : Job → Bool} {a : Unit}
    (he : Exec (unfailing env) (cleanupJobs opts ((s.cluster.objects .job).filter sel)) s a t) :
    t.cluster.objects .job =
      trim (deletion _ _) opts.numberOfJobsToKeep sel (s.cluster.objects .job) := by
  have hlen : ((s.cluster.objects .job).filter sel).length = (s.cluster.objects .job).countP sel :=
    List.countP_eq_length_filter.symm
  unfold cleanupJobs at he
  split at he
  · next hfew =>
    obtain ⟨-, rfl⟩ := he
    refine (remove_of_not fun j hj => ?_).symm
    by_contra hb
    obtain ⟨hs, hn⟩ := beyond_iff.mp (by simpa using hb)
    have hlt : newer (deletion _ _) sel _ j < _ := newer_lt_of_mem hj hs
    omega
  · rw [exec_deleteJobs_objects he]
    refine remove_congr fun j hj => ?_
    rw [Bool.eq_iff_iff, List.any_eq_true, beyond_iff]
    have hnd : ((((s.cluster.objects .job).filter sel).map Object.created)).Nodup :=
      (s.cluster.created_nodup .job).sublist (List.filter_sublist.map _)
    have hnewer (j : Job) : newer (deletion _ _) (fun _ => true)
        ((s.cluster.objects .job).filter sel) j =
          newer (deletion _ _) sel (s.cluster.objects .job) j := by
      simp only [newer, Bool.true_and, List.countP_filter, Bool.and_comm]
    constructor
    · rintro ⟨x, hx, hkey⟩
      have hxl := (List.perm_insertionSort _ _).mem_iff.mp (List.mem_of_mem_take hx)
      obtain ⟨hxs, hsel⟩ := List.mem_filter.mp hxl
      obtain rfl : x = j := s.cluster.eq_of_key hxs hj (by simpa using hkey)
      refine ⟨hsel, ?_⟩
      rw [← hnewer]
      exact (mem_take_iff (m := deletion _ _) hnd hxl).mp hx
    · rintro ⟨hsel, hn⟩
      rw [← hnewer] at hn
      exact ⟨j, (mem_take_iff (m := deletion _ _) hnd (List.mem_filter.mpr ⟨hj, hsel⟩)).mpr hn,
        by simp⟩

theorem exec_cleanupPipelines_objects {ns : String} {pipelines : List PipelineJobResources} {a : Unit}
    (he : Exec (unfailing env) (cleanupPipelines env opts ns pipelines) s a t) :
    t.cluster.objects .job = trimAll (deletion _ _) opts.numberOfJobsToKeep
      (pipelines.map (selects env ns)) (s.cluster.objects .job) := by
  induction pipelines generalizing s with
  | nil =>
    obtain ⟨-, rfl⟩ := he
    rfl
  | cons pipeline pipelines ih =>
    obtain ⟨b, u, hlist, hrest⟩ := exec_bind.mp he
    have hfirst : u = s ∧ ∃ v, Exec (unfailing env)
        (cleanupJobs opts ((s.cluster.objects .job).filter (selects env ns pipeline))) s () v ∧
        Exec (unfailing env) (cleanupPipelines env opts ns pipelines) v a t := by
      unfold getJobsWithLabels at hlist
      cases hsel : env.parseLabels (cleanupLabels pipeline) with
      | none =>
        rw [hsel] at hlist
        obtain ⟨rfl, rfl⟩ := hlist
        obtain ⟨_, v, hclean, hlast⟩ := exec_bind.mp hrest
        refine ⟨rfl, v, ?_, hlast⟩
        have hnone : (u.cluster.objects .job).filter (selects env ns pipeline) = [] := by
          simp [selects, hsel]
        rw [hnone]
        exact hclean
      | some sel =>
        rw [hsel] at hlist
        obtain ⟨c, w, hl, hreturn⟩ := exec_bind.mp hlist
        obtain ⟨rfl, rfl⟩ := exec_listObjects_unfailing hl
        obtain ⟨rfl, rfl⟩ := hreturn
        obtain ⟨_, v, hclean, hlast⟩ := exec_bind.mp hrest
        refine ⟨rfl, v, ?_, hlast⟩
        have hlisted : (u.cluster.objects .job).filter (selects env ns pipeline) =
            u.cluster.listed .job ns sel := by
          refine congrArg (List.filter · _) (funext fun j => ?_)
          simp only [selects, hsel, Option.any_some]
        rw [hlisted]
        exact hclean
    obtain ⟨rfl, v, hclean, hlast⟩ := hfirst
    rw [ih hlast, exec_cleanupJobs_objects hclean]
    rfl

theorem exec_cleanup_objects {ns : String} {a : Option Failure}
    (he : Exec (unfailing env) (cleanup env opts ns) s a t) :
    t.cluster.objects .job = trimAll (deletion _ _) opts.numberOfJobsToKeep
      (opts.resources.map (selects env ns)) (s.cluster.objects .job) := by
  obtain ⟨_, u, hclean, hrest⟩ := exec_bind.mp he
  have hspare : t.cluster.objects .job = u.cluster.objects .job := by
    refine exec_spared ?_ (hrest.mono faulty_of_unfailing)
    refine obeys_bind (obeys_getExistingWorks _ _) ?_
    rintro (e | works)
    · exact obeys_pure _
    · exact obeys_deleteWorks (by simp) _
  rw [hspare]
  exact exec_cleanupPipelines_objects hclean

/-! ### Reaching the cleanup -/

/-- The most recent Job is a completed one of the pipeline that is due. -/
structure LastCompleted (env : Externals) (opts : Opts p) (s : World) (job : Job) : Prop where
  latest : Latest env opts s (some job)
  due : ∃ q, opts.resources[dueIndex opts (some job)]? = some q ∧ jobIsForPipeline q job = true
  finished : isRunning job = false ∧ isFailed job = false
  manual : opts.isManual = false

/-- The Jobs are cleaned up, and the parent keeps its metadata. -/
theorem LastCompleted.exec (h : LastCompleted env opts s job)
    (hstored : s.cluster.find (.parent p) opts.parentObject.key = some opts.parentObject)
    (he : Exec (unfailing env) (reconcileConfigure env opts) s r t) :
    t.cluster.objects .job = trimAll (deletion _ _) opts.numberOfJobsToKeep
        (opts.resources.map (selects env opts.jobNamespace)) (s.cluster.objects .job) ∧
      ∃ obj, t.cluster.find (.parent p) opts.parentObject.key = some obj ∧
        obj.metadata = opts.parentObject.metadata := by
  have hfree (c : Call) (s : World) (r : c.Answer) (t : World) (hc : unfailing env c s r t) :
      faultFree env c s r t := hc.1
  obtain ⟨q, hq, hfor⟩ := h.due
  obtain ⟨current, legacy, ⟨sel, hsel, hc⟩, ⟨sel', hsel', hl⟩, hhead⟩ := h.latest
  obtain ⟨a, v, hlist, hrest⟩ := exec_bind.mp he
  obtain ⟨rfl, rfl⟩ : v = s ∧ a = .ok (current ++ legacy) := by
    obtain ⟨b, w, h₁, hlist⟩ := exec_bind.mp hlist
    obtain ⟨rfl, rfl⟩ := exec_getJobsWithLabels_ok hsel (h₁.mono hfree)
    obtain ⟨c, w', h₂, hlist⟩ := exec_bind.mp hlist
    obtain ⟨rfl, rfl⟩ := exec_getJobsWithLabels_ok hsel' (h₂.mono hfree)
    obtain ⟨rfl, rfl⟩ := hlist
    exact ⟨rfl, by rw [hc, hl]⟩
  simp only [← hhead, Option.map_some, Option.getD_some] at hrest
  obtain ⟨b, w, hcount, hlast⟩ := exec_bind.mp hrest
  obtain ⟨obj, rfl, hmeta⟩ := exec_updateCounters_ok hstored (hcount.mono hfree)
  have hw := exec_spared (k := .job) (obeys_updateCounters (by simp) _ _)
    (hcount.mono faulty_of_unfailing)
  have hindex : min (nextPipelineIndex opts job) (opts.resources.length - 1) =
      dueIndex opts (some job) := rfl
  have hman : (opts.withParent obj).isManual = false := by
    rw [← h.manual]
    simp only [Opts.isManual, Opts.withParent, hmeta]
  have hns : (opts.withParent obj).jobNamespace = opts.jobNamespace := by
    simp only [Opts.jobNamespace, Opts.withParent, hmeta]
  simp only [hindex, hq, reconcilePipeline, hfor, if_true, reconcileCurrentPipeline,
    h.finished.1, h.finished.2, hman, Bool.false_eq_true, if_false] at hlast
  obtain ⟨err, x, hclean, hreturn⟩ := exec_bind.mp hlast
  obtain ⟨rfl, rfl⟩ := hreturn
  rw [hns] at hclean
  have hparent : t.cluster.objects (.parent p) = w.cluster.objects (.parent p) :=
    exec_spared (obeys_cleanup (by simp) (by simp) _) (hclean.mono faulty_of_unfailing)
  refine ⟨by rw [exec_cleanup_objects hclean, hw]; rfl, obj, ?_, hmeta⟩
  rw [Cluster.find, hparent]
  exact (exec_updateCounters_stored hstored (hcount.mono faulty_of_unfailing)).2

/-! ### What is to be kept -/

/-- Which Jobs are of the configure workflow of the parent, and for which pipeline. -/
structure Belonging where
  mine : Job → Bool
  pipelineOf : Job → String
  mine_markDeleting : ∀ j, mine j.markDeleting = mine j
  pipelineOf_markDeleting : ∀ j, pipelineOf j.markDeleting = pipelineOf j

def Belonging.isOf (b : Belonging) (q : PipelineJobResources) (j : Job) : Bool :=
  b.mine j && b.pipelineOf j == q.name

/-- The Jobs meant and the Jobs found for each pipeline. -/
def groups (env : Externals) (opts : Opts p) (b : Belonging) : List (Selection Job) :=
  opts.resources.map fun q => ⟨selects env opts.jobNamespace q, b.isOf q⟩

/-- Another call on the stored parent. The generated Jobs have unused names. -/
structure Repeats (opts opts' : Opts p) (t u : World) : Prop extends Again opts opts' t u where
  keep : opts'.numberOfJobsToKeep = opts.numberOfJobsToKeep
  fresh : ∀ q ∈ opts'.resources, ∀ j ∈ u.cluster.objects .job, j.key ≠ q.job.key

/-- A Job of others stays, a Job of a current pipeline stays exactly if it is one
of the newest of this pipeline, and another call deletes nothing more. A Job
that is being deleted already is not judged. -/
structure Retains (env : Externals) (opts : Opts p) (b : Belonging) (s t : World) : Prop where
  frame : ∀ j ∈ s.cluster.objects .job, j.metadata.deleting = false → b.mine j = false →
    j ∈ t.cluster.objects .job
  newest : ∀ q ∈ opts.resources, ∀ j ∈ s.cluster.objects .job, j.metadata.deleting = false →
    b.isOf q j = true → (j ∈ t.cluster.objects .job ↔
      newer (deletion _ _) (b.isOf q) (s.cluster.objects .job) j < opts.numberOfJobsToKeep)
  settled : ∀ (opts' : Opts p) u r' t', Repeats opts opts' t u →
    Exec (unfailing env) (reconcileConfigure env opts') u r' t' →
    ∀ j ∈ u.cluster.objects .job, ∃ j' ∈ t'.cluster.objects .job, j'.key = j.key ∧
      j'.metadata.deleting = j.metadata.deleting

theorem mem_remove_iff {jobs : List Job} {d : Job → Bool} {j : Job} (hj : j ∈ jobs)
    (hlive : j.metadata.deleting = false) :
    j ∈ remove (deletion _ _) d jobs ↔ d j = false := by
  constructor
  · intro hmem
    obtain ⟨x, hx, hxj⟩ := List.mem_filterMap.mp hmem
    by_contra hd
    split_ifs at hxj with hdx
    · have heq : j = x.markDeleting := Object.settle_eq_some hxj
      rw [heq] at hlive
      cases hlive
    · cases hxj
      exact hd (by simpa using hdx)
  · exact mem_remove_of_not hj

/-! ### Repeating the call -/

/-- Every Job is still there, and none has been marked. -/
def Persist (s t : World) : Prop :=
  ∀ j ∈ s.cluster.objects .job, ∃ j' ∈ t.cluster.objects .job, j'.key = j.key ∧
    j'.metadata.deleting = j.metadata.deleting

theorem Persist.of_eq (h : t.cluster.objects .job = s.cluster.objects .job) : Persist s t :=
  fun j hj => ⟨j, h ▸ hj, rfl, rfl⟩

theorem MaySuspend.persist (h : MaySuspend job s t) : Persist s t := by
  rcases h with h | h
  · exact .of_eq h
  · intro j hj
    refine ⟨_, h ▸ List.mem_map_of_mem hj, ?_⟩
    split
    · exact ⟨rfl, rfl⟩
    · exact ⟨rfl, rfl⟩

theorem Added.persist (h : Added job s t) : Persist s t := by
  rcases h with h | ⟨_, _, _, _, h⟩
  · exact .of_eq h
  · exact fun j hj => ⟨j, h ▸ List.mem_append_left _ hj, rfl, rfl⟩

theorem selects_again (h : Again opts opts' t u)
    (hmeta : opts'.parentObject.metadata = opts.parentObject.metadata) :
    opts'.resources.map (selects env opts'.jobNamespace) =
      opts.resources.map (selects env opts.jobNamespace) := by
  have hns : opts'.jobNamespace = opts.jobNamespace := by simp only [Opts.jobNamespace, hmeta]
  have hpair (ns : String) (l : List PipelineJobResources) : l.map (selects env ns) =
      (l.map fun q => (q.name, q.job.metadata.labels)).map fun x => selects env ns
        ⟨x.1, "", ⟨{ name := "", labels := x.2 }, ⟨false, "", none, false, "", ""⟩, {}⟩,
          ⟨⟨{ name := "" }, (), ()⟩, none, [], [], [], []⟩, .promise, .configure⟩ := by
    rw [List.map_map]
    rfl
  rw [hns, hpair, h.resources, ← hpair]

/-- What trimming has left stays when the same selections are trimmed again. -/
theorem mem_trimAll_again {n : ℕ} {sels : List (Job → Bool)}
    (hsels : ∀ sel ∈ sels, (deletion _ _).Ignores sel) {l : List Job} {j : Job}
    (hj : j ∈ trimAll (deletion _ _) n sels l) :
    j ∈ trimAll (deletion _ _) n sels (trimAll (deletion _ _) n sels l) := by
  rw [trimAll_eq_remove sels (trimAll _ n sels l)]
  have hmem := hj
  rw [trimAll_eq_remove] at hmem
  obtain ⟨x, hx, hxj⟩ := List.mem_filterMap.mp hmem
  by_cases hd : doomed (deletion _ _) n sels l x = true
  · -- marked already
    rw [if_pos hd] at hxj
    refine List.mem_filterMap.mpr ⟨j, hj, ?_⟩
    rw [(deletion _ _).left_left x j hxj, ite_self]
  · rw [if_neg hd] at hxj
    cases hxj
    exact mem_remove_of_not hj (doomed_of_shrinks hsels (fun _ _ => le_rfl) (by simpa using hd))

/-- Whatever the next call does, it deletes no Job that the cleanup has left. -/
theorem persist_again {v : World} (hjobs : t.cluster.objects .job = trimAll (deletion _ _)
      opts.numberOfJobsToKeep (opts.resources.map (selects env opts.jobNamespace))
      (s.cluster.objects .job))
    (hmeta : opts'.parentObject.metadata = opts.parentObject.metadata)
    (hagain : Repeats opts opts' t u)
    (he : Exec (unfailing env) (reconcileConfigure env opts') u r v) : Persist u v := by
  have hstored : u.cluster.find (.parent p) opts'.parentObject.key = some opts'.parentObject := by
    have hkey : opts'.parentObject.key = opts.parentObject.key := by
      simp only [Object.key, hmeta]
    rw [hkey]
    exact hagain.stored
  cases exec_reconcileConfigure_cases faulty_of_unfailing hstored hagain.fresh he with
  | idle jobs => exact .of_eq jobs
  | suspends job _ _ _ jobs => exact jobs.persist
  | creates _ _ _ _ _ _ jobs => exact jobs.persist
  | cleans _ _ _ _ _ _ _ obj hobj w hspared hclean =>
    have hafter := exec_cleanup_objects hclean
    have hselects : opts'.resources.map (selects env opts'.jobNamespace) =
        opts.resources.map (selects env opts.jobNamespace) := selects_again hagain.toAgain hmeta
    have hkeep : (opts'.withParent obj).numberOfJobsToKeep = opts.numberOfJobsToKeep := hagain.keep
    have hres : (opts'.withParent obj).resources = opts'.resources := rfl
    rw [hres, hkeep, hselects, hspared .job (by simp), hagain.jobs, hjobs] at hafter
    intro j hj
    rw [hagain.jobs, hjobs] at hj
    refine ⟨j, ?_, rfl, rfl⟩
    rw [hafter]
    refine mem_trimAll_again (fun sel hsel => ?_) hj
    obtain ⟨q, -, rfl⟩ := List.mem_map.mp hsel
    exact ignores_selects q _

/-! ### The Jobs that are kept -/

section Kept

variable (h : LastCompleted env opts s job)
  (hstored : s.cluster.find (.parent p) opts.parentObject.key = some opts.parentObject)
  (he : Exec (unfailing env) (reconcileConfigure env opts) s r t) (b : Belonging)

include h hstored he

theorem retains_iff_exact : Retains env opts b s t ↔
    Exact (deletion _ _) opts.numberOfJobsToKeep (fun j => !j.metadata.deleting) b.mine
      (groups env opts b) (s.cluster.objects .job) := by
  obtain ⟨hjobs, obj, hfind, hmeta⟩ := h.exec hstored he
  have hsels : (groups env opts b).map Selection.sel =
      opts.resources.map (selects env opts.jobNamespace) := by
    simp [groups, Function.comp_def]
  have hmem (j : Job) (hj : j ∈ s.cluster.objects .job) (hlive : j.metadata.deleting = false) :
      j ∈ t.cluster.objects .job ↔ doomed (deletion _ _) opts.numberOfJobsToKeep
        ((groups env opts b).map Selection.sel) (s.cluster.objects .job) j = false := by
    rw [hjobs, trimAll_eq_remove, hsels]
    exact mem_remove_iff hj hlive
  have hbeyond (q : PipelineJobResources) (j : Job) (hof : b.isOf q j = true) :
      beyond (deletion _ _) opts.numberOfJobsToKeep (b.isOf q) (s.cluster.objects .job) j = false ↔
        newer (deletion _ _) (b.isOf q) (s.cluster.objects .job) j < opts.numberOfJobsToKeep := by
    rw [← Bool.not_eq_true, beyond_iff, not_and]
    constructor
    · intro hnot
      exact Nat.lt_of_not_le (hnot hof)
    · intro hlt _
      omega
  constructor
  · intro hret j hj hlive
    have hlive : j.metadata.deleting = false := by simpa using hlive
    refine ⟨fun hmine => (hmem j hj hlive).mp (hret.frame j hj hlive hmine), fun g hg hof => ?_⟩
    obtain ⟨q, hq, rfl⟩ := List.mem_map.mp hg
    rw [Bool.eq_iff_iff, ← not_iff_not, Bool.not_eq_true, Bool.not_eq_true, ← hmem j hj hlive,
      hbeyond q j hof]
    exact hret.newest q hq j hj hlive hof
  · intro hexact
    refine ⟨fun j hj hlive hmine => ?_, fun q hq j hj hlive hof => ?_, fun opts' u r' t' hr he' => ?_⟩
    · exact (hmem j hj hlive).mpr ((hexact j hj (by simp [hlive])).1 hmine)
    · rw [hmem j hj hlive, (hexact j hj (by simp [hlive])).2 _ (List.mem_map_of_mem hq) hof]
      exact hbeyond q j hof
    · have hparent : opts'.parentObject = obj := Option.some.inj (hr.parent.symm.trans hfind)
      exact persist_again hjobs (hparent ▸ hmeta) hr he'

end Kept

/-- A Job of the workflow is found for a pipeline exactly if it is one of the pipeline. -/
def Found (env : Externals) (opts : Opts p) (b : Belonging) (s : World) : Prop :=
  ∀ q ∈ opts.resources, ∀ j ∈ s.cluster.objects .job, b.mine j = true →
    (selects env opts.jobNamespace q j = true ↔ b.pipelineOf j = q.name)

theorem Found.labelled {b : Belonging} (h : Found env opts b s) :
    Labelled (deletion _ _) b.mine (groups env opts b) (s.cluster.objects .job) where
  ignores := by
    have hmine : (deletion _ _).Ignores b.mine := by
      intro j j' hj
      rw [Object.settle_eq_some hj]
      exact b.mine_markDeleting j
    refine ⟨hmine, fun g hg => ?_⟩
    obtain ⟨q, -, rfl⟩ := List.mem_map.mp hg
    refine ⟨ignores_selects q _, fun j j' hj => ?_⟩
    rw [Object.settle_eq_some hj]
    simp only [Belonging.isOf, b.mine_markDeleting, b.pipelineOf_markDeleting]
  mine_of_own := by
    intro g hg j _ hown
    obtain ⟨q, -, rfl⟩ := List.mem_map.mp hg
    exact (Bool.and_eq_true_iff.mp hown).1
  sel_of_own := by
    intro g hg j hj hown
    obtain ⟨q, hq, rfl⟩ := List.mem_map.mp hg
    obtain ⟨hmine, hname⟩ := Bool.and_eq_true_iff.mp hown
    exact (h q hq j hj hmine).mpr (by simpa using hname)
  own_of_sel := by
    intro g hg j hj hmine hsel
    obtain ⟨q, hq, rfl⟩ := List.mem_map.mp hg
    exact Bool.and_eq_true_iff.mpr ⟨hmine, by simpa using (h q hq j hj hmine).mp hsel⟩
  apart := by
    intro g hg g' hg'
    obtain ⟨q, -, rfl⟩ := List.mem_map.mp hg
    obtain ⟨q', -, rfl⟩ := List.mem_map.mp hg'
    by_cases hname : q.name = q'.name
    · exact Or.inl (funext fun j => by simp only [Belonging.isOf, hname])
    · refine Or.inr fun j _ hown => ?_
      obtain ⟨-, hq⟩ := Bool.and_eq_true_iff.mp hown
      have hq : b.pipelineOf j = q.name := by simpa using hq
      simp [Belonging.isOf, hq, hname]

/-! ### A Promise that keeps one Job -/

/-- Jobs belong to what their labels say. -/
def byLabels (labels : Labels) : Belonging where
  mine j := labels.entries.all fun e => j.metadata.labels.lookup e.1 == some e.2
  pipelineOf j := j.metadata.labels.value Label.pipelineName
  mine_markDeleting _ := rfl
  pipelineOf_markDeleting _ := rfl

/-- The labels of the Jobs of the configure workflow of the Promise. -/
def promiseJobs : Labels :=
  Labels.ofList [(Label.workflowType, WorkflowType.promise.text),
    (Label.workflowAction, Action.configure.text), (Label.promiseName, "redis")]

/-- The labels of the Jobs of a request for the Promise. -/
def requestJobs : Labels :=
  Labels.ofList [(Label.workflowType, WorkflowType.resource.text),
    (Label.workflowAction, Action.configure.text), (Label.promiseName, "redis"),
    (Label.resourceName, "cache")]

def completedJob (name : String) (labels : Labels) : Job where
  metadata := { name, ns := systemNamespace, labels := labels.insert Label.pipelineName "install" }
  spec := ⟨false, "install", none, true, "", ""⟩
  status := { succeeded := 1, conditions := [(.complete, .conditionTrue)] }

def keepOne : Opts .promise where
  parentObject := samplePromise []
  resources := [⟨"install", "", completedJob "new" promiseJobs,
    ⟨⟨{ name := "install" }, (), ()⟩, none, [], [], [], []⟩, .promise, .configure⟩]
  workflowType := .promise
  numberOfJobsToKeep := 1

/-- Store the Promise, an older Job with the given labels, and a Job of the Promise. -/
def storeCompleted (older : Labels) : Prog Unit := do
  let _ ← createObject (.parent .promise) (samplePromise [])
  let _ ← createObject .job (completedJob "older" older)
  let _ ← createObject .job (completedJob "newer" promiseJobs)
  return

/-- Reconcile behind the completed Job, and check the Jobs before and after. -/
def cleansUp (older : Labels) (P : World → World → Bool) : Bool :=
  (eval (serveCall plainExternals) (storeCompleted older) emptyWorld).any fun out =>
    decide (out.2.cluster.find (.parent .promise) keepOne.parentObject.key =
      some keepOne.parentObject) &&
    (latestJob plainExternals keepOne out.2).any (fun job =>
      !isRunning job && !isFailed job &&
        (keepOne.resources[dueIndex keepOne (some job)]?).any fun q => jobIsForPipeline q job) &&
    (eval (serveAnswered plainExternals) (reconcileConfigure plainExternals keepOne) out.2).any
      fun out' => P out.2 out'.2

theorem exists_cleansUp {older : Labels} {P : World → World → Bool}
    (heval : cleansUp older P = true) : ∃ (env : Externals) (opts : Opts .promise) (job : Job)
      (r : Result .promise) (s t : World), env = plainExternals ∧ opts = keepOne ∧
      LastCompleted env opts s job ∧
      s.cluster.find (.parent .promise) opts.parentObject.key = some opts.parentObject ∧
      Exec (unfailing env) (reconcileConfigure env opts) s r t ∧ P s t = true := by
  unfold cleansUp at heval
  obtain ⟨opts, hopts⟩ : ∃ opts, keepOne = opts := ⟨_, rfl⟩
  obtain ⟨env, henv⟩ : ∃ env, plainExternals = env := ⟨_, rfl⟩
  have hman : opts.isManual = false := by
    rw [← hopts]
    exact (by decide : isManualReconciliation (samplePromise []).metadata.labels = false)
  rw [hopts, henv] at heval
  obtain ⟨_, s, -, hP⟩ := exists_exec_of_eval (h := faulty env) faulty_of_serveCall heval
  obtain ⟨hP, hexec⟩ := Bool.and_eq_true_iff.mp hP
  obtain ⟨hstored, hjob⟩ := Bool.and_eq_true_iff.mp hP
  obtain ⟨job, hlatest, hjob⟩ := (Option.any_eq_true _ _).mp hjob
  obtain ⟨hjob, hdue⟩ := Bool.and_eq_true_iff.mp hjob
  obtain ⟨hrun, hfailed⟩ := Bool.and_eq_true_iff.mp hjob
  obtain ⟨q, hq, hfor⟩ := (Option.any_eq_true _ _).mp hdue
  obtain ⟨r, t, he, hP⟩ :=
    exists_exec_of_eval (h := unfailing env) unfailing_of_serveAnswered hexec
  exact ⟨env, opts, job, r, s, t, henv.symm, hopts.symm, ⟨latest_of_latestJob hlatest, ⟨q, hq, hfor⟩,
    ⟨by simpa using hrun, by simpa using hfailed⟩, hman⟩, of_decide_eq_true hstored, he, hP⟩

/-- The Job of a request in the system namespace is deleted by the Promise. -/
theorem request_job_deleted :
    ∃ (env : Externals) (opts : Opts .promise) (job : Job) (r : Result .promise) (s t : World),
      0 < opts.numberOfJobsToKeep ∧ LastCompleted env opts s job ∧
      s.cluster.find (.parent .promise) opts.parentObject.key = some opts.parentObject ∧
      Exec (unfailing env) (reconcileConfigure env opts) s r t ∧
      ¬ Retains env opts (byLabels promiseJobs) s t := by
  have heval : cleansUp requestJobs (fun s t => (s.cluster.objects .job).any fun j =>
      !j.metadata.deleting && !(byLabels promiseJobs).mine j &&
        !(t.cluster.objects .job).contains j) = true := by
    decide +kernel
  obtain ⟨env, opts, job, r, s, t, -, hopts, h, hstored, he, hP⟩ := exists_cleansUp heval
  refine ⟨env, opts, job, r, s, t, by rw [hopts]; decide, h, hstored, he, fun hret => ?_⟩
  obtain ⟨j, hj, hP⟩ := List.any_eq_true.mp hP
  obtain ⟨hP, hgone⟩ := Bool.and_eq_true_iff.mp hP
  obtain ⟨hlive, hmine⟩ := Bool.and_eq_true_iff.mp hP
  have hstays := hret.frame j hj (by simpa using hlive) (by simpa using hmine)
  simp [hstays] at hgone

/-- The retention of Jobs. What is kept is right exactly if the Jobs beyond the
newest found ones are those beyond the newest meant ones. Where the labels tell
the Jobs of the workflow apart, this says that for each pipeline no more Jobs
are found than may be kept, or only Jobs of this pipeline. -/
theorem retains_iff (h : LastCompleted env opts s job)
    (hstored : s.cluster.find (.parent p) opts.parentObject.key = some opts.parentObject)
    (he : Exec (unfailing env) (reconcileConfigure env opts) s r t) (b : Belonging) :
    (Retains env opts b s t ↔
      Exact (deletion _ _) opts.numberOfJobsToKeep (fun j => !j.metadata.deleting) b.mine
        (groups env opts b) (s.cluster.objects .job)) ∧
    (Found env opts b s → (∀ j ∈ s.cluster.objects .job, j.metadata.deleting = false) →
      (Retains env opts b s t ↔ ∀ q ∈ opts.resources,
        (s.cluster.objects .job).countP (selects env opts.jobNamespace q) ≤
            opts.numberOfJobsToKeep ∨
          ∀ j ∈ s.cluster.objects .job, selects env opts.jobNamespace q j = true →
            b.isOf q j = true)) := by
  have hiff := retains_iff_exact h hstored he b
  refine ⟨hiff, fun hfound hlive => hiff.trans ?_⟩
  rw [exact_iff hfound.labelled (by simpa using hlive) (s.cluster.created_nodup .job)]
  simp [groups]

/-- Two Jobs of the one pipeline: the older one goes. -/
theorem retains_iff_sample :
    ∃ (env : Externals) (opts : Opts .promise) (job : Job) (r : Result .promise) (s t : World),
      LastCompleted env opts s job ∧
      s.cluster.find (.parent .promise) opts.parentObject.key = some opts.parentObject ∧
      Exec (unfailing env) (reconcileConfigure env opts) s r t ∧
      (t.cluster.objects .job).length < (s.cluster.objects .job).length ∧
      Retains env opts (byLabels promiseJobs) s t := by
  have heval : cleansUp promiseJobs (fun s t =>
      decide ((t.cluster.objects .job).length < (s.cluster.objects .job).length) &&
      (s.cluster.objects .job).all fun j => !j.metadata.deleting &&
        keepOne.resources.all fun q => (byLabels promiseJobs).isOf q j &&
          selects plainExternals keepOne.jobNamespace q j) = true := by
    decide +kernel
  obtain ⟨env, opts, job, r, s, t, henv, hopts, h, hstored, he, hP⟩ := exists_cleansUp heval
  rw [← henv, ← hopts] at hP
  obtain ⟨hless, hall⟩ := Bool.and_eq_true_iff.mp hP
  have hjob (j : Job) (hj : j ∈ s.cluster.objects .job) := Bool.and_eq_true_iff.mp
    (List.all_eq_true.mp hall j hj)
  have hlive (j : Job) (hj : j ∈ s.cluster.objects .job) : j.metadata.deleting = false := by
    simpa using (hjob j hj).1
  have hboth (q : PipelineJobResources) (hq : q ∈ opts.resources) (j : Job)
      (hj : j ∈ s.cluster.objects .job) := Bool.and_eq_true_iff.mp
    (List.all_eq_true.mp (hjob j hj).2 q hq)
  refine ⟨env, opts, job, r, s, t, h, hstored, he, of_decide_eq_true hless,
    ((retains_iff h hstored he (byLabels promiseJobs)).2 (fun q hq j hj _ => ?_) hlive).mpr ?_⟩
  · refine iff_of_true (hboth q hq j hj).2 ?_
    simpa [Belonging.isOf] using (Bool.and_eq_true_iff.mp (hboth q hq j hj).1).2
  · exact fun q hq => Or.inr fun j hj _ => (hboth q hq j hj).1

end Kratix.Workflow
