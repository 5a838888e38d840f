import Kratix.Workflow.Footprint

/-!
# What a configure reconcile does to the Jobs

`reconcileConfigure` is executed symbolically once, for every outcome of its
calls. The result, `ConfigureEffect`, lists the four things that can happen to
the Jobs of the cluster: nothing, the most recent Job is suspended, one Job is
created, or old Jobs are cleaned up. Everything about runs is derived from it.
-/

namespace Kratix.Workflow

open Apiserver Effect

variable {env : Externals} {p : ParentKind} {opts : Opts p} {s t : World}

/-! ### Listing -/

/-- The Jobs that a list call for these labels returns. -/
def Selected (env : Externals) (labels : Labels) (ns : String) (s : World) (jobs : List Job) : Prop :=
  ∃ sel, env.parseLabels labels = some sel ∧ jobs = s.cluster.listed .job ns sel

theorem exec_getJobsWithLabels {labels : Labels} {ns : String} {r : Except Failure (List Job)}
    (he : Exec (faulty env) (getJobsWithLabels env labels ns) s r t) :
    t = s ∧ ∀ jobs, r = .ok jobs → Selected env labels ns s jobs := by
  unfold getJobsWithLabels at he
  split at he
  · obtain ⟨rfl, rfl⟩ := he
    exact ⟨rfl, fun jobs h => by cases h⟩
  · next sel hsel =>
    obtain ⟨a, u, hlist, he⟩ := exec_bind.mp he
    obtain ⟨rfl, hl⟩ := exec_listObjects hlist
    cases a with
    | error e =>
      obtain ⟨rfl, rfl⟩ := he
      exact ⟨rfl, fun jobs h => by cases h⟩
    | ok l =>
      obtain ⟨rfl, rfl⟩ := he
      refine ⟨rfl, ?_⟩
      rintro jobs h
      cases h
      exact ⟨sel, hsel, hl l rfl⟩

theorem exec_getAllJobs {r : Except Failure (List Job)}
    (he : Exec (faulty env) (getAllJobs env opts) s r t) :
    t = s ∧ ∀ jobs, r = .ok jobs → ∃ current legacy,
      Selected env (labelsForJobs opts) opts.jobNamespace s current ∧
      Selected env (legacyLabelsForJobs opts) opts.jobNamespace s legacy ∧
      jobs = current ++ legacy := by
  obtain ⟨a, u, h₁, he⟩ := exec_bind.mp he
  obtain ⟨rfl, hl₁⟩ := exec_getJobsWithLabels h₁
  cases a with
  | error e =>
    obtain ⟨rfl, rfl⟩ := he
    exact ⟨rfl, fun jobs h => by cases h⟩
  | ok current =>
    obtain ⟨b, u, h₂, he⟩ := exec_bind.mp he
    obtain ⟨rfl, hl₂⟩ := exec_getJobsWithLabels h₂
    cases b with
    | error e =>
      obtain ⟨rfl, rfl⟩ := he
      exact ⟨rfl, fun jobs h => by cases h⟩
    | ok legacy =>
      obtain ⟨rfl, rfl⟩ := he
      refine ⟨rfl, ?_⟩
      rintro jobs h
      cases h
      exact ⟨current, legacy, hl₁ _ rfl, hl₂ _ rfl, rfl⟩

/-- The kinds of the objects that the pipelines of a workflow share. -/
def isShared : Kind → Bool
  | .role | .roleBinding | .clusterRole | .clusterRoleBinding | .serviceAccount | .configMap => true
  | _ => false

theorem isShared_of_mem_getObjects {r : PipelineJobResources} {o : AnyObject}
    (h : o ∈ r.getObjects) : isShared o.1 = true := by
  simp only [PipelineJobResources.getObjects, List.mem_append, List.mem_singleton,
    List.mem_map] at h
  rcases h with ((((rfl | ⟨x, -, rfl⟩) | ⟨x, -, rfl⟩) | ⟨x, -, rfl⟩) | ⟨x, -, rfl⟩) | ⟨x, -, rfl⟩ <;>
    rfl

theorem exec_getStale {k : Kind} {same : scheme.Obj k → scheme.Obj k → Bool}
    {desired : List (scheme.Obj k)} {selector : Selector} {r : Except Failure (List AnyObject)}
    (he : Exec (faulty env) (getStale k same desired selector) s r t) :
    ∀ objs, r = .ok objs → ∀ o ∈ objs, o.1 = k := by
  obtain ⟨a, u, -, he⟩ := exec_bind.mp he
  rcases a with (_ | _ | _ | _ | _) | l <;> obtain ⟨rfl, -⟩ := he
  case error.notFound =>
    rintro objs h o ho
    cases h
    cases ho
  case ok =>
    rintro objs h o ho
    cases h
    obtain ⟨x, -, rfl⟩ := List.mem_map.mp ho
    rfl
  all_goals
    intro objs h
    cases h

theorem exec_getObjectsToDelete {pipeline : PipelineJobResources}
    {r : Except Failure (List AnyObject)}
    (he : Exec (faulty env) (getObjectsToDelete pipeline) s r t) :
    ∀ objs, r = .ok objs → ∀ o ∈ objs, isShared o.1 = true := by
  obtain ⟨a, u, h₁, he⟩ := exec_bind.mp he
  cases a with
  | error e => obtain ⟨rfl, -⟩ := he; intro objs h; cases h
  | ok roles =>
  obtain ⟨b, u, h₂, he⟩ := exec_bind.mp he
  cases b with
  | error e => obtain ⟨rfl, -⟩ := he; intro objs h; cases h
  | ok clusterRoles =>
  obtain ⟨c, u, h₃, he⟩ := exec_bind.mp he
  cases c with
  | error e => obtain ⟨rfl, -⟩ := he; intro objs h; cases h
  | ok roleBindings =>
  obtain ⟨d, u, h₄, he⟩ := exec_bind.mp he
  cases d with
  | error e => obtain ⟨rfl, -⟩ := he; intro objs h; cases h
  | ok clusterRoleBindings =>
  obtain ⟨rfl, -⟩ := he
  rintro objs h o ho
  cases h
  simp only [List.mem_append] at ho
  rcases ho with ((ho | ho) | ho) | ho
  · rw [exec_getStale h₁ _ rfl o ho]; rfl
  · rw [exec_getStale h₂ _ rfl o ho]; rfl
  · rw [exec_getStale h₃ _ rfl o ho]; rfl
  · rw [exec_getStale h₄ _ rfl o ho]; rfl

/-! ### Creating a Job -/

/-- The Jobs after an attempt to create one: unchanged, or with the new Job,
created in the meantime. -/
def Added (job : Job) (s t : World) : Prop :=
  t.cluster.objects .job = s.cluster.objects .job ∨
    ∃ time, s.cluster.clock ≤ time ∧ time < t.cluster.clock ∧ job.metadata.ns ≠ "" ∧
      t.cluster.objects .job = s.cluster.objects .job ++ [job.stampedAt time]

theorem exec_createJob {job : Job} {r : Except ApiError Job}
    (he : Exec (faulty env) (createObject .job job) s r t) : Added job s t := by
  rcases faulty_cluster (exec_perform.mp he) with h | ⟨c, hc, h⟩
  · exact Or.inl (by rw [h])
  · cases hc
    rcases serve_create (S := scheme) Kind.job job s.cluster with hs | ⟨hobj, hclock, hns⟩
    · exact Or.inl (by rw [h, hs])
    · exact Or.inr ⟨s.cluster.clock, le_rfl, by rw [h, hclock]; omega, hns rfl,
        by rw [h, hobj]; rfl⟩

/-- A Job with an unused name is created or not; no other Job is updated instead. -/
theorem exec_applyJob {job : Job} (hfresh : ∀ x ∈ s.cluster.objects .job, x.key ≠ job.key) {r : Unit}
    (he : Exec (faulty env) (applyResource ⟨.job, job⟩) s r t) : Added job s t := by
  obtain ⟨a, u, hcreate, he⟩ := exec_bind.mp he
  have hadd : Added job s u := exec_createJob hcreate
  rcases a with (_ | _ | _ | _ | _) | x
  case error.alreadyExists =>
    exfalso
    obtain ⟨c, hc, -⟩ := exec_perform.mp hcreate
    rcases hc with ⟨hr, -⟩ | ⟨e, hfault, he', -⟩
    · obtain ⟨x, hx, hk⟩ := exists_key_of_alreadyExists hr.symm
      exact hfresh x hx hk
    · cases he'
      cases hfault
  all_goals
    obtain ⟨-, rfl⟩ := he
    exact hadd

theorem exec_applyResources_append {l₁ l₂ : List AnyObject} {r : Unit}
    (he : Exec (faulty env) (applyResources (l₁ ++ l₂)) s r t) :
    ∃ u, Exec (faulty env) (applyResources l₁) s () u ∧
      Exec (faulty env) (applyResources l₂) u () t := by
  induction l₁ generalizing s with
  | nil => exact ⟨s, ⟨rfl, rfl⟩, he⟩
  | cons o l₁ ih =>
    obtain ⟨_, u, ho, he⟩ := exec_bind.mp he
    obtain ⟨v, hv, ht⟩ := ih he
    exact ⟨v, exec_bind.mpr ⟨_, u, ho, hv⟩, ht⟩

theorem Added.of_eq {job : Job} {u : World} (h : Added job u t)
    (hjobs : u.cluster.objects .job = s.cluster.objects .job)
    (hclock : s.cluster.clock ≤ u.cluster.clock) : Added job s t := by
  unfold Added at h ⊢
  rw [hjobs] at h
  rcases h with h | ⟨time, h₁, h₂, h₃⟩
  · exact Or.inl h
  · exact Or.inr ⟨time, hclock.trans h₁, h₂, h₃⟩

theorem exec_createConfigurePipeline {i : ℕ} {pipeline : PipelineJobResources} {r : Result p}
    (hfresh : ∀ x ∈ s.cluster.objects .job, x.key ≠ pipeline.job.key)
    (he : Exec (faulty env) (createConfigurePipeline opts i pipeline) s r t) :
    (r.abort = true ∨ r.err ≠ none) ∧ Added pipeline.job s t := by
  have hne : Kind.parent p ≠ .job := by simp
  obtain ⟨updated, u, h₁, he⟩ := exec_bind.mp he
  have hu := exec_spared (obeys_setConfigureWorkflowCompletedConditionStatus hne _) h₁
  have hcu := exec_clock h₁
  split at he
  · next hstop =>
    obtain ⟨rfl, rfl⟩ := he
    refine ⟨?_, Or.inl hu⟩
    simp only [Bool.or_eq_true, Option.isSome_iff_ne_none] at hstop
    exact hstop.symm
  · obtain ⟨stale, v, h₂, he⟩ := exec_bind.mp he
    have hv := (exec_spared (obeys_getObjectsToDelete pipeline) h₂).trans hu
    have hcv := hcu.trans (exec_clock h₂)
    cases stale with
    | error e =>
      obtain ⟨rfl, rfl⟩ := he
      exact ⟨Or.inr (by simp), Or.inl hv⟩
    | ok stale =>
      obtain ⟨obj, w, h₃, he⟩ := exec_bind.mp he
      have hw := (exec_spared (obeys_consumeManualReconciliation fun _ => hne) h₃).trans hv
      have hcw := hcv.trans (exec_clock h₃)
      cases obj with
      | error e =>
        obtain ⟨rfl, rfl⟩ := he
        exact ⟨Or.inr (by simp), Or.inl hw⟩
      | ok obj =>
        obtain ⟨_, x, h₄, he⟩ := exec_bind.mp he
        have hshared : ∀ o ∈ stale, o.1 ≠ .job := by
          intro o ho hk
          have := exec_getObjectsToDelete h₂ _ rfl o ho
          rw [hk] at this
          cases this
        have hx := (exec_spared (obeys_deleteResources hshared) h₄).trans hw
        have hcx := hcw.trans (exec_clock h₄)
        obtain ⟨_, y, h₅, he⟩ := exec_bind.mp he
        obtain ⟨rfl, rfl⟩ := he
        refine ⟨Or.inl rfl, ?_⟩
        obtain ⟨z, h₆, h₇⟩ := exec_applyResources_append h₅
        have hobjs : ∀ o ∈ pipeline.getObjects, o.1 ≠ .job := by
          intro o ho hk
          have := isShared_of_mem_getObjects ho
          rw [hk] at this
          cases this
        have hz := (exec_spared (obeys_applyResources hobjs) h₆).trans hx
        have hcz := hcx.trans (exec_clock h₆)
        obtain ⟨_, z', h₈, -, rfl⟩ := exec_bind.mp h₇
        exact (exec_applyJob (by rw [hz]; exact hfresh) h₈).of_eq hz hcz

/-! ### Suspending a Job -/

/-- The Jobs after an attempt to suspend one of them. -/
def MaySuspend (job : Job) (s t : World) : Prop :=
  t.cluster.objects .job = s.cluster.objects .job ∨
    t.cluster.objects .job = (s.cluster.objects .job).map fun j =>
      if j.key = job.key then { j with spec := { j.spec with suspend := true } } else j

theorem exec_suspendJob {job : Job} {r : Except ApiError Unit}
    (he : Exec (faulty env) (suspendJob job) s r t) : MaySuspend job s t := by
  obtain ⟨a, u, hpatch, he⟩ := exec_bind.mp he
  have hut : t = u := by
    cases a <;> exact he.2
  subst hut
  rcases faulty_cluster (exec_perform.mp hpatch) with h | ⟨c, hc, h⟩
  · exact Or.inl (by rw [h])
  · cases hc
    simp only [serve] at h
    split at h
    · exact Or.inl (by rw [h])
    · refine Or.inr ?_
      rw [h]
      simp only [Cluster.rewrite, Function.update_self]
      rw [← List.filterMap_eq_map]
      refine congrArg (fun f => List.filterMap f _) (funext fun j => ?_)
      change (if j.key = job.key then _ else some j) = some (if j.key = job.key then _ else j)
      split_ifs <;> rfl

/-! ### Cleaning up -/

/-- Jobs have gone or are marked for deletion, but only `doomed` ones. -/
structure Trimmed (doomed : Job → Prop) (s t : World) : Prop where
  descends : ∀ j' ∈ t.cluster.objects .job, ∃ j ∈ s.cluster.objects .job, j' = j ∨ j' = j.markDeleting
  survives : ∀ j ∈ s.cluster.objects .job, ¬ doomed j → j ∈ t.cluster.objects .job

theorem Trimmed.of_eq {doomed : Job → Prop}
    (h : t.cluster.objects .job = s.cluster.objects .job) : Trimmed doomed s t :=
  ⟨fun j hj => ⟨j, h ▸ hj, Or.inl rfl⟩, fun _ hj _ => h ▸ hj⟩

theorem Trimmed.trans {doomed : Job → Prop} {u : World} (h₁ : Trimmed doomed s u)
    (h₂ : Trimmed doomed u t) : Trimmed doomed s t where
  descends := by
    intro j' hj'
    obtain ⟨j, hj, hjj'⟩ := h₂.descends j' hj'
    obtain ⟨i, hi, hij⟩ := h₁.descends j hj
    refine ⟨i, hi, ?_⟩
    rcases hij with rfl | rfl
    · exact hjj'
    · exact Or.inr (by rcases hjj' with rfl | rfl <;> rfl)
  survives := fun j hj hd => h₂.survives j (h₁.survives j hj hd) hd

theorem Trimmed.mono {d d' : Job → Prop} (h : Trimmed d s t)
    (hd : ∀ j ∈ s.cluster.objects .job, d j → d' j) : Trimmed d' s t :=
  ⟨h.descends, fun j hj hn => h.survives j hj fun hj' => hn (hd j hj hj')⟩

theorem exec_deleteJob {ns name : String} {r : Except ApiError Unit}
    (he : Exec (faulty env) (deleteObject .job ns name) s r t) :
    Trimmed (fun j => j.key = (ns, name)) s t := by
  rcases faulty_cluster (exec_perform.mp he) with h | ⟨c, hc, h⟩
  · exact .of_eq (by rw [h])
  · cases hc
    simp only [serve] at h
    split at h
    · exact .of_eq (by rw [h])
    · constructor
      · intro j' hj'
        simp only [h, Cluster.mem_rewrite] at hj'
        obtain ⟨j, hj, hj'⟩ := hj'
        refine ⟨j, hj, ?_⟩
        unfold atKey at hj'
        split_ifs at hj'
        · exact Or.inr (Object.settle_eq_some hj')
        · exact Or.inl (Option.some.inj hj').symm
      · intro j hj hd
        simp only [h, Cluster.mem_rewrite]
        exact ⟨j, hj, if_neg hd⟩

theorem exec_deleteJobs {jobs : List Job} {r : Unit}
    (he : Exec (faulty env) (deleteJobs jobs) s r t) :
    Trimmed (fun j => ∃ x ∈ jobs, x.key = j.key) s t := by
  induction jobs generalizing s with
  | nil =>
    obtain ⟨-, rfl⟩ := he
    exact .of_eq rfl
  | cons job jobs ih =>
    obtain ⟨a, u, hdel, he⟩ := exec_bind.mp he
    have hhead : Trimmed (fun j => ∃ x ∈ job :: jobs, x.key = j.key) s u :=
      (exec_deleteJob hdel).mono fun j _ hj => ⟨job, by simp, hj.symm⟩
    have htail : Exec (faulty env) (deleteJobs jobs) u r t →
        Trimmed (fun j => ∃ x ∈ job :: jobs, x.key = j.key) s t := by
      intro ht
      refine hhead.trans ((ih ht).mono ?_)
      rintro j - ⟨x, hx, hk⟩
      exact ⟨x, by simp [hx], hk⟩
    rcases a with (_ | _ | _ | _ | _) | x
    case error.notFound => exact htail he
    case ok => exact htail he
    all_goals
      obtain ⟨-, rfl⟩ := he
      exact hhead

/-- The Jobs of one pipeline that are to be deleted. -/
def Excess (opts : Opts p) (jobs : List Job) (job : Job) : Prop :=
  opts.numberOfJobsToKeep < jobs.length ∧
    ∃ x ∈ (oldestFirst jobs).take (jobs.length - opts.numberOfJobsToKeep), x.key = job.key

theorem exec_cleanupJobs {jobs : List Job} {r : Unit}
    (he : Exec (faulty env) (cleanupJobs opts jobs) s r t) : Trimmed (Excess opts jobs) s t := by
  unfold cleanupJobs at he
  split at he
  · obtain ⟨-, rfl⟩ := he
    exact .of_eq rfl
  · next hlen => exact (exec_deleteJobs he).mono fun j _ hj => ⟨by omega, hj⟩

/-- A list call in the namespace with this selector returns the Job. -/
def Matches (ns : String) (sel : Selector) (job : Job) : Prop :=
  (ns = "" ∨ job.metadata.ns = ns) ∧ sel job.metadata.labels = true

/-- There is a newer Job of the same pipeline, by the labels used for cleaning up. -/
def Superseded (env : Externals) (ns : String) (pipelines : List PipelineJobResources) (s : World)
    (job : Job) : Prop :=
  ∃ pipeline ∈ pipelines, ∃ sel, env.parseLabels (cleanupLabels pipeline) = some sel ∧
    Matches ns sel job ∧ ∃ x ∈ s.cluster.objects .job, Matches ns sel x ∧ job.created < x.created

theorem not_excess_of_newest (hkeep : 0 < opts.numberOfJobsToKeep) {ns : String} {sel : Selector}
    {job : Job} (hjob : job ∈ s.cluster.objects .job)
    (hmax : Matches ns sel job → ∀ x ∈ s.cluster.listed .job ns sel, x.created ≤ job.created) :
    ¬ Excess opts (s.cluster.listed .job ns sel) job := by
  rintro ⟨hlen, x, hx, hk⟩
  have hxl : x ∈ s.cluster.listed .job ns sel :=
    (List.perm_insertionSort _ _).mem_iff.mp (List.mem_of_mem_take hx)
  obtain rfl : x = job := s.cluster.eq_of_key (Cluster.mem_listed.mp hxl).1 hjob hk
  have hnd : ((s.cluster.listed .job ns sel).map Object.created).Nodup :=
    (s.cluster.created_nodup .job).sublist (List.filter_sublist.map _)
  exact Sorting.notMem_take_ascending hnd hkeep hlen (hmax (Cluster.mem_listed.mp hxl).2) hx

/-- What `cleanupPipelines` removes has a newer Job of the same pipeline. -/
theorem exec_cleanupPipelines (hkeep : 0 < opts.numberOfJobsToKeep) {ns : String}
    {pipelines : List PipelineJobResources} {r : Unit}
    (he : Exec (faulty env) (cleanupPipelines env opts ns pipelines) s r t) :
    Trimmed (Superseded env ns pipelines s) s t := by
  induction pipelines generalizing s with
  | nil =>
    obtain ⟨-, rfl⟩ := he
    exact .of_eq rfl
  | cons pipeline pipelines ih =>
    obtain ⟨a, u, hlist, he⟩ := exec_bind.mp he
    obtain ⟨rfl, hsel⟩ := exec_getJobsWithLabels hlist
    have hhead : ∃ v, Trimmed (Superseded env ns (pipeline :: pipelines) u) u v ∧
        Exec (faulty env) (cleanupPipelines env opts ns pipelines) v r t := by
      cases a with
      | error e =>
        obtain ⟨_, v, hclean, he⟩ := exec_bind.mp he
        refine ⟨v, (exec_cleanupJobs hclean).mono ?_, he⟩
        rintro j - ⟨hlen, -⟩
        simp at hlen
      | ok jobs =>
        obtain ⟨_, v, hclean, he⟩ := exec_bind.mp he
        refine ⟨v, (exec_cleanupJobs hclean).mono ?_, he⟩
        obtain ⟨sel, hp, rfl⟩ := hsel jobs rfl
        intro j hj hex
        by_contra hnot
        refine not_excess_of_newest hkeep hj (fun hm x hx => ?_) hex
        obtain ⟨hx, hmx⟩ := Cluster.mem_listed.mp hx
        by_contra hlt
        exact hnot ⟨pipeline, by simp, sel, hp, hm, x, hx, hmx, by omega⟩
    obtain ⟨v, hhead, he⟩ := hhead
    refine hhead.trans ((ih he).mono ?_)
    -- what is selected later stems from what is selected now
    rintro j - ⟨q, hq, sel, hp, hm, x, hx, hmx, hlt⟩
    obtain ⟨x₀, hx₀, rfl | rfl⟩ := hhead.descends x hx
    · exact ⟨q, by simp [hq], sel, hp, hm, x, hx₀, hmx, hlt⟩
    · exact ⟨q, by simp [hq], sel, hp, hm, x₀, hx₀, hmx, hlt⟩

theorem exec_cleanup (hkeep : 0 < opts.numberOfJobsToKeep) {ns : String} {r : Option Failure}
    (he : Exec (faulty env) (cleanup env opts ns) s r t) :
    Trimmed (Superseded env ns opts.resources s) s t := by
  obtain ⟨_, u, hclean, he⟩ := exec_bind.mp he
  have htrim := exec_cleanupPipelines hkeep hclean
  have hrest : t.cluster.objects .job = u.cluster.objects .job := by
    refine exec_spared ?_ he
    refine obeys_bind (obeys_getExistingWorks _ _) ?_
    rintro (e | works)
    · exact obeys_pure _
    · exact obeys_deleteWorks (by simp) _
  exact htrim.trans (.of_eq hrest)

/-! ### The four effects of a reconcile -/

/-- The most recent of the Jobs that the list calls return. -/
def Latest (env : Externals) (opts : Opts p) (s : World) (latest : Option Job) : Prop :=
  ∃ current legacy, Selected env (labelsForJobs opts) opts.jobNamespace s current ∧
    Selected env (legacyLabelsForJobs opts) opts.jobNamespace s legacy ∧
    latest = (newestFirst (current ++ legacy)).head?

def dueIndex (opts : Opts p) (latest : Option Job) : ℕ :=
  min ((latest.map (nextPipelineIndex opts)).getD 0) (opts.resources.length - 1)

theorem dueIndex_eq (opts : Opts p) (latest : Option Job) : dueIndex opts latest =
    min ((latest.map (nextPipelineIndex opts)).getD 0) (opts.resources.length - 1) := rfl

inductive ConfigureEffect (env : Externals) (opts : Opts p) (s : World) (r : Result p) (t : World) :
    Prop
  | idle (jobs : t.cluster.objects .job = s.cluster.objects .job)
      (unfinished : r.abort = true ∨ r.err ≠ none ∨ opts.resources = [])
  | suspends (job : Job) (latest : Latest env opts s (some job)) (running : isRunning job = true)
      (abort : r.abort = true) (jobs : MaySuspend job s t)
  | creates (last : Option Job) (pipeline : PipelineJobResources) (latest : Latest env opts s last)
      (due : opts.resources[dueIndex opts last]? = some pipeline)
      (free : ∀ job ∈ last, isRunning job = false ∧
        (jobIsForPipeline pipeline job = true → opts.isManual = true))
      (unfinished : r.abort = true ∨ r.err ≠ none) (jobs : Added pipeline.job s t)
  | cleans (job : Job) (pipeline : PipelineJobResources) (latest : Latest env opts s (some job))
      (due : opts.resources[dueIndex opts (some job)]? = some pipeline)
      (current : jobIsForPipeline pipeline job = true)
      (finished : isRunning job = false ∧ isFailed job = false) (manual : opts.isManual = false)
      (jobs : Trimmed (Superseded env opts.jobNamespace opts.resources s) s t)

theorem exec_updateStatus_ok {k : Kind} {o stored o' : scheme.Obj k}
    (hs : s.cluster.find k o.key = some stored)
    (he : Exec (faulty env) (updateStatus k o) s (.ok o') t) :
    o' = { stored with status := o.status } := by
  obtain ⟨c, hc, -⟩ := exec_perform.mp he
  have h := congrArg Prod.fst hc.ok
  simp only [serve, hs] at h
  exact (Except.ok.inj h).symm

theorem exec_updateCounters {obj : Parent p} {i : ℕ} {r : Except Failure (Parent p)}
    (hs : s.cluster.find (.parent p) obj.key = some obj)
    (he : Exec (faulty env) (updateCounters obj i) s r t) :
    ∀ obj', r = .ok obj' → obj'.metadata = obj.metadata := by
  unfold updateCounters at he
  split at he
  · obtain ⟨a, u, hupd, he⟩ := exec_bind.mp he
    cases a with
    | error e =>
      obtain ⟨rfl, rfl⟩ := he
      intro obj' h
      cases h
    | ok o =>
      obtain ⟨rfl, rfl⟩ := he
      intro obj' h
      cases h
      rw [exec_updateStatus_ok (o := { obj with status := withCounters obj.status i }) hs hupd]
  · obtain ⟨rfl, rfl⟩ := he
    intro obj' h
    cases h
    rfl

/-- The four effects, with the execution of `cleanup` where it is reached. The
handler `h` says which of the faults are possible. -/
inductive ConfigureCase (h : Handler signature World) (env : Externals) (opts : Opts p) (s : World)
    (r : Result p) (t : World) : Prop
  | idle (jobs : t.cluster.objects .job = s.cluster.objects .job)
      (unfinished : r.abort = true ∨ r.err ≠ none ∨ opts.resources = [])
  | suspends (job : Job) (latest : Latest env opts s (some job)) (running : isRunning job = true)
      (abort : r.abort = true) (jobs : MaySuspend job s t)
  | creates (last : Option Job) (pipeline : PipelineJobResources) (latest : Latest env opts s last)
      (due : opts.resources[dueIndex opts last]? = some pipeline)
      (free : ∀ job ∈ last, isRunning job = false ∧
        (jobIsForPipeline pipeline job = true → opts.isManual = true))
      (unfinished : r.abort = true ∨ r.err ≠ none) (jobs : Added pipeline.job s t)
  | cleans (job : Job) (pipeline : PipelineJobResources) (latest : Latest env opts s (some job))
      (due : opts.resources[dueIndex opts (some job)]? = some pipeline)
      (current : jobIsForPipeline pipeline job = true)
      (finished : isRunning job = false ∧ isFailed job = false) (manual : opts.isManual = false)
      (obj : Parent p) (metadata : obj.metadata = opts.parentObject.metadata) (u : World)
      (spared : ∀ k, k ≠ .parent p → u.cluster.objects k = s.cluster.objects k)
      (exec : Exec h (cleanup env (opts.withParent obj) opts.jobNamespace) u r.err t)
      (proceeds : r.abort = false)

theorem Trimmed.of_clean {u : World} {ns : String} {pipelines : List PipelineJobResources}
    (hjobs : u.cluster.objects .job = s.cluster.objects .job)
    (h : Trimmed (Superseded env ns pipelines u) u t) :
    Trimmed (Superseded env ns pipelines s) s t := by
  refine Trimmed.trans (.of_eq hjobs) (h.mono ?_)
  rintro j - ⟨q, hq, sel, hp, hm, x, hx, hmx, hlt⟩
  exact ⟨q, hq, sel, hp, hm, x, hjobs ▸ hx, hmx, hlt⟩

theorem MaySuspend.of_eq {job : Job} {u : World} (h : MaySuspend job u t)
    (hjobs : u.cluster.objects .job = s.cluster.objects .job) : MaySuspend job s t := by
  unfold MaySuspend at h ⊢
  rwa [hjobs] at h

section Cases

variable {h : Handler signature World} (hle : ∀ c s r t, h c s r t → faulty env c s r t)

include hle

/-- The part of a reconcile that follows the update of the counters. -/
theorem exec_reconcilePipeline {u : World} {r : Result p} {obj : Parent p} {last : Option Job}
    {pipeline : PipelineJobResources}
    (hspared : ∀ k, k ≠ .parent p → u.cluster.objects k = s.cluster.objects k)
    (hclock : s.cluster.clock ≤ u.cluster.clock)
    (hmeta : obj.metadata = opts.parentObject.metadata)
    (hlatest : Latest env opts s last)
    (hdue : opts.resources[dueIndex opts last]? = some pipeline)
    (hfresh : ∀ x ∈ u.cluster.objects .job, x.key ≠ pipeline.job.key)
    (he : Exec h
      (reconcilePipeline env (opts.withParent obj) (dueIndex opts last) pipeline last) u r t) :
    ConfigureCase h env opts s r t := by
  have hmanual : (opts.withParent obj).isManual = opts.isManual := by
    simp only [Opts.isManual, Opts.withParent, hmeta]
  have hns : (opts.withParent obj).jobNamespace = opts.jobNamespace := by
    simp only [Opts.jobNamespace, Opts.withParent, hmeta]
  have hjobs : u.cluster.objects .job = s.cluster.objects .job := hspared .job (by simp)
  have hcreate : (∀ job ∈ last, isRunning job = false ∧
      (jobIsForPipeline pipeline job = true → opts.isManual = true)) →
      Exec h (createConfigurePipeline (opts.withParent obj) (dueIndex opts last) pipeline)
        u r t → ConfigureCase h env opts s r t := by
    intro hfree hc
    obtain ⟨hr, hadd⟩ := exec_createConfigurePipeline hfresh (hc.mono hle)
    exact .creates last pipeline hlatest hdue hfree hr (hadd.of_eq hjobs hclock)
  cases last with
  | none => exact hcreate (by simp) he
  | some job =>
  simp only [reconcilePipeline] at he
  split at he
  · next hfor =>
    simp only [reconcileCurrentPipeline, hmanual] at he
    split at he
    · next hrun =>
      split at he
      · obtain ⟨a, v, hsus, he⟩ := exec_bind.mp he
        have heff := (exec_suspendJob (hsus.mono hle)).of_eq hjobs
        cases a with
        | error e =>
          obtain ⟨rfl, rfl⟩ := he
          exact .suspends job hlatest hrun rfl heff
        | ok x =>
          obtain ⟨rfl, rfl⟩ := he
          exact .suspends job hlatest hrun rfl heff
      · obtain ⟨rfl, rfl⟩ := he
        exact .idle hjobs (Or.inl rfl)
    · next hrun =>
      have hrun : isRunning job = false := by simpa using hrun
      split at he
      · next hman =>
        refine hcreate ?_ he
        rintro j hj
        cases hj
        exact ⟨hrun, fun _ => hman⟩
      · next hman =>
        split at he
        · have hspare := exec_spared (k := .job) (obeys_markAsFailed (by simp) _ _) (he.mono hle)
          refine .idle (hspare.trans hjobs) ?_
          obtain ⟨now, v, -, he⟩ := exec_bind.mp he
          obtain ⟨a, w, -, he⟩ := exec_bind.mp he
          cases a with
          | error e =>
            obtain ⟨rfl, -⟩ := he
            exact Or.inr (Or.inl (by simp))
          | ok x =>
            obtain ⟨rfl, -⟩ := he
            exact Or.inl rfl
        · next hfailed =>
          obtain ⟨err, v, hclean, he⟩ := exec_bind.mp he
          obtain ⟨rfl, rfl⟩ := he
          rw [hns] at hclean
          exact .cleans job pipeline hlatest hdue hfor ⟨hrun, by simpa using hfailed⟩
            (by simpa using hman) obj hmeta u hspared hclean rfl
  · next hfor =>
    split at he
    · next hrun =>
      obtain ⟨a, v, hsus, he⟩ := exec_bind.mp he
      obtain ⟨rfl, rfl⟩ := he
      exact .suspends job hlatest hrun rfl ((exec_suspendJob (hsus.mono hle)).of_eq hjobs)
    · next hrun =>
      refine hcreate ?_ he
      rintro j hj
      cases hj
      exact ⟨by simpa using hrun, fun h => absurd h hfor⟩

theorem exec_reconcileConfigure_cases {r : Result p}
    (hstored : s.cluster.find (.parent p) opts.parentObject.key = some opts.parentObject)
    (hfresh : ∀ pipeline ∈ opts.resources, ∀ x ∈ s.cluster.objects .job, x.key ≠ pipeline.job.key)
    (he : Exec h (reconcileConfigure env opts) s r t) : ConfigureCase h env opts s r t := by
  obtain ⟨a, u, hlist, he⟩ := exec_bind.mp he
  obtain ⟨rfl, hjobs⟩ := exec_getAllJobs (hlist.mono hle)
  cases a with
  | error e =>
    obtain ⟨rfl, rfl⟩ := he
    exact .idle rfl (Or.inr (Or.inl (by simp)))
  | ok allJobs =>
  obtain ⟨current, legacy, hcurrent, hlegacy, rfl⟩ := hjobs _ rfl
  obtain ⟨b, v, hcount, he⟩ := exec_bind.mp he
  have hcount := hcount.mono hle
  have hv (k : Kind) (hk : k ≠ .parent p) : v.cluster.objects k = u.cluster.objects k :=
    exec_spared (obeys_updateCounters hk.symm _ _) hcount
  have hcv := exec_clock hcount
  cases b with
  | error e =>
    obtain ⟨rfl, rfl⟩ := he
    exact .idle (hv .job (by simp)) (Or.inr (Or.inl (by simp)))
  | ok obj =>
  have hmeta := exec_updateCounters hstored hcount obj rfl
  have hlatest : Latest env opts u (newestFirst (current ++ legacy)).head? :=
    ⟨current, legacy, hcurrent, hlegacy, rfl⟩
  set last := (newestFirst (current ++ legacy)).head? with hlast
  clear_value last
  dsimp only [← dueIndex_eq] at he
  cases hdue : opts.resources[dueIndex opts last]? with
  | none =>
    rw [hdue] at he
    obtain ⟨rfl, rfl⟩ := he
    refine .idle (hv .job (by simp)) (Or.inr (Or.inr ?_))
    have := List.getElem?_eq_none_iff.mp hdue
    rw [← List.length_eq_zero_iff]
    unfold dueIndex at this
    omega
  | some pipeline =>
  rw [hdue] at he
  have hfresh' : ∀ x ∈ v.cluster.objects .job, x.key ≠ pipeline.job.key := by
    rw [hv .job (by simp)]
    exact hfresh pipeline (List.mem_of_getElem? hdue)
  exact exec_reconcilePipeline hle hv hcv hmeta hlatest hdue hfresh' he

end Cases

/-- Everything a configure reconcile can do to the Jobs. -/
theorem exec_reconcileConfigure {r : Result p} (hkeep : 0 < opts.numberOfJobsToKeep)
    (hstored : s.cluster.find (.parent p) opts.parentObject.key = some opts.parentObject)
    (hfresh : ∀ pipeline ∈ opts.resources, ∀ x ∈ s.cluster.objects .job, x.key ≠ pipeline.job.key)
    (he : Exec (faulty env) (reconcileConfigure env opts) s r t) :
    ConfigureEffect env opts s r t := by
  cases exec_reconcileConfigure_cases (fun _ _ _ _ hc => hc) hstored hfresh he with
  | idle jobs unfinished => exact .idle jobs unfinished
  | suspends job latest running abort jobs => exact .suspends job latest running abort jobs
  | creates last pipeline latest due free unfinished jobs =>
    exact .creates last pipeline latest due free unfinished jobs
  | cleans job pipeline latest due current finished manual obj hmeta u hspared hclean =>
    have hkeep' : 0 < (opts.withParent obj).numberOfJobsToKeep := hkeep
    exact .cleans job pipeline latest due current finished manual
      ((exec_cleanup hkeep' hclean).of_clean (hspared .job (by simp)))

end Kratix.Workflow
