import Kratix.Workflow.Ownership

/-!
# What one call does to the Jobs of the parent

The effects of `reconcileConfigure` in terms of the call's own data: which
pipeline of the call gets a Job and why, or which Jobs go. With it come the
facts that every run uses: how Jobs change in a step, and that the most recent
Job a call sees is the most recent Job of the parent.
-/

namespace Kratix.Workflow

open Apiserver Effect

variable {env : Externals} {p : ParentKind} {id : Identity p} {x : Trigger id}
  {s t : World} {r : Result p}

/-! ### Changes of a Job -/

/-- How a stored Job changes, by a call or by itself. -/
structure Evolves (j j' : Job) : Prop where
  labels : j'.metadata.labels = j.metadata.labels
  ns : j'.metadata.ns = j.metadata.ns
  owner : j'.metadata.owner = j.metadata.owner
  created : j'.created = j.created
  pipelineName : j'.spec.pipelineName = j.spec.pipelineName
  stopped : isRunning j = false → isRunning j' = false
  failed : isFailed j = true → isFailed j' = true
  settled : isRunning j = false → isFailed j = false → isFailed j' = false

theorem Evolves.refl (j : Job) : Evolves j j :=
  ⟨rfl, rfl, rfl, rfl, rfl, fun h => h, fun h => h, fun _ h => h⟩

theorem Evolves.owned {j j' : Job} (h : Evolves j j') : Owned id j' ↔ Owned id j := by
  unfold Owned
  rw [h.owner]

theorem Progress.evolves {j j' : Job} (h : Progress j j') : Evolves j j' where
  labels := by rw [h.metadata]
  ns := by rw [h.metadata]
  owner := by rw [h.metadata]
  created := by rw [Object.created, h.metadata]; rfl
  pipelineName := by rw [h.spec]
  stopped := h.stopped
  failed := h.failed
  settled := h.settled

/-- The Jobs of the parent after a step that creates none: they have changed in
the permitted ways, and only `doomed` ones have gone. -/
structure Carried (id : Identity p) (doomed : Job → Prop) (s t : World) : Prop where
  descends : ∀ j' ∈ t.cluster.objects .job, Owned id j' → ∃ j ∈ s.cluster.objects .job, Evolves j j'
  survives : ∀ j ∈ s.cluster.objects .job, Owned id j → ¬ doomed j →
    ∃ j' ∈ t.cluster.objects .job, Evolves j j'

theorem Unattended.carried (h : Unattended id s t) : Carried id (fun _ => False) s t where
  descends := by
    intro j' hj' ho
    obtain ⟨j, hj, -, hp⟩ := h.stems j' hj' ho
    exact ⟨j, hj, hp.evolves⟩
  survives := by
    intro j hj ho _
    obtain ⟨j', hj', hp⟩ := h.kept j hj ho
    exact ⟨j', hj', hp.evolves⟩

theorem Carried.of_eq (h : t.cluster.objects .job = s.cluster.objects .job) :
    Carried id (fun _ => False) s t :=
  ⟨fun j hj _ => ⟨j, h ▸ hj, .refl j⟩, fun j hj _ _ => ⟨j, h ▸ hj, .refl j⟩⟩

theorem MaySuspend.carried {job : Job} (h : MaySuspend job s t) :
    Carried id (fun _ => False) s t := by
  rcases h with h | h
  · exact .of_eq h
  · have hev : ∀ j : Job, Evolves j
        (if j.key = job.key then { j with spec := { j.spec with suspend := true } } else j) := by
      intro j
      split
      · exact ⟨rfl, rfl, rfl, rfl, rfl, fun h => h, fun h => h, fun _ h => h⟩
      · exact .refl j
    constructor
    · intro j' hj' _
      rw [h] at hj'
      obtain ⟨j, hj, rfl⟩ := List.mem_map.mp hj'
      exact ⟨j, hj, hev j⟩
    · intro j hj _ _
      exact ⟨_, by rw [h]; exact List.mem_map_of_mem hj, hev j⟩

theorem Trimmed.carried {doomed : Job → Prop} (h : Trimmed doomed s t) : Carried id doomed s t where
  descends := by
    intro j' hj' _
    obtain ⟨j, hj, rfl | rfl⟩ := h.descends j' hj'
    · exact ⟨_, hj, .refl _⟩
    · exact ⟨j, hj, ⟨rfl, rfl, rfl, rfl, rfl, fun h => h, fun h => h, fun _ h => h⟩⟩
  survives := fun j hj _ hd => ⟨j, h.survives j hj hd, .refl j⟩

/-! ### The most recent Job -/

/-- The most recent of the Jobs that the list calls of the parent return. -/
def Newest (env : Externals) (id : Identity p) (s : World) (last : Option Job) : Prop :=
  ∃ current legacy, Selected env id.selectorLabels id.jobNamespace s current ∧
    Selected env id.legacyLabels id.jobNamespace s legacy ∧
    last = (newestFirst (current ++ legacy)).head?

/-- The list calls for the Jobs of the parent return no Job of another owner. -/
def OnlyOwn (env : Externals) (id : Identity p) (s : World) : Prop :=
  ∀ labels ∈ [id.selectorLabels, id.legacyLabels], ∀ jobs,
    Selected env labels id.jobNamespace s jobs → ∀ j ∈ jobs, Owned id j

/-- The list calls for the Jobs of the parent return all of them. -/
def AllFindable (id : Identity p) (s : World) : Prop :=
  ∀ j ∈ s.cluster.objects .job, Owned id j → Findable id j

theorem selectorLabels_ne_empty (id : Identity p) : id.selectorLabels ≠ ∅ := by
  intro h
  have hl := congrArg (AList.lookup Label.workflowType) h
  cases p <;>
    simp [Identity.selectorLabels, Labels.lookup_ofList_cons, AList.lookup_empty] at hl

namespace Newest

variable {last : Option Job} {job : Job}

theorem mem (h : Newest env id s (some job)) : job ∈ s.cluster.objects .job := by
  obtain ⟨current, legacy, ⟨_, -, rfl⟩, ⟨_, -, rfl⟩, hlast⟩ := h
  rcases List.mem_append.mp (Sorting.head?_descending hlast.symm).1 with hm | hm <;>
    exact (Cluster.mem_listed.mp hm).1

theorem owned (h : Newest env id s (some job)) (hown : OnlyOwn env id s) : Owned id job := by
  obtain ⟨current, legacy, hc, hl, hlast⟩ := h
  rcases List.mem_append.mp (Sorting.head?_descending hlast.symm).1 with hm | hm
  · exact hown _ (by simp) _ hc job hm
  · exact hown _ (by simp) _ hl job hm

theorem ge (h : Newest env id s last) (hfind : AllFindable id s) {j : Job}
    (hj : j ∈ s.cluster.objects .job) (ho : Owned id j) :
    ∃ job, last = some job ∧ j.created ≤ job.created := by
  obtain ⟨current, legacy, ⟨sel, hsel, rfl⟩, -, hlast⟩ := h
  obtain ⟨hns, hlabels⟩ := hfind j hj ho
  rw [env.parseLabels_of_valid (selectorLabels_ne_empty id)
    (valid_of_fromSet (s.cluster.labels_valid .job j hj) hlabels)] at hsel
  cases hsel
  have hmem : j ∈ s.cluster.listed .job id.jobNamespace (Selector.fromSet id.selectorLabels) :=
    Cluster.mem_listed.mpr ⟨hj, Or.inr hns, hlabels⟩
  cases last with
  | none =>
    have hnil := Sorting.head?_descending_eq_none.mp hlast.symm
    rw [(List.append_eq_nil_iff.mp hnil).1] at hmem
    cases hmem
  | some job =>
    exact ⟨job, rfl, (Sorting.head?_descending hlast.symm).2 j (List.mem_append_left _ hmem)⟩

end Newest

/-! ### The outcomes of a call -/

/-- Why a Job of the pipeline at index `i` may be created. -/
def Due (env : Externals) (x : Trigger id) (last : Option Job) (i : ℕ) : Prop :=
  (i = 0 ∧ (x.isManual = true ∨ ∀ j ∈ last, ∀ q ∈ x.pipelines, ¬ x.IsFor env q j)) ∨
    ∃ j i' q, last = some j ∧ x.isManual = false ∧ i = i' + 1 ∧ x.pipelines[i']? = some q ∧
      x.IsFor env q j ∧ isFailed j = false

inductive Outcome (env : Externals) (x : Trigger id) (s : World) (r : Result p) (t : World) : Prop
  | carries (jobs : Carried id (fun _ => False) s t)
      (old : ∀ j' ∈ t.cluster.objects .job, ∃ j ∈ s.cluster.objects .job, j'.created = j.created)
      (unfinished : r.abort = true ∨ r.err ≠ none ∨ x.pipelines = [])
  | creates (last : Option Job) (i : ℕ) (q : Pipeline) (job : Job)
      (resources : List PipelineJobResources) (newest : Newest env id s last)
      (pipeline : x.pipelines[i]? = some q) (makes : Makes env x q job)
      (free : ∀ j ∈ last, isRunning j = false) (due : Due env x last i)
      (unfinished : r.abort = true ∨ r.err ≠ none) (prepared : Prepared env x s resources)
      (jobs : Added job s t)
  | completes (job : Job) (q : Pipeline) (resources : List PipelineJobResources)
      (newest : Newest env id s (some job)) (last : x.pipelines.getLast? = some q)
      (isFor : x.IsFor env q job) (finished : isRunning job = false ∧ isFailed job = false)
      (manual : x.isManual = false) (prepared : Prepared env x s resources)
      (jobs : Trimmed (Superseded env id.jobNamespace resources s) s t)

theorem MaySuspend.old {job : Job} (h : MaySuspend job s t) :
    ∀ j' ∈ t.cluster.objects .job, ∃ j ∈ s.cluster.objects .job, j'.created = j.created := by
  intro j' hj'
  rcases h with h | h
  · exact ⟨j', h ▸ hj', rfl⟩
  · rw [h] at hj'
    obtain ⟨j, hj, rfl⟩ := List.mem_map.mp hj'
    exact ⟨j, hj, by split <;> rfl⟩

theorem Latest.newest {resources : List PipelineJobResources} {last : Option Job}
    (h : Latest env (x.opts resources) s last) : Newest env id s last := by
  simpa [Latest, Newest] using h

theorem ConfigureEffect.outcome {resources : List PipelineJobResources}
    (hp : Prepared env x s resources) (h : ConfigureEffect env (x.opts resources) s r t) :
    Outcome env x s r t := by
  cases h with
  | idle jobs unfinished =>
    refine .carries (.of_eq jobs) (fun j hj => ⟨j, jobs ▸ hj, rfl⟩) ?_
    refine unfinished.imp_right (Or.imp_right fun hnil => ?_)
    rw [← List.length_eq_zero_iff, ← hp.length_eq, List.length_eq_zero_iff]
    exact hnil
  | suspends job latest running abort jobs =>
    exact .carries jobs.carried jobs.old (Or.inl abort)
  | creates last pipeline latest due free unfinished jobs =>
    obtain ⟨q, hq, -, hmakes, -⟩ := hp.getElem? due
    refine .creates last _ q pipeline.job resources latest.newest hq hmakes
      (fun j hj => (free j hj).1) ?_ unfinished hp jobs
    rcases due_cases due free with ⟨h0, hwhy⟩ | ⟨j, i', res, hlast, hman, hi, hres, hfor, hfail⟩
    · refine Or.inl ⟨h0, hwhy.imp_right fun hnone j hj q' hq' hfor => ?_⟩
      obtain ⟨res, hres, -, hm⟩ := hp.exists_of_mem hq'
      exact absurd (hm.isFor_iff.mpr hfor) (by simp [hnone j hj res hres])
    · obtain ⟨q', hq', -, hm, -⟩ := hp.getElem? hres
      exact Or.inr ⟨j, i', q', hlast, hman, hi, hq', hm.isFor_iff.mp hfor, hfail⟩
  | cleans job pipeline latest due current finished manual jobs =>
    obtain ⟨q, hq, -, hmakes, -⟩ := hp.getElem? due
    have hlen := due_eq_last due current finished manual
    refine .completes job q resources latest.newest ?_ (hmakes.isFor_iff.mp current) finished manual
      hp ?_
    · rw [List.getLast?_eq_getElem?, ← hq]
      congr 1
      have : resources.length = x.pipelines.length := hp.length_eq
      change _ + 1 = resources.length at hlen
      omega
    · rwa [x.jobNamespace_opts] at jobs

/-- Everything a call can do to the Jobs of the parent. -/
theorem CallStep.outcome (h : CallStep env x s r t) : Outcome env x s r t := by
  obtain ⟨a, u, hgen, he⟩ := exec_bind.mp h.exec
  obtain ⟨rfl, hprep⟩ := exec_generateResources hgen
  cases a with
  | error e =>
    obtain ⟨rfl, rfl⟩ := he
    exact .carries (.of_eq rfl) (fun j hj => ⟨j, hj, rfl⟩) (Or.inr (Or.inl (by simp)))
  | ok resources =>
    have hp : Prepared env x u resources := hprep resources rfl
    refine ConfigureEffect.outcome hp (exec_reconcileConfigure x.keep_pos h.stored ?_ he)
    intro res hres
    obtain ⟨-, -, -, -, hfresh⟩ := hp.mem hres
    exact hfresh

/-! ### New entries of the log -/

theorem newEntries_eq_nil
    (old : ∀ j' ∈ t.cluster.objects .job, ∃ j ∈ s.cluster.objects .job, j'.created = j.created) :
    newEntries x s t = [] := by
  have hjobs : newJobs s t = [] := by
    refine List.filter_eq_nil_iff.mpr fun j' hj' => ?_
    obtain ⟨j, hj, hc⟩ := old j' hj'
    have hlt := s.cluster.created_lt .job j hj
    rw [hc]
    simpa using hlt
  rw [newEntries, hjobs]
  rfl

theorem Trimmed.newEntries_eq_nil {doomed : Job → Prop} (h : Trimmed doomed s t) :
    newEntries x s t = [] := by
  refine Workflow.newEntries_eq_nil fun j' hj' => ?_
  obtain ⟨j, hj, rfl | rfl⟩ := h.descends j' hj'
  · exact ⟨_, hj, rfl⟩
  · exact ⟨j, hj, rfl⟩

/-- Either no Job was created, or the log grows by one entry. -/
theorem Added.cases {job : Job} (h : Added job s t) :
    (t.cluster.objects .job = s.cluster.objects .job ∧ newEntries x s t = []) ∨
      ∃ time, s.cluster.clock ≤ time ∧ time < t.cluster.clock ∧ job.metadata.ns ≠ "" ∧
        t.cluster.objects .job = s.cluster.objects .job ++ [job.stampedAt time] ∧
        newEntries x s t = [⟨x, job.stampedAt time, s.cluster.objects .job⟩] := by
  rcases h with h | ⟨time, h₁, h₂, h₃, h⟩
  · exact Or.inl ⟨h, newEntries_eq_nil fun j hj => ⟨j, h ▸ hj, rfl⟩⟩
  · refine Or.inr ⟨time, h₁, h₂, h₃, h, ?_⟩
    have hold : (s.cluster.objects .job).filter (fun j => s.cluster.clock ≤ j.created) = [] :=
      List.filter_eq_nil_iff.mpr fun j hj => by simpa using s.cluster.created_lt .job j hj
    have hnew : s.cluster.clock ≤ (job.stampedAt time).created := h₁
    simp [newEntries, newJobs, h, hold, hnew]

end Kratix.Workflow
