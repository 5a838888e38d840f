import Kratix.Workflow.Position
import Kratix.Workflow.Run

/-!
# Finding the Jobs of a parent object

The Jobs that a parent object owns are found again by their labels as long as
the pipelines leave the selecting labels alone. Then the most recent Job seen
by a call is the most recent one the parent owns.
-/

namespace Kratix.Workflow

open Apiserver Effect

variable {env : Externals} {p : ParentKind} {id : Identity p}

/-! ### What the calls of one parent have in common -/

def Identity.resourceName : {p : ParentKind} → Identity p → Option String
  | .promise, _ => none
  | .resource _, id => some id.name

/-- Where the Jobs of the parent object are looked for. -/
def Identity.jobNamespace (id : Identity p) : String :=
  if id.ns = "" then systemNamespace else id.ns

def Identity.selectorLabels : {p : ParentKind} → Identity p → Labels
  | .promise, id => Labels.ofList [(Label.workflowType, "promise"), (Label.promiseName, id.name)]
  | .resource promiseName, id => Labels.ofList [(Label.workflowType, "resource"),
      (Label.resourceName, id.name), (Label.promiseName, promiseName)]

def Identity.legacyLabels : {p : ParentKind} → Identity p → Labels
  | .promise, id => Labels.ofList [(Label.workType, "promise"), (Label.promiseName, id.name)]
  | .resource promiseName, id => Labels.ofList [(Label.workType, "resource"),
      (Label.resourceName, id.name), (Label.promiseName, promiseName)]

namespace Trigger

variable (x : Trigger id) (q : Pipeline) (resources : List PipelineJobResources)

@[simp] theorem factory_pipeline : (x.factory q).pipeline = q := by
  unfold factory
  split <;> rfl

theorem names_getElem? {i : ℕ} {q : Pipeline} (h : x.pipelines[i]? = some q) :
    x.names[i]? = some q.name := by
  rw [names, List.getElem?_map, h]
  rfl

theorem idxOf_name {i : ℕ} {q : Pipeline} (h : x.pipelines[i]? = some q) :
    x.names.idxOf q.name = i := by
  obtain ⟨hlt, hi⟩ := List.getElem?_eq_some_iff.mp (x.names_getElem? h)
  rw [← hi]
  exact List.Nodup.idxOf_getElem x.names_nodup i hlt

@[simp] theorem factory_promiseName : (x.factory q).promiseName = id.promiseName := by
  rw [← x.promise_name]
  unfold factory
  split <;> rfl

@[simp] theorem factory_workflowType : (x.factory q).workflowType = p.workflowType := by
  unfold factory
  cases p <;> rfl

@[simp] theorem factory_objHash : (x.factory q).objHash env = x.hash env := by
  unfold factory hash
  split <;> rfl

@[simp] theorem factory_uid : (x.factory q).objMeta.creationTimestamp = id.uid := by
  rw [← x.parent_uid]
  cases p with
  | promise =>
    rw [← (x.promise_self x.parent rfl).1]
    rfl
  | resource n => rfl

@[simp] theorem factory_resourceName :
    (x.factory q).resourceRequest.map (·.metadata.name) = id.resourceName := by
  cases p with
  | promise => rfl
  | resource n => exact congrArg some x.parent_name

/-- Jobs of a resource request without a namespace cannot be created. -/
theorem factory_ns (h : (x.factory q).ns ≠ "") : (x.factory q).ns = id.jobNamespace := by
  cases p with
  | promise =>
    rw [Identity.jobNamespace, if_pos (x.promise_self x.parent rfl).2]
    rfl
  | resource n =>
    have hns : (x.factory q).ns = id.ns := x.parent_ns
    rw [Identity.jobNamespace, if_neg (hns ▸ h), hns]

@[simp] theorem factory_workflowAction : (x.factory q).workflowAction = .configure := by
  unfold factory
  split <;> rfl

/-- The labels of a Job do not depend on the call, apart from the hash. -/
theorem lookup_pipelineJobLabels (y : Trigger id) (sha key : String) :
    ((x.factory q).pipelineJobLabels sha).lookup key =
      ((y.factory q).pipelineJobLabels sha).lookup key := by
  have hown : ∀ z : Trigger id, ((z.factory q).ownLabels sha).lookup key =
      if key = Label.resourceHash ∧ sha ≠ "" then some sha
      else if key = Label.resourceName ∧ id.resourceName.isSome then id.resourceName
      else if key = Label.managedBy then some "Kratix"
      else if key = Label.workflowAction then some Action.configure.text
      else if key = Label.pipelineName ∧ q.name ≠ "" then some q.name
      else if key = Label.workflowType then some p.workflowType.text
      else if key = Label.promiseName then some id.promiseName
      else none := by
    intro z
    rw [PipelineFactory.lookup_ownLabels, ← Option.isSome_map, z.factory_resourceName,
      z.factory_workflowAction, z.factory_pipeline, z.factory_workflowType, z.factory_promiseName]
  simp only [PipelineFactory.pipelineJobLabels, Labels.lookup_merge, factory_pipeline, hown]

@[simp] theorem labelsForJobs_opts : labelsForJobs (x.opts resources) = id.selectorLabels := by
  cases p with
  | promise => simp only [labelsForJobs, opts, x.parent_name]; rfl
  | resource n =>
    simp only [labelsForJobs, opts, x.parent_name, x.request_label x.parent rfl]
    rfl

@[simp] theorem legacyLabelsForJobs_opts :
    legacyLabelsForJobs (x.opts resources) = id.legacyLabels := by
  cases p with
  | promise => simp only [legacyLabelsForJobs, opts, x.parent_name]; rfl
  | resource n =>
    simp only [legacyLabelsForJobs, opts, x.parent_name, x.request_label x.parent rfl]
    rfl

@[simp] theorem jobNamespace_opts : (x.opts resources).jobNamespace = id.jobNamespace := by
  simp only [Opts.jobNamespace, opts, x.parent_ns, Identity.jobNamespace]

end Trigger

/-! ### The Job of a pipeline -/

/-- The Job that a call makes for one of its pipelines. -/
def Makes (env : Externals) (x : Trigger id) (q : Pipeline) (job : Job) : Prop :=
  ∃ uuid isLast, job = (x.factory q).pipelineJob env uuid isLast

/-- A Job that the list calls of the parent return. -/
structure Findable (id : Identity p) (j : Job) : Prop where
  ns : j.metadata.ns = id.jobNamespace
  selected : Selector.fromSet id.selectorLabels j.metadata.labels = true

namespace Makes

variable {x : Trigger id} {q : Pipeline} {job : Job} (h : Makes env x q job)

include h

theorem owned : Owned id job := by
  obtain ⟨uuid, isLast, rfl⟩ := h
  exact congrArg some (x.factory_uid q)

theorem pipelineName : job.spec.pipelineName = q.name := by
  obtain ⟨uuid, isLast, rfl⟩ := h
  exact congrArg Pipeline.name (x.factory_pipeline q)

theorem ns (hns : job.metadata.ns ≠ "") : job.metadata.ns = id.jobNamespace := by
  obtain ⟨uuid, isLast, rfl⟩ := h
  exact x.factory_ns q hns

theorem labels : job.metadata.labels = (x.factory q).pipelineJobLabels (x.hash env) := by
  obtain ⟨uuid, isLast, rfl⟩ := h
  exact congrArg (x.factory q).pipelineJobLabels (x.factory_objHash q)

theorem selected
    (hkeys : (x.factory q).KeepsLabels (x.hash env) PipelineFactory.selectingKeys) :
    Selector.fromSet id.selectorLabels job.metadata.labels = true := by
  have hpromise := hkeys.lookup (show Label.promiseName ∈ _ by decide)
  have htype := hkeys.lookup (show Label.workflowType ∈ _ by decide)
  have hname := hkeys.lookup (show Label.resourceName ∈ _ by decide)
  rw [PipelineFactory.lookup_promiseName, x.factory_promiseName] at hpromise
  rw [PipelineFactory.lookup_workflowType, x.factory_workflowType] at htype
  rw [PipelineFactory.lookup_resourceName, x.factory_resourceName] at hname
  rw [h.labels, Selector.fromSet_iff]
  intro key v hv
  cases p with
  | promise =>
    simp only [Identity.selectorLabels, Labels.lookup_ofList_cons, Labels.lookup_ofList_nil] at hv
    split_ifs at hv with h₁ h₂
    · rw [h₁, htype, ← hv]; rfl
    · rw [h₂, hpromise, ← hv]; rfl
  | resource n =>
    simp only [Identity.selectorLabels, Labels.lookup_ofList_cons, Labels.lookup_ofList_nil] at hv
    split_ifs at hv with h₁ h₂ h₃
    · rw [h₁, htype, ← hv]; rfl
    · rw [h₂, hname, ← hv]; rfl
    · rw [h₃, hpromise, ← hv]; rfl

end Makes

/-! ### Generated resources -/

theorem key_ne_pipelineJob {c : Cluster scheme} {uuid : String} (h : IsFresh c uuid)
    (f : PipelineFactory) (isLast : Bool) : ∀ j ∈ c.objects .job, j.key ≠ (f.pipelineJob env uuid isLast).key := by
  intro j hj hkey
  apply h.1 j hj
  rw [show j.metadata.name = f.pipelineJobName uuid from congrArg Prod.snd hkey]
  simp only [PipelineFactory.pipelineJobName, generateObjectName, String.toList_append]
  exact List.suffix_append _ _

theorem resourcesNamed_ok {f : PipelineFactory} {isLast : Bool} {uuid : String}
    {res : PipelineJobResources} (h : f.resourcesNamed env isLast uuid = .ok res) :
    res.name = f.pipeline.name ∧ res.job = f.pipelineJob env uuid isLast := by
  unfold PipelineFactory.resourcesNamed at h
  cases hr : f.role env with
  | error e => rw [hr] at h; cases h
  | ok roles =>
    rw [hr] at h
    cases h
    exact ⟨rfl, rfl⟩

/-- The resources of a factory, with a Job whose name is not in use. -/
def Generated (env : Externals) (s : World) (f : PipelineFactory) (res : PipelineJobResources) :
    Prop :=
  ∃ isLast uuid, IsFresh s.cluster uuid ∧ f.resourcesNamed env isLast uuid = .ok res

theorem exec_generateResources {s t : World} {fs : List PipelineFactory}
    {r : Except Failure (List PipelineJobResources)}
    (he : Exec (faulty env) (generateResources env fs) s r t) :
    t = s ∧ ∀ rs, r = .ok rs → List.Forall₂ (Generated env s) fs rs := by
  induction fs generalizing r t with
  | nil =>
    obtain ⟨rfl, rfl⟩ := he
    refine ⟨rfl, fun rs h => ?_⟩
    cases h
    exact .nil
  | cons f fs ih =>
    obtain ⟨a, u, hf, htail⟩ := exec_bind.mp he
    obtain ⟨uuid, v, huuid, ha⟩ := exec_bind.mp hf
    obtain ⟨hfresh, hv⟩ := exec_perform.mp huuid
    obtain ⟨ha, hu⟩ := exec_pure.mp ha
    rw [hu, hv] at htail
    cases a with
    | error e =>
      obtain ⟨rfl, rfl⟩ := htail
      exact ⟨rfl, fun rs h => by cases h⟩
    | ok res =>
      obtain ⟨b, w, hrest, hend⟩ := exec_bind.mp htail
      obtain ⟨hw, hforall⟩ := ih hrest
      rw [hw] at hend
      cases b with
      | error e =>
        obtain ⟨rfl, rfl⟩ := hend
        exact ⟨rfl, fun rs h => by cases h⟩
      | ok rs =>
        obtain ⟨rfl, rfl⟩ := hend
        refine ⟨rfl, fun rs' h => ?_⟩
        cases h
        exact .cons ⟨_, uuid, hfresh, ha.symm⟩ (hforall rs rfl)

/-- The resources with which a call reconciles, one per pipeline. -/
def Prepared (env : Externals) (x : Trigger id) (s : World) (resources : List PipelineJobResources) :
    Prop :=
  List.Forall₂ (Generated env s) (x.pipelines.map x.factory) resources

/-- The keys whose values tell whether a Job is one of a pipeline. -/
def runKeys : List String :=
  [Label.resourceHash, Label.workflowType, Label.workflowAction, Label.pipelineHash,
    Label.pipelineName]

/-- The Job is, by its labels, one of this pipeline at the current hash. -/
def Trigger.IsFor (env : Externals) (x : Trigger id) (q : Pipeline) (job : Job) : Prop :=
  ∀ key ∈ runKeys, job.metadata.labels.value key =
    ((x.factory q).pipelineJobLabels (x.hash env)).value key

theorem Makes.isFor_iff {x : Trigger id} {q : Pipeline} {res : PipelineJobResources} {job : Job}
    (h : Makes env x q res.job) : jobIsForPipeline res job = true ↔ x.IsFor env q job := by
  simp [jobIsForPipeline, Trigger.IsFor, runKeys, h.labels, and_assoc]

namespace Prepared

variable {x : Trigger id} {s : World} {resources : List PipelineJobResources}
  (h : Prepared env x s resources)

include h

theorem length_eq : resources.length = x.pipelines.length := by
  rw [← List.Forall₂.length_eq h, List.length_map]

theorem getElem? {i : ℕ} {res : PipelineJobResources} (hi : resources[i]? = some res) :
    ∃ q, x.pipelines[i]? = some q ∧ res.name = q.name ∧ Makes env x q res.job ∧
      ∀ j ∈ s.cluster.objects .job, j.key ≠ res.job.key := by
  obtain ⟨hlt, rfl⟩ := List.getElem?_eq_some_iff.mp hi
  have hlt' : i < x.pipelines.length := h.length_eq ▸ hlt
  obtain ⟨isLast, uuid, hfresh, hok⟩ :=
    (List.forall₂_iff_get.mp h).2 i (by simpa using hlt') hlt
  simp only [List.get_eq_getElem, List.getElem_map] at hok
  obtain ⟨hname, hjob⟩ := resourcesNamed_ok hok
  refine ⟨x.pipelines[i], List.getElem?_eq_getElem hlt', ?_, ⟨uuid, isLast, hjob⟩, ?_⟩
  · rw [hname, x.factory_pipeline]
  · rw [hjob]
    exact key_ne_pipelineJob hfresh _ _

theorem mem {res : PipelineJobResources} (hr : res ∈ resources) :
    ∃ q ∈ x.pipelines, res.name = q.name ∧ Makes env x q res.job ∧
      ∀ j ∈ s.cluster.objects .job, j.key ≠ res.job.key := by
  obtain ⟨i, hi⟩ := List.mem_iff_getElem?.mp hr
  obtain ⟨q, hq, hrest⟩ := h.getElem? hi
  exact ⟨q, List.mem_of_getElem? hq, hrest⟩

theorem exists_of_mem {q : Pipeline} (hq : q ∈ x.pipelines) :
    ∃ res ∈ resources, res.name = q.name ∧ Makes env x q res.job := by
  obtain ⟨i, hlt, rfl⟩ := List.mem_iff_getElem.mp hq
  have hlt' : i < resources.length := h.length_eq ▸ hlt
  have hi : resources[i]? = some resources[i] := List.getElem?_eq_getElem hlt'
  obtain ⟨q, hq, hname, hmakes, -⟩ := h.getElem? hi
  rw [List.getElem?_eq_getElem hlt] at hq
  cases hq
  exact ⟨_, List.mem_of_getElem? hi, hname, hmakes⟩

end Prepared

end Kratix.Workflow
