import Kratix.Controllers.Promise
import Kratix.Workflow.Ownership

/-!
# Finding the Job of a pipeline again

The labels of a Job are put together by the pipeline factory, and read by the
workflow reconciler, by its cleanup and by the deletion of the parent. The labels
that the user gives to the pipeline come last and may replace all others.
-/

namespace Kratix

open Apiserver Workflow

/-- The Promise that the parent object is, or says it belongs to. -/
def Workflow.Opts.promiseName {p : ParentKind} (opts : Opts p) : String :=
  match opts.workflowType with
  | .resource => opts.parentObject.metadata.labels.value Label.promiseName
  | .promise => opts.parentObject.metadata.name

theorem fromSet_labelsForJobs_iff {p : ParentKind} (opts : Opts p) {labels : Labels} :
    Selector.fromSet (labelsForJobs opts) labels = true ↔
      labels.lookup Label.workflowType = some opts.workflowType.text ∧
      labels.lookup Label.promiseName = some opts.promiseName ∧
      (opts.workflowType = .resource →
        labels.lookup Label.resourceName = some opts.parentObject.metadata.name) := by
  unfold labelsForJobs Opts.promiseName
  cases opts.workflowType with
  | resource =>
    have hkeys : [Label.workflowType, Label.resourceName, Label.promiseName].Nodup := by decide
    rw [Selector.fromSet_ofList_iff (by exact hkeys)]
    simp only [List.forall_mem_cons, List.not_mem_nil, false_imp_iff, implies_true, and_true,
      true_imp_iff]
    exact and_congr_right fun _ => and_comm
  | promise =>
    have hkeys : [Label.workflowType, Label.promiseName].Nodup := by decide
    rw [Selector.fromSet_ofList_iff (by exact hkeys)]
    simp

theorem fromSet_promiseJobLabels_iff {promise : Promise} {labels : Labels} :
    Selector.fromSet (PromiseReconciler.promiseJobLabels promise) labels = true ↔
      labels.lookup Label.promiseName = some promise.metadata.name ∧
      labels.lookup Label.workflowType = some WorkflowType.promise.text := by
  have hkeys : [Label.promiseName, Label.workflowType].Nodup := by decide
  rw [PromiseReconciler.promiseJobLabels, Selector.fromSet_ofList_iff (by exact hkeys)]
  simp

theorem fromSet_jobLabels_iff {r : DynamicResourceRequestController} {rr : ResourceRequest}
    {labels : Labels} : Selector.fromSet (r.jobLabels rr) labels = true ↔
      labels.lookup Label.promiseName = some r.promiseIdentifier ∧
      labels.lookup Label.resourceName = some rr.metadata.name ∧
      labels.lookup Label.workflowType = some WorkflowType.resource.text := by
  have hkeys : [Label.promiseName, Label.resourceName, Label.workflowType].Nodup := by decide
  rw [DynamicResourceRequestController.jobLabels, Selector.fromSet_ofList_iff (by exact hkeys)]
  simp

namespace PipelineFactory

variable {env : Externals} {f : PipelineFactory} {res : PipelineJobResources} {isLast : Bool}
  {uuid : String}

/-- How the factory of a pipeline is made. The controller labels a resource
request with its Promise before it runs the configure workflow. -/
inductive Built : PipelineFactory → Prop
  | promise (q : Pipeline) (promise : Promise) (action : Action) :
      Built (q.forPromise promise action)
  | resource (q : Pipeline) (promise : Promise) (action : Action) (rr : ResourceRequest)
      (label : action = .configure →
        rr.metadata.labels.value Label.promiseName = promise.metadata.name) :
      Built (q.forResource promise action rr)

/-- The reconciler works for the parent of the factory. -/
def IsParent (f : PipelineFactory) {p : ParentKind} (opts : Opts p) : Prop :=
  opts.workflowType = f.workflowType ∧ opts.parentObject.metadata = f.objMeta

/-- The reconciler works for a parent of the same type and names, in any namespace. -/
def SameNames (f : PipelineFactory) {p : ParentKind} (opts : Opts p) : Prop :=
  opts.workflowType = f.workflowType ∧ opts.promiseName = f.promiseName ∧
    ∀ rr, f.resourceRequest = some rr → opts.parentObject.metadata.name = rr.metadata.name

/-- All who look for the Job find it, no other parent does, and it carries the
hash of the specification that it was built from. -/
structure Found (env : Externals) (others : Set (Σ p, Opts p)) (f : PipelineFactory)
    (res : PipelineJobResources) : Prop where
  reconcile : f.workflowAction = .configure → ∀ {p : ParentKind} (opts : Opts p), f.IsParent opts →
    Selector.fromSet (labelsForJobs opts) res.job.metadata.labels = true
  cleanup : Selector.fromSet (cleanupLabels res) res.job.metadata.labels = true
  promiseDeletion : f.resourceRequest = none →
    Selector.fromSet (PromiseReconciler.promiseJobLabels f.promise) res.job.metadata.labels = true
  requestDeletion : ∀ rr (r : DynamicResourceRequestController), f.resourceRequest = some rr →
    r.promiseIdentifier = f.promiseName →
    Selector.fromSet (r.jobLabels rr) res.job.metadata.labels = true
  others : ∀ x ∈ others, Selector.fromSet (labelsForJobs x.2) res.job.metadata.labels = false
  hash : res.job.metadata.labels.value Label.resourceHash = f.objHash env
  stale : ∀ current : PipelineJobResources,
    current.job.metadata.labels.value Label.resourceHash ≠ f.objHash env →
    jobIsForPipeline current res.job = false

def findingKeys (f : PipelineFactory) : List String :=
  [Label.promiseName, Label.workflowType, Label.pipelineName, Label.resourceHash] ++
    if f.resourceRequest.isSome then [Label.resourceName] else []

/-- Where the pipeline has one of the labels, it has the value that Kratix gives to it. -/
def AgreesOn (f : PipelineFactory) (sha : String) (keys : List String) : Prop :=
  ∀ key ∈ keys, ∀ v, f.pipeline.labels.lookup key = some v → v = (f.ownLabels sha).value key

/-- A pipeline without a name has to say so itself. -/
def NameLabelled (f : PipelineFactory) : Prop :=
  f.pipeline.name = "" → f.pipeline.labels.lookup Label.pipelineName = some ""

variable {sha : String}

theorem lookup_pipelineJobLabels (key : String) : (f.pipelineJobLabels sha).lookup key =
    (f.pipeline.labels.lookup key).or ((f.ownLabels sha).lookup key) :=
  Labels.lookup_merge _ _ _

theorem AgreesOn.value_eq {keys : List String} (h : f.AgreesOn sha keys) {key : String}
    (hkey : key ∈ keys) :
    (f.pipelineJobLabels sha).value key = (f.ownLabels sha).value key := by
  rw [Labels.value, lookup_pipelineJobLabels]
  cases hv : f.pipeline.labels.lookup key with
  | none => rfl
  | some v => exact h key hkey v hv

theorem AgreesOn.lookup_eq {keys : List String} (h : f.AgreesOn sha keys) {key w : String}
    (hkey : key ∈ keys) (hown : (f.ownLabels sha).lookup key = some w) :
    (f.pipelineJobLabels sha).lookup key = some w := by
  have hvalue := h.value_eq hkey
  rw [Labels.value, Labels.value, hown, lookup_pipelineJobLabels, hown] at hvalue
  rw [lookup_pipelineJobLabels, hown]
  cases hv : f.pipeline.labels.lookup key with
  | none => rfl
  | some v =>
    rw [hv] at hvalue
    exact congrArg some hvalue

theorem eq_of_value_eq {key v : String}
    (h : (f.pipelineJobLabels sha).value key = (f.ownLabels sha).value key)
    (hv : f.pipeline.labels.lookup key = some v) : v = (f.ownLabels sha).value key := by
  rw [Labels.value, lookup_pipelineJobLabels, hv] at h
  exact h

theorem value_of_lookup {l : Labels} {key v : String} (h : l.lookup key = some v) :
    l.value key = v := by
  rw [Labels.value, h]
  rfl

/-- The cleanup asks for the Job's own labels, and for the name of the pipeline. -/
theorem fromSet_cleanupLabels_iff (hpromise : ∃ v, res.job.metadata.labels.lookup
      Label.promiseName = some v) :
    Selector.fromSet (cleanupLabels res) res.job.metadata.labels = true ↔
      res.job.metadata.labels.lookup Label.pipelineName = some res.name := by
  obtain ⟨v, hv⟩ := hpromise
  rw [Selector.fromSet_iff]
  unfold cleanupLabels
  constructor
  · intro h
    exact h _ _ (AList.lookup_insert _)
  · intro h key w hw
    rw [Labels.lookup_insert] at hw
    by_cases hkey : key = Label.pipelineName
    · rw [if_pos hkey] at hw
      rw [hkey, h, hw]
    rw [if_neg hkey] at hw
    unfold labelsForAllPipelineJobs at hw
    have hone {key w : String} (h : (Labels.ofList [(Label.promiseName,
        res.job.metadata.labels.value Label.promiseName)]).lookup key = some w) :
        res.job.metadata.labels.lookup key = some w := by
      rw [Labels.lookup_ofList_cons, Labels.lookup_ofList_nil] at h
      by_cases hk : key = Label.promiseName
      · rw [if_pos hk, value_of_lookup hv] at h
        rw [hk, hv, h]
      · rw [if_neg hk] at h
        cases h
    simp only at hw
    split at hw
    · exact hone hw
    · next hname =>
      rw [Labels.lookup_insert] at hw
      by_cases hk : key = Label.resourceName
      · rw [if_pos hk] at hw
        rw [hk, ← hw]
        cases hl : res.job.metadata.labels.lookup Label.resourceName with
        | none => exact absurd (by rw [Labels.value, hl]; rfl) hname
        | some w' => rw [value_of_lookup hl]
      · rw [if_neg hk] at hw
        exact hone hw

/-- The labels name the pipeline and its parent, and carry the hash. -/
structure Named (f : PipelineFactory) (sha : String) (labels : Labels) : Prop where
  promiseName : labels.lookup Label.promiseName = some f.promiseName
  workflowType : labels.lookup Label.workflowType = some f.workflowType.text
  resourceName : ∀ rr, f.resourceRequest = some rr →
    labels.lookup Label.resourceName = some rr.metadata.name
  pipelineName : labels.lookup Label.pipelineName = some f.pipeline.name
  hash : labels.value Label.resourceHash = sha

theorem mem_findingKeys {key : String} : key ∈ f.findingKeys ↔
    key ∈ [Label.promiseName, Label.workflowType, Label.pipelineName, Label.resourceHash] ∨
      ∃ rr, f.resourceRequest = some rr ∧ key = Label.resourceName := by
  unfold findingKeys
  cases f.resourceRequest <;> simp [or_assoc]

theorem Named.agreesOn (h : f.Named sha (f.pipelineJobLabels sha)) :
    f.AgreesOn sha f.findingKeys := by
  intro key hkey v hv
  refine eq_of_value_eq ?_ hv
  obtain hkey | ⟨rr, hrr, rfl⟩ := mem_findingKeys.mp hkey
  · simp only [List.mem_cons, List.not_mem_nil, or_false] at hkey
    obtain rfl | rfl | rfl | rfl := hkey
    · rw [value_of_lookup h.promiseName, value_of_lookup lookup_promiseName]
    · rw [value_of_lookup h.workflowType, value_of_lookup lookup_workflowType]
    · rw [value_of_lookup h.pipelineName, value_pipelineName]
    · rw [h.hash, value_resourceHash]
  · have hown : (f.ownLabels sha).lookup Label.resourceName = some rr.metadata.name := by
      rw [lookup_resourceName, hrr]
      rfl
    rw [value_of_lookup (h.resourceName rr hrr), value_of_lookup hown]

theorem Named.nameLabelled (h : f.Named sha (f.pipelineJobLabels sha)) : f.NameLabelled := by
  intro hname
  have hlookup := h.pipelineName
  have hown : (f.ownLabels sha).lookup Label.pipelineName = none := by
    rw [lookup_ownLabels]
    simp [hname, Label.promiseName, Label.resourceHash, Label.resourceName, Label.managedBy,
      Label.workflowAction, Label.pipelineName, Label.workflowType]
  rw [lookup_pipelineJobLabels, hown, Option.or_none, hname] at hlookup
  exact hlookup

theorem lookup_pipelineName (h : f.pipeline.name ≠ "") :
    (f.ownLabels sha).lookup Label.pipelineName = some f.pipeline.name := by
  rw [lookup_ownLabels]
  simp [h, Label.resourceHash, Label.resourceName, Label.managedBy, Label.workflowAction,
    Label.pipelineName]

theorem named_of_agreesOn (h : f.AgreesOn sha f.findingKeys) (hname : f.NameLabelled) :
    f.Named sha (f.pipelineJobLabels sha) where
  promiseName := h.lookup_eq (mem_findingKeys.mpr (.inl (by simp))) lookup_promiseName
  workflowType := h.lookup_eq (mem_findingKeys.mpr (.inl (by simp))) lookup_workflowType
  resourceName := by
    intro rr hrr
    refine h.lookup_eq (mem_findingKeys.mpr (.inr ⟨rr, hrr, rfl⟩)) ?_
    rw [lookup_resourceName, hrr]
    rfl
  pipelineName := by
    by_cases hempty : f.pipeline.name = ""
    · rw [lookup_pipelineJobLabels, hname hempty, hempty]
      rfl
    · exact h.lookup_eq (mem_findingKeys.mpr (.inl (by simp))) (lookup_pipelineName hempty)
  hash := by
    rw [h.value_eq (mem_findingKeys.mpr (.inl (by simp))), value_resourceHash]

theorem named_iff : f.Named sha (f.pipelineJobLabels sha) ↔
    f.AgreesOn sha f.findingKeys ∧ f.NameLabelled :=
  ⟨fun h => ⟨h.agreesOn, h.nameLabelled⟩, fun h => named_of_agreesOn h.1 h.2⟩

theorem Built.workflowType_eq (h : Built f) :
    f.workflowType = .resource ↔ ∃ rr, f.resourceRequest = some rr := by
  cases h with
  | promise q promise action => simp [Pipeline.forPromise]
  | resource q promise action rr label => simp [Pipeline.forResource]

theorem Built.sameNames (h : Built f) (hconfigure : f.workflowAction = .configure)
    {p : ParentKind} {opts : Opts p} (hp : f.IsParent opts) : f.SameNames opts := by
  obtain ⟨htype, hmeta⟩ := hp
  refine ⟨htype, ?_⟩
  cases h with
  | promise q promise action =>
    refine ⟨?_, fun rr hrr => by cases hrr⟩
    rw [Opts.promiseName, htype, hmeta]
    rfl
  | resource q promise action rr label =>
    refine ⟨?_, fun rr' hrr => ?_⟩
    · rw [Opts.promiseName, htype, hmeta]
      exact label hconfigure
    · cases hrr
      rw [hmeta]
      rfl

/-- The reconciler of a parent selects a well-named Job if it has its names. -/
theorem Named.fromSet_labelsForJobs_iff {labels : Labels} (hb : Built f)
    (h : f.Named sha labels) {p : ParentKind} {opts : Opts p} :
    Selector.fromSet (labelsForJobs opts) labels = true ↔ f.SameNames opts := by
  rw [Kratix.fromSet_labelsForJobs_iff, h.workflowType, h.promiseName]
  simp only [Option.some.injEq]
  constructor
  · rintro ⟨htype, hpromise, hresource⟩
    have htype := WorkflowType.text_injective htype
    refine ⟨htype.symm, hpromise.symm, fun rr hrr => ?_⟩
    have hname := hresource (htype ▸ hb.workflowType_eq.mpr ⟨rr, hrr⟩)
    rw [h.resourceName rr hrr] at hname
    exact (Option.some.inj hname).symm
  · rintro ⟨htype, hpromise, hresource⟩
    refine ⟨congrArg _ htype.symm, hpromise.symm, fun hr => ?_⟩
    obtain ⟨rr, hrr⟩ := hb.workflowType_eq.mp (htype ▸ hr)
    rw [h.resourceName rr hrr, hresource rr hrr]

theorem labels_of_resourcesNamed (h : f.resourcesNamed env isLast uuid = .ok res) :
    res.job.metadata.labels = f.pipelineJobLabels (f.objHash env) := by
  rw [(Workflow.resourcesNamed_ok h).2]
  rfl

theorem Found.named {others : Set (Σ p, Opts p)} (hb : Built f)
    (hres : f.resourcesNamed env isLast uuid = .ok res) (h : Found env others f res) :
    f.Named (f.objHash env) res.job.metadata.labels := by
  have hpromise : ∃ v, res.job.metadata.labels.lookup Label.promiseName = some v := by
    rw [labels_of_resourcesNamed hres, lookup_pipelineJobLabels, lookup_promiseName]
    cases f.pipeline.labels.lookup Label.promiseName with
    | none => exact ⟨_, rfl⟩
    | some v => exact ⟨v, rfl⟩
  have hpipeline := (fromSet_cleanupLabels_iff hpromise).mp h.cleanup
  rw [(Workflow.resourcesNamed_ok hres).1] at hpipeline
  cases hb with
  | promise q promise action =>
    obtain ⟨hname, htype⟩ := fromSet_promiseJobLabels_iff.mp (h.promiseDeletion rfl)
    refine ⟨hname, htype, fun rr hrr => ?_, hpipeline, h.hash⟩
    cases hrr
  | resource q promise action rr label =>
    obtain ⟨hname, hrr, htype⟩ := fromSet_jobLabels_iff.mp
      (h.requestDeletion rr ⟨promise.metadata.name, true, true, 0, 0⟩ rfl rfl)
    refine ⟨hname, htype, fun rr' hrr' => ?_, hpipeline, h.hash⟩
    cases hrr'
    exact hrr

theorem Named.found {others : Set (Σ p, Opts p)} (hb : Built f)
    (hres : f.resourcesNamed env isLast uuid = .ok res)
    (h : f.Named (f.objHash env) res.job.metadata.labels)
    (hothers : ∀ x ∈ others, ¬ f.SameNames x.2) : Found env others f res where
  reconcile hconfigure _ _ hp := (h.fromSet_labelsForJobs_iff hb).mpr (hb.sameNames hconfigure hp)
  cleanup := by
    rw [fromSet_cleanupLabels_iff ⟨_, h.promiseName⟩, (Workflow.resourcesNamed_ok hres).1]
    exact h.pipelineName
  promiseDeletion hnone := by
    refine fromSet_promiseJobLabels_iff.mpr ⟨h.promiseName, ?_⟩
    cases hb with
    | promise q promise action => exact h.workflowType
    | resource q promise action rr label => cases hnone
  requestDeletion rr r hrr hr := by
    refine fromSet_jobLabels_iff.mpr ⟨hr ▸ h.promiseName, h.resourceName rr hrr, ?_⟩
    rw [h.workflowType, hb.workflowType_eq.mpr ⟨rr, hrr⟩]
  others x hx := by
    rw [← Bool.not_eq_true, h.fromSet_labelsForJobs_iff hb]
    exact hothers x hx
  hash := h.hash
  stale current hcurrent := by
    have hne : (res.job.metadata.labels.value Label.resourceHash ==
        current.job.metadata.labels.value Label.resourceHash) = false := by
      rw [h.hash, beq_eq_false_iff_ne]
      exact hcurrent.symm
    simp [jobIsForPipeline, hne]

/-- The Job of a pipeline is found again exactly if the labels of the pipeline
leave those alone by which it is found, and no other parent has the same names. -/
theorem found_iff_agreesOn (env : Externals) (others : Set (Σ p, Opts p)) (f : PipelineFactory)
    (hb : Built f) (isLast : Bool) (uuid : String) (res : PipelineJobResources)
    (hres : f.resourcesNamed env isLast uuid = .ok res) :
    Found env others f res ↔ f.AgreesOn (f.objHash env) f.findingKeys ∧ f.NameLabelled ∧
      ∀ x ∈ others, ¬ f.SameNames x.2 := by
  rw [← and_assoc, ← named_iff, ← labels_of_resourcesNamed hres]
  constructor
  · intro h
    have hnamed := h.named hb hres
    refine ⟨hnamed, fun x hx hsame => ?_⟩
    have hfound := (hnamed.fromSet_labelsForJobs_iff hb).mpr hsame
    rw [h.others x hx] at hfound
    cases hfound
  · rintro ⟨hnamed, hothers⟩
    exact hnamed.found hb hres hothers

/-- A pipeline of the Promise with the given labels. -/
def labelledPipeline (labels : Labels) : PipelineFactory :=
  Pipeline.forPromise { name := "install", labels := labels }
    { metadata := { name := "redis" }, spec := {}, status := {} } .configure

def redisOpts : Opts .promise where
  parentObject := { metadata := { name := "redis" }, spec := {}, status := {} }
  resources := []
  workflowType := .promise
  numberOfJobsToKeep := 5

def replacingType : Labels := Labels.ofList [(Label.workflowType, "custom")]

theorem exists_labelledPipeline (labels : Labels) : ∃ res : PipelineJobResources,
    (labelledPipeline labels).resourcesNamed plainExternals true "abcde" = .ok res :=
  exists_resources_iff.mpr fun h => by cases h

/-- A valid label of the pipeline replaces the type of the workflow: neither the
reconciler nor the deletion of the Promise find the Job. -/
theorem replaced_type_hides_job : replacingType.Valid ∧ ∃ res : PipelineJobResources,
    (labelledPipeline replacingType).resourcesNamed plainExternals true "abcde" = .ok res ∧
    (labelledPipeline replacingType).IsParent redisOpts ∧
    Selector.fromSet (labelsForJobs redisOpts) res.job.metadata.labels = false ∧
    Selector.fromSet (PromiseReconciler.promiseJobLabels (labelledPipeline replacingType).promise)
      res.job.metadata.labels = false := by
  obtain ⟨res, hres⟩ := exists_labelledPipeline replacingType
  refine ⟨by decide +kernel, res, hres, ⟨rfl, rfl⟩, ?_⟩
  rw [labels_of_resourcesNamed hres]
  decide +kernel

/-- Without labels of its own, the pipeline's Job is found by those of its Promise only. -/
theorem found_iff_agreesOn_sample : ∃ res : PipelineJobResources,
    Found plainExternals ∅ (labelledPipeline ∅) res := by
  obtain ⟨res, hres⟩ := exists_labelledPipeline ∅
  refine ⟨res, (found_iff_agreesOn plainExternals ∅ _ (.promise _ _ _) true "abcde" res hres).mpr
    ⟨?_, ?_, ?_⟩⟩
  · intro key _ v hv
    exact absurd ((AList.lookup_empty key).symm.trans hv) (Option.some_ne_none v).symm
  · intro hname
    exact absurd hname (by decide)
  · intro x hx
    exact hx.elim

end PipelineFactory

end Kratix
