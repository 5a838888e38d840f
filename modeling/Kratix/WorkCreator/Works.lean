import Kratix.Controllers.DynamicResourceRequest
import Kratix.WorkCreator.Execute

/-!
# One Work for each pipeline

A Work is found again by its namespace and its labels only; its name is random.
`workID` reads from a Work which pipeline it belongs to. The invariant of the
executions is that the stored Works have the labels of some pipeline each, and
no two of them those of the same one.
-/

namespace Kratix

open Apiserver Effect GoPath

namespace WorkCreator

variable {env : Externals} {args : WorkCreatorArgs} {root : FileTree Bytes} {s t : World}

/-- What a Work is for. -/
structure WorkID where
  ns : String
  promiseName : String
  resourceName : String
  workflowType : String
  pipelineName : String
  deriving DecidableEq

/-- As it is written on a Work. -/
def workID (w : Work) : WorkID where
  ns := w.metadata.ns
  promiseName := w.metadata.labels.value Label.promiseName
  resourceName := w.metadata.labels.value Label.resourceName
  workflowType := w.metadata.labels.value Label.workType
  pipelineName := w.metadata.labels.value Label.pipelineName

/-- As it is passed to the work creator. -/
def argsID (args : WorkCreatorArgs) : WorkID where
  ns := ns args
  promiseName := args.promiseName
  resourceName := args.resourceName
  workflowType := args.workflowType.text
  pipelineName := args.pipelineName

/-- Arguments that the factory gives to the work creator. -/
inductive FromFactory : WorkCreatorArgs → Prop
  | promise (pipeline : Pipeline) (promise : Promise) (action : Action) :
      FromFactory (pipeline.forPromise promise action).workCreatorArgs
  | resource (pipeline : Pipeline) (promise : Promise) (action : Action) (rr : ResourceRequest) :
      FromFactory (pipeline.forResource promise action rr).workCreatorArgs

structure LabelValues (args : WorkCreatorArgs) : Prop where
  promiseName : isValidLabelValue args.promiseName = true
  resourceName : isValidLabelValue args.resourceName = true
  pipelineName : isValidLabelValue args.pipelineName = true

/-- The pipeline, and for a resource workflow the resource, has a name. -/
structure Named (args : WorkCreatorArgs) : Prop where
  pipelineName : args.pipelineName ≠ ""
  resourceName : args.workflowType = .resource → args.resourceName ≠ ""

/-- The arguments of a call. -/
structure Passed (args : WorkCreatorArgs) : Prop where
  factory : FromFactory args
  values : LabelValues args
  named : Named args

namespace FromFactory

theorem resourceName (h : FromFactory args) (hp : args.workflowType = .promise) :
    args.resourceName = "" := by
  cases h with
  | promise => rfl
  | resource => cases hp

theorem workNamespace_eq (h : FromFactory args) : workNamespace args = ns args := by
  cases h <;> rfl

end FromFactory

/-! ### Labels -/

theorem lookup_getWorkLabels (promiseName resourceName pipelineName workType key : String) :
    (getWorkLabels promiseName resourceName pipelineName workType).lookup key =
      if key = Label.resourceName ∧ resourceName ≠ "" then some resourceName
      else if key = Label.pipelineName ∧ pipelineName ≠ "" then some pipelineName
      else if key = Label.promiseName then some promiseName
      else if key = Label.workType then some workType
      else none := by
  by_cases hr : resourceName = "" <;> by_cases hp : pipelineName = "" <;>
    simp [getWorkLabels, hr, hp, Labels.lookup_insert]

/-- The label that Works of Promise workflows have besides is one of these. -/
theorem lookup_workLabels (args : WorkCreatorArgs) (key : String) :
    (workLabels args).lookup key =
      (getWorkLabels args.promiseName args.resourceName args.pipelineName
        args.workflowType.text).lookup key := by
  unfold workLabels
  rw [Labels.lookup_merge]
  cases hv : (getWorkLabels args.promiseName args.resourceName args.pipelineName
      args.workflowType.text).lookup key with
  | some v => rfl
  | none =>
    rw [lookup_getWorkLabels] at hv
    have hkey : key ≠ Label.promiseName := by
      rintro rfl
      simp [Label.promiseName, Label.resourceName, Label.pipelineName] at hv
    cases args.workflowType with
    | resource => rfl
    | promise => simp [promiseNameLabel, hkey]

theorem workLabels_ne_empty (args : WorkCreatorArgs) : workLabels args ≠ ∅ := by
  intro h
  have hlookup := lookup_workLabels args Label.promiseName
  rw [h, lookup_getWorkLabels] at hlookup
  simp [Label.promiseName, Label.resourceName, Label.pipelineName] at hlookup

theorem valid_workLabels (h : LabelValues args) : (workLabels args).Valid := by
  rw [Labels.valid_iff]
  intro key v hv
  rw [lookup_workLabels, lookup_getWorkLabels] at hv
  split_ifs at hv with h₁ h₂ h₃ h₄ <;> cases hv
  · exact ⟨h₁.1 ▸ by decide, h.resourceName⟩
  · exact ⟨h₂.1 ▸ by decide, h.pipelineName⟩
  · exact ⟨h₃ ▸ by decide, h.promiseName⟩
  · refine ⟨h₄ ▸ by decide, ?_⟩
    cases args.workflowType <;> decide

theorem parse_workLabels (h : LabelValues args) :
    env.parseLabels (workLabels args) = some (Selector.fromSet (workLabels args)) :=
  env.parseLabels_of_valid (workLabels_ne_empty args) (valid_workLabels h)

/-- A Work with the namespace and labels of a call. -/
structure IsFor (args : WorkCreatorArgs) (w : Work) : Prop where
  ns : w.metadata.ns = ns args
  labels : w.metadata.labels = workLabels args

theorem IsFor.workID_eq {w : Work} (h : IsFor args w) : workID w = argsID args := by
  unfold workID argsID Labels.value
  rw [h.ns, h.labels]
  simp only [lookup_workLabels, lookup_getWorkLabels]
  by_cases hp : args.pipelineName = "" <;> by_cases hr : args.resourceName = "" <;>
    simp [hp, hr, Label.promiseName, Label.resourceName, Label.pipelineName, Label.workType]

theorem IsFor.of_workID {args' : WorkCreatorArgs} {w : Work} (h : IsFor args' w)
    (hid : workID w = argsID args) : IsFor args w := by
  rw [h.workID_eq] at hid
  obtain ⟨h₁, h₂, h₃, h₄, h₅⟩ := WorkID.mk.injEq .. ▸ hid
  refine ⟨h.ns.trans h₁, h.labels.trans ?_⟩
  unfold workLabels
  rw [h₂, h₃, h₅, WorkflowType.text_injective h₄]

/-- The labels of a call select, among the labels of calls, its own. -/
theorem selects_iff {args' : WorkCreatorArgs} (h : Passed args) (h' : Passed args') :
    Selector.fromSet (workLabels args) (workLabels args') = true ↔
      args'.promiseName = args.promiseName ∧ args'.resourceName = args.resourceName ∧
        args'.workflowType = args.workflowType ∧ args'.pipelineName = args.pipelineName := by
  rw [Selector.fromSet_iff]
  simp only [lookup_workLabels, lookup_getWorkLabels]
  constructor
  · intro hsel
    have hpromise := hsel Label.promiseName args.promiseName (by
      simp [Label.promiseName, Label.resourceName, Label.pipelineName])
    have htype := hsel Label.workType args.workflowType.text (by
      simp [Label.workType, Label.promiseName, Label.resourceName, Label.pipelineName])
    have hpipeline := hsel Label.pipelineName args.pipelineName (by
      simp [Label.resourceName, Label.pipelineName, h.named.pipelineName])
    simp [Label.promiseName, Label.resourceName, Label.pipelineName] at hpromise
    simp [Label.workType, Label.promiseName, Label.resourceName, Label.pipelineName] at htype
    simp [Label.resourceName, Label.pipelineName, h'.named.pipelineName] at hpipeline
    have htype := WorkflowType.text_injective htype
    refine ⟨hpromise, ?_, htype, hpipeline⟩
    cases ht : args.workflowType with
    | promise => rw [h.factory.resourceName ht, h'.factory.resourceName (htype.trans ht)]
    | resource =>
      have hresource := hsel Label.resourceName args.resourceName (by
        simp [h.named.resourceName ht])
      simpa [h'.named.resourceName (htype.trans ht)] using hresource
  · rintro ⟨h₁, h₂, h₃, h₄⟩ key v hv
    rw [h₁, h₂, h₃, h₄]
    exact hv

/-! ### The stored Works -/

/-- Each stored Work is live and that of some call, and different Works belong to
different pipelines. -/
structure Distinct (s : World) : Prop where
  labelled : ∀ w ∈ s.cluster.objects .work, ∃ args, Passed args ∧ IsFor args w
  live : ∀ w ∈ s.cluster.objects .work, w.metadata.deleting = false
  injective : ∀ w ∈ s.cluster.objects .work, ∀ w' ∈ s.cluster.objects .work,
    workID w = workID w' → w = w'

theorem Distinct.mem_listed (hs : Distinct s) (h : Passed args) {sel : Selector}
    (hsel : env.parseLabels (workLabels args) = some sel) {w : Work} :
    w ∈ s.cluster.listed .work (ns args) sel ↔
      w ∈ s.cluster.objects .work ∧ workID w = argsID args := by
  have hns : ns args ≠ "" := by
    unfold ns
    split_ifs with hempty
    · decide
    · exact hempty
  rw [parse_workLabels h.values] at hsel
  cases hsel
  rw [Cluster.mem_listed]
  refine and_congr_right fun hw => ?_
  obtain ⟨args', h', hfor⟩ := hs.labelled w hw
  rw [hfor.ns, hfor.labels, hfor.workID_eq, selects_iff h h']
  simp only [hns, false_or, argsID, WorkID.mk.injEq]
  constructor
  · rintro ⟨h₁, h₂, h₃, h₄, h₅⟩
    exact ⟨h₁, h₂, h₃, congrArg _ h₄, h₅⟩
  · rintro ⟨h₁, h₂, h₃, h₄, h₅⟩
    exact ⟨h₁, h₂, h₃, WorkflowType.text_injective h₄, h₅⟩

/-- The Works after a write: one Work is that of the call, the others stay. -/
theorem Applies.mem_iff {groups : List WorkloadGroup} (happlies : Applies env args groups s t)
    (hs : Distinct s) (h : Passed args) :
    ∃ w : Work, IsFor args w ∧ w.metadata.deleting = false ∧ w.spec.workloadGroups = groups ∧
      ∀ x, x ∈ t.cluster.objects .work ↔
        (x ∈ s.cluster.objects .work ∧ workID x ≠ argsID args) ∨ x = w := by
  cases happlies with
  | creates uuid sel c _ hsel hlisted hadd ht =>
    subst ht
    refine ⟨s.cluster.stamp (k := .work) (newWork args groups uuid),
      ⟨h.factory.workNamespace_eq, rfl⟩, rfl, rfl, fun x => ?_⟩
    rw [World.cluster_withCluster, hadd.mem_iff]
    refine or_congr_left ⟨fun hx => ⟨hx, fun hid => ?_⟩, And.left⟩
    have hmem := (hs.mem_listed h hsel).mpr ⟨hx, hid⟩
    rw [hlisted] at hmem
    cases hmem
  | updates current sel c hsel hlisted hrep ht =>
    subst ht
    have hcurrent : current ∈ s.cluster.listed .work (ns args) sel := by
      rw [hlisted]
      exact List.mem_singleton.mpr rfl
    obtain ⟨hmem, hid⟩ := (hs.mem_listed h hsel).mp hcurrent
    obtain ⟨args', -, hfor⟩ := hs.labelled current hmem
    have hfor := hfor.of_workID hid
    refine ⟨{ current with spec := ⟨groups, args.promiseName, args.resourceName⟩ },
      ⟨hfor.ns, hfor.labels⟩, hs.live current hmem, rfl, fun x => ?_⟩
    rw [World.cluster_withCluster, hrep.mem, Object.settle_of_live, Option.some.injEq,
      @eq_comm _ _ x]
    swap
    · exact hs.live current hmem
    refine or_congr_left (and_congr_right fun hx => not_congr ⟨fun hkey => ?_, fun hx' => ?_⟩)
    · rw [s.cluster.eq_of_key hx hmem hkey]
      exact hid
    · rw [hs.injective x hx current hmem (hx'.trans hid.symm)]

/-! ### Executions one after another -/

def Executes (env : Externals) (s t : World) : Prop :=
  ∃ args root r, Passed args ∧ Exec (faulty env) (execute env args root) s r t

theorem Applies.distinct {groups : List WorkloadGroup} (happlies : Applies env args groups s t)
    (hs : Distinct s) (h : Passed args) : Distinct t := by
  obtain ⟨w, hfor, hlive, -, hmem⟩ := happlies.mem_iff hs h
  refine ⟨fun x hx => ?_, fun x hx => ?_, fun x hx y hy hid => ?_⟩
  · rcases (hmem x).mp hx with ⟨hx, -⟩ | rfl
    · exact hs.labelled x hx
    · exact ⟨args, h, hfor⟩
  · rcases (hmem x).mp hx with ⟨hx, -⟩ | rfl
    · exact hs.live x hx
    · exact hlive
  · rcases (hmem x).mp hx with ⟨hx, hxid⟩ | rfl <;> rcases (hmem y).mp hy with ⟨hy, hyid⟩ | rfl
    · exact hs.injective x hx y hy hid
    · exact absurd (hid.trans hfor.workID_eq) hxid
    · exact absurd (hid.symm.trans hfor.workID_eq) hyid
    · rfl

theorem Distinct.passes (hs : Distinct s) (h : Passed args)
    (hp : Passes (faulty env) (execute env args root) s t) : Distinct t := by
  rcases passes_execute hp with rfl | ⟨groups, -, happlies⟩
  · exact hs
  · exact happlies.distinct hs h

theorem Distinct.run (hs : Distinct s) (hrun : Relation.ReflTransGen (Executes env) s t) :
    Distinct t := by
  induction hrun with
  | refl => exact hs
  | tail _ hstep ih =>
    obtain ⟨args, root, r, h, he⟩ := hstep
    exact ih.passes h he.passes

theorem distinct_of_empty (hempty : s.cluster.objects .work = []) : Distinct s := by
  constructor <;> simp [hempty]

/-! ### The lookups of the Works of a resource -/

/-- The Works listed by valid labels are what the lookup returns if no call fails. -/
theorem exec_getExistingWorks_iff {ns : String} {labels : Labels}
    (hne : labels ≠ ∅) (hvalid : labels.Valid) {r : Except Failure (List Work)} :
    Exec (unfailing env) (getExistingWorks env ns labels) s r t ↔
      r = .ok (s.cluster.listed .work ns (Selector.fromSet labels)) ∧ t = s := by
  simp only [getExistingWorks, env.parseLabels_of_valid hne hvalid]
  constructor
  · intro he
    obtain ⟨a, u, hlist, he⟩ := exec_bind.mp he
    obtain ⟨rfl, rfl⟩ := exec_listObjects_unfailing hlist
    exact he
  · rintro ⟨rfl, rfl⟩
    exact exec_bind.mpr ⟨_, t, answers_listObjects env .work ns _ t, rfl, rfl⟩

/-- If no call fails, the lookup returns one list of Works, and this Work is in it. -/
def Returns (env : Externals) (lookup : Prog (Except Failure (List Work))) (s : World) (w : Work) :
    Prop :=
  ∃ works, w ∈ works ∧ ∀ r t, Exec (unfailing env) lookup s r t ↔ r = .ok works ∧ t = s

theorem IsFor.returns {w : Work} (hfor : IsFor args w) (hvalues : LabelValues args)
    (hw : w ∈ s.cluster.objects .work) {ns : String} (hns : ns = "" ∨ w.metadata.ns = ns)
    {labels : Labels} (hne : labels ≠ ∅)
    (hlabels : ∀ key v, labels.lookup key = some v → (workLabels args).lookup key = some v) :
    Returns env (getExistingWorks env ns labels) s w := by
  have hvalid : labels.Valid := Labels.valid_iff.mpr fun key v hv =>
    Labels.valid_iff.mp (valid_workLabels hvalues) key v (hlabels key v hv)
  refine ⟨_, ?_, fun r t => exec_getExistingWorks_iff hne hvalid⟩
  refine Cluster.mem_listed.mpr ⟨hw, hns, ?_⟩
  rw [hfor.labels]
  exact Selector.fromSet_iff.mpr hlabels

/-- The three lookups that the controllers make for a resource request. -/
structure Found (env : Externals) (s : World) (promiseName : String) (rr : ObjectMeta) (w : Work) :
    Prop where
  all : Returns env (getAllWorksForResource env rr.ns promiseName rr.name) s w
  byType : Returns env (getWorksByType env .resource rr) s w
  status : Returns env (getExistingWorks env rr.ns
    (DynamicResourceRequestController.worksSelectorLabels promiseName rr)) s w

theorem IsFor.found {pipeline : Pipeline} {promise : Promise} {action : Action}
    {rr : ResourceRequest} {w : Work}
    (hfor : IsFor (pipeline.forResource promise action rr).workCreatorArgs w)
    (hvalues : LabelValues (pipeline.forResource promise action rr).workCreatorArgs)
    (hnamed : Named (pipeline.forResource promise action rr).workCreatorArgs)
    (hw : w ∈ s.cluster.objects .work)
    (hlabel : rr.metadata.labels.value Label.promiseName = promise.metadata.name) :
    Found env s promise.metadata.name rr.metadata w := by
  have hname : rr.metadata.name ≠ "" := hnamed.resourceName rfl
  have hns : w.metadata.ns = if rr.metadata.ns = "" then systemNamespace else rr.metadata.ns :=
    hfor.ns
  have hlisted : rr.metadata.ns = "" ∨ w.metadata.ns = rr.metadata.ns := by
    by_cases hempty : rr.metadata.ns = ""
    · exact Or.inl hempty
    · rw [if_neg hempty] at hns
      exact Or.inr hns
  -- each of the three label sets is part of the labels of the Work
  have hlookup (key : String) : (workLabels
      (pipeline.forResource promise action rr).workCreatorArgs).lookup key =
        (getWorkLabels promise.metadata.name rr.metadata.name pipeline.name "resource").lookup key :=
    lookup_workLabels _ key
  refine ⟨?_, ?_, ?_⟩
  · refine hfor.returns hvalues hw hlisted ?_ fun key v hv => ?_
    · intro h
      have := congrArg (AList.lookup Label.promiseName) h
      simp [AList.lookup_empty] at this
    · rw [hlookup, lookup_getWorkLabels]
      simp only [Labels.lookup_ofList_cons, Labels.lookup_ofList_nil] at hv
      split_ifs at hv with h₁ h₂ <;> cases hv
      · simp [h₁, Label.promiseName, Label.resourceName, Label.pipelineName]
      · simp [h₂, hname]
  · refine hfor.returns hvalues hw (Or.inr hns) ?_ fun key v hv => ?_
    · intro h
      have := congrArg (AList.lookup Label.promiseName) h
      simp [AList.lookup_empty] at this
    · rw [hlookup, lookup_getWorkLabels]
      simp only [Labels.lookup_insert, Labels.lookup_ofList_cons, Labels.lookup_ofList_nil,
        hlabel] at hv
      split_ifs at hv with h₁ h₂ h₃ <;> cases hv
      · simp [h₁, Label.promiseName, Label.resourceName, Label.pipelineName]
      · simp [h₂, hname]
      · simp [h₃, Label.promiseName, Label.resourceName, Label.pipelineName, Label.workType,
          WorkflowType.text]
  · refine hfor.returns hvalues hw hlisted ?_ fun key v hv => ?_
    · intro h
      have := congrArg (AList.lookup Label.resourceName) h
      rw [DynamicResourceRequestController.worksSelectorLabels, lookup_getWorkLabels] at this
      simp [AList.lookup_empty, hname] at this
    · rw [DynamicResourceRequestController.worksSelectorLabels, lookup_getWorkLabels] at hv
      rw [hlookup, lookup_getWorkLabels]
      split_ifs at hv with h₁ h₂ h₃ h₄ <;> cases hv
      · simp [h₁.1, hname]
      · exact absurd rfl h₂.2
      · simp [h₃, Label.promiseName, Label.resourceName, Label.pipelineName]
      · simp [h₄, Label.promiseName, Label.resourceName, Label.pipelineName, Label.workType,
          WorkflowType.text]

/-! ### The main statement -/

/-- A root directory with one file in the output. -/
def oneFile (contents : Bytes) : FileTree Bytes :=
  .dir "input" (.file "redis.yaml" contents .nil) .nil

def redisPromise : Promise := { metadata := { name := "redis" }, spec := {}, status := {} }

/-- The arguments for a pipeline of the Promise workflow. -/
def promiseArgs (pipelineName : String) : WorkCreatorArgs :=
  (Pipeline.forPromise { name := pipelineName } redisPromise .configure).workCreatorArgs

/-- The states of a sequence of executions, during the last of them as well. -/
def Moment (env : Externals) (s u : World) : Prop :=
  ∃ t, Relation.ReflTransGen (Executes env) s t ∧
    (u = t ∨ ∃ args root, Passed args ∧ Passes (faulty env) (execute env args root) t u)

def redisRequest : ResourceRequest where
  metadata := {
    name := "example"
    ns := "default"
    labels := promiseNameLabel "redis" }
  spec := ""
  status := {}

/-- The arguments for a pipeline of the resource workflow. -/
def requestArgs : WorkCreatorArgs :=
  (Pipeline.forResource { name := "deploy" } redisPromise .configure redisRequest).workCreatorArgs

end WorkCreator

end Kratix
