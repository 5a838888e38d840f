import Kratix.Workflow.JobLabels

/-!
# Runs of the configure workflow of one parent object

One parent object, a Promise or a resource request, is followed over time.
Each call of `reconcileConfigure` is made with the parent and the Promise as
they are at that moment, so specifications, the list of pipelines and the
manual-reconciliation label may be different in every call. Between the calls
the Jobs make progress. A run keeps a log of the Jobs that the calls created;
the log is not part of the program.
-/

namespace Kratix

def ParentKind.workflowType : ParentKind → WorkflowType
  | promise => .promise
  | resource _ => .resource

end Kratix

namespace Kratix.Workflow

open Apiserver Effect

variable {p : ParentKind}

/-! ### One call -/

/-- What does not change about the parent object. -/
structure Identity (p : ParentKind) where
  ns : String
  name : String
  uid : ℕ

def Identity.promiseName : {p : ParentKind} → Identity p → String
  | .promise, id => id.name
  | .resource promiseName, _ => promiseName

def asPromise : (p : ParentKind) → Parent p → Option Promise
  | .promise, o => some o
  | .resource _, _ => none

def asRequest : (p : ParentKind) → Parent p → Option ResourceRequest
  | .promise, _ => none
  | .resource _, o => some o

/-- The data of one call: the parent object and its Promise as they are stored.
The webhook keeps the names of the pipelines apart, the controllers label a
resource request with its Promise, and at least one Job of a pipeline is kept. -/
structure Trigger (id : Identity p) where
  promise : Promise
  parent : Parent p
  numberOfJobsToKeep : ℕ
  skipConditions : Bool
  keep_pos : 0 < numberOfJobsToKeep
  parent_ns : parent.metadata.ns = id.ns
  parent_name : parent.metadata.name = id.name
  parent_uid : parent.metadata.creationTimestamp = id.uid
  promise_name : promise.metadata.name = id.promiseName
  promise_self : ∀ o, asPromise p parent = some o → promise = o ∧ id.ns = ""
  request_label : ∀ rr, asRequest p parent = some rr →
    rr.metadata.labels.value Label.promiseName = id.promiseName
  names_nodup : ((promise.pipelines p.workflowType .configure).map Pipeline.name).Nodup

namespace Trigger

variable {id : Identity p} (x : Trigger id)

def pipelines : List Pipeline := x.promise.pipelines p.workflowType .configure

def names : List String := x.pipelines.map Pipeline.name

def factory (q : Pipeline) : PipelineFactory :=
  match asRequest p x.parent with
  | none => q.forPromise x.promise .configure
  | some rr => q.forResource x.promise .configure rr

/-- The resource hash at the time of the call. -/
def hash (env : Externals) : String :=
  let promiseHash := env.computeHash (env.promiseJson x.promise.spec)
  match asRequest p x.parent with
  | none => promiseHash
  | some rr => env.computeHash (promiseHash ++ "-" ++ env.computeHash rr.spec)

def opts (resources : List PipelineJobResources) : Opts p where
  parentObject := x.parent
  resources := resources
  workflowType := p.workflowType
  numberOfJobsToKeep := x.numberOfJobsToKeep
  skipConditions := x.skipConditions

/-- Generate the resources of the pipelines and reconcile. -/
def configure (env : Externals) : Prog (Result p) := do
  match ← generateResources env (x.pipelines.map x.factory) with
  | .error e => return ⟨false, some e, x.parent⟩
  | .ok resources => reconcileConfigure env (x.opts resources)

def isManual : Bool := isManualReconciliation x.parent.metadata.labels

end Trigger

/-! ### The log and the steps of a run -/

/-- A Job that was created, the call that created it, and the Jobs before that call. -/
structure Entry (id : Identity p) where
  trigger : Trigger id
  job : Job
  before : List Job

/-- The position of the Job's pipeline in the list of the call. -/
def Entry.index {id : Identity p} (e : Entry id) : ℕ :=
  e.trigger.names.idxOf e.job.spec.pipelineName

structure RunState (id : Identity p) where
  world : World
  log : List (Entry id)

/-- The Jobs of `t` that were created since `s`. -/
def newJobs (s t : World) : List Job :=
  (t.cluster.objects .job).filter fun j => s.cluster.clock ≤ j.created

def newEntries {id : Identity p} (x : Trigger id) (s t : World) : List (Entry id) :=
  (newJobs s t).map fun j => ⟨x, j, s.cluster.objects .job⟩

def Owned (id : Identity p) (j : Job) : Prop := j.metadata.owner = some id.uid

/-- What the Job controller can do to a Job: it writes the status only. A Job
that has stopped does not run again, a failed or suspended one stays so, and a
finished one does not fail any more. -/
structure Progress (j j' : Job) : Prop where
  metadata : j'.metadata = j.metadata
  spec : j'.spec = j.spec
  stopped : isRunning j = false → isRunning j' = false
  failed : isFailed j = true → isFailed j' = true
  settled : isRunning j = false → isFailed j = false → isFailed j' = false

theorem Progress.refl (j : Job) : Progress j j :=
  ⟨rfl, rfl, fun h => h, fun h => h, fun _ h => h⟩

/-- What happens outside the calls: the Jobs of the parent make progress, none
appears and none goes away. Everything else may change freely. -/
structure Unattended (id : Identity p) (s t : World) : Prop where
  clock : s.cluster.clock ≤ t.cluster.clock
  kept : ∀ j ∈ s.cluster.objects .job, Owned id j → ∃ j' ∈ t.cluster.objects .job, Progress j j'
  stems : ∀ j' ∈ t.cluster.objects .job, Owned id j' →
    ∃ j ∈ s.cluster.objects .job, Owned id j ∧ Progress j j'

/-- One call from `s`: it sees the stored parent and may meet any faults. -/
structure CallStep (env : Externals) {id : Identity p} (x : Trigger id) (s : World) (r : Result p)
    (t : World) : Prop where
  stored : s.cluster.find (.parent p) x.parent.key = some x.parent
  exec : Exec (faulty env) (x.configure env) s r t

/-- A step of a run whose calls satisfy `ok`. -/
inductive Step (env : Externals) (id : Identity p) (ok : RunState id → Trigger id → Prop) :
    RunState id → RunState id → Prop
  | call {s : RunState id} {t : World} (x : Trigger id) (r : Result p) (hok : ok s x)
      (h : CallStep env x s.world r t) : Step env id ok s ⟨t, s.log ++ newEntries x s.world t⟩
  | environment {s : RunState id} {t : World} (h : Unattended id s.world t) :
      Step env id ok s ⟨t, s.log⟩

/-- No Job of the parent exists yet. -/
def Initial (id : Identity p) (s : RunState id) : Prop :=
  s.log = [] ∧ ∀ j ∈ s.world.cluster.objects .job, ¬ Owned id j

def Reachable (env : Externals) (id : Identity p) (ok : RunState id → Trigger id → Prop)
    (s : RunState id) : Prop :=
  ∃ s₀, Initial id s₀ ∧ Relation.ReflTransGen (Step env id ok) s₀ s

/-- A property of the initial states that all steps keep holds in every reachable state. -/
theorem Reachable.induction {env : Externals} {id : Identity p}
    {ok : RunState id → Trigger id → Prop} {P : RunState id → Prop}
    (hinit : ∀ s, Initial id s → P s) (hstep : ∀ s t, P s → Step env id ok s t → P t)
    {s : RunState id} (hs : Reachable env id ok s) : P s := by
  obtain ⟨s₀, h₀, hrun⟩ := hs
  induction hrun with
  | refl => exact hinit s₀ h₀
  | tail _ hst ih => exact hstep _ _ ih hst

/-! ### Evaluating runs -/

instance (id : Identity p) (j : Job) : Decidable (Owned id j) :=
  inferInstanceAs (Decidable (j.metadata.owner = some id.uid))

/-- All Jobs in the cluster belong to the parent. -/
def NoOthers (id : Identity p) (s : RunState id) : Prop :=
  ∀ j ∈ s.world.cluster.objects .job, Owned id j

instance (id : Identity p) (s : RunState id) : Decidable (NoOthers id s) :=
  inferInstanceAs (Decidable (∀ j ∈ _, _))

/-- A running Job completes; the others stay as they are. -/
def finish (j : Job) : Job :=
  if isRunning j && !isFailed j then
    { j with status := { succeeded := 1, conditions := [(.complete, .conditionTrue)] } }
  else j

theorem progress_finish (j : Job) : Progress j (finish j) := by
  unfold finish
  split
  · next h =>
    simp only [Bool.and_eq_true, Bool.not_eq_true'] at h
    exact ⟨rfl, rfl, fun _ => rfl, fun hf => absurd hf (by simp [h.2]), fun _ _ => rfl⟩
  · exact .refl j

theorem keepsIdentity_finish : KeepsIdentity fun j : Job => some (finish j) := by
  intro j j' h
  cases h
  have hm := (progress_finish j).metadata
  unfold Object.key Object.created
  rw [hm]
  exact ⟨rfl, rfl, fun hv => hv⟩

def finishJobs (s : World) : World :=
  s.withCluster (s.cluster.rewrite .job (fun j => some (finish j)) keepsIdentity_finish)

theorem unattended_finishJobs (id : Identity p) (s : World) : Unattended id s (finishJobs s) where
  clock := le_rfl
  kept := fun j hj _ => ⟨finish j, by simpa [finishJobs] using ⟨j, hj, rfl⟩, progress_finish j⟩
  stems := by
    intro j' hj' ho
    simp only [finishJobs, World.cluster_withCluster, Cluster.mem_rewrite, Option.some.injEq] at hj'
    obtain ⟨j, hj, rfl⟩ := hj'
    refine ⟨j, hj, ?_, progress_finish j⟩
    rwa [Owned, (progress_finish j).metadata] at ho

/-- What happens next in an evaluated run. -/
inductive Event (id : Identity p)
  | call (x : Trigger id)
  | finished

/-- Evaluate a run whose calls pass `check`, each of them without faults. -/
def evalRun (env : Externals) {id : Identity p} (check : RunState id → Trigger id → Bool) :
    List (Event id) → RunState id → Option (RunState id)
  | [], s => some s
  | .finished :: es, s => evalRun env check es ⟨finishJobs s.world, s.log⟩
  | .call x :: es, s =>
    if check s x ∧ s.world.cluster.find (.parent p) x.parent.key = some x.parent then
      match eval (serveCall env) (x.configure env) s.world with
      | none => none
      | some (_, t) => evalRun env check es ⟨t, s.log ++ newEntries x s.world t⟩
    else none

theorem CallStep.of_eval {env : Externals} {id : Identity p} {x : Trigger id} {s t : World}
    {r : Result p} (hstored : s.cluster.find (.parent p) x.parent.key = some x.parent)
    (h : eval (serveCall env) (x.configure env) s = some (r, t)) : CallStep env x s r t :=
  ⟨hstored, (exec_of_eval (h := faultFree env) faultFree_of_serveCall h).mono faulty_of_faultFree⟩

theorem steps_of_evalRun {env : Externals} {id : Identity p} {ok : RunState id → Trigger id → Prop}
    {check : RunState id → Trigger id → Bool} (hok : ∀ s x, check s x = true → ok s x)
    {es : List (Event id)} {s t : RunState id} (h : evalRun env check es s = some t) :
    Relation.ReflTransGen (Step env id ok) s t := by
  induction es generalizing s with
  | nil =>
    cases h
    exact .refl
  | cons e es ih =>
    cases e with
    | finished => exact .head (.environment (unattended_finishJobs id s.world)) (ih h)
    | call x =>
      rw [evalRun] at h
      split at h
      · next hc =>
        split at h
        · cases h
        · next r u he => exact .head (.call x r (hok s x hc.1) (.of_eval hc.2 he)) (ih h)
      · cases h

/-- An evaluated run that ends in a state with a property reaches such a state. -/
theorem exists_reachable_of_evalRun {env : Externals} {id : Identity p}
    {ok : RunState id → Trigger id → Prop} {check : RunState id → Trigger id → Bool}
    (hok : ∀ s x, check s x = true → ok s x) {es : List (Event id)} {s : RunState id}
    (hs : Initial id s) {P : RunState id → Bool} (h : (evalRun env check es s).any P = true) :
    ∃ t, Reachable env id ok t ∧ P t = true := by
  cases ht : evalRun env check es s with
  | none =>
    rw [ht] at h
    cases h
  | some t =>
    rw [ht] at h
    exact ⟨t, ⟨s, hs, steps_of_evalRun hok ht⟩, h⟩

/-! ### A Promise to evaluate runs with -/

def samplePromise (pipelines : List Pipeline) : Promise where
  metadata := { name := "redis" }
  spec := { workflows := { promise := { configure := pipelines } } }
  status := {
    conditions := [⟨ConditionType.configureWorkflowCompleted, .conditionFalse, "", "", 0⟩]
    workflowsSucceeded := some 0
    workflowsFailed := some 0 }

def sampleIdentity : Identity .promise := ⟨"", "redis", 0⟩

def sampleTrigger (pipelines : List Pipeline) (h : (pipelines.map Pipeline.name).Nodup) :
    Trigger sampleIdentity where
  promise := samplePromise pipelines
  parent := samplePromise pipelines
  numberOfJobsToKeep := 5
  skipConditions := false
  keep_pos := by decide
  parent_ns := rfl
  parent_name := rfl
  parent_uid := rfl
  promise_name := rfl
  promise_self := by
    rintro o h
    cases h
    exact ⟨rfl, rfl⟩
  request_label := by
    intro rr h
    cases h
  names_nodup := h

/-- The Promise has been installed and nothing else exists. -/
def sampleStart (pipelines : List Pipeline) : RunState sampleIdentity where
  world := {
    cluster := (Cluster.empty scheme).add (.parent .promise) (samplePromise pipelines)
      (fun _ he => absurd he List.not_mem_nil) (by simp [Cluster.empty]) }
  log := []

theorem initial_sampleStart (pipelines : List Pipeline) :
    Initial sampleIdentity (sampleStart pipelines) := by
  refine ⟨rfl, fun j hj => ?_⟩
  have hnone : (sampleStart pipelines).world.cluster.objects .job = [] := rfl
  rw [hnone] at hj
  cases hj

end Kratix.Workflow
