import Kratix.ResourceUtil

/-!
# Reconciling the workflows of a Promise or of a resource request

`reconcileConfigure` decides from the Jobs in the cluster which configure
pipeline is due and starts it; `reconcileDelete` does the same for the single
delete pipeline. Nothing is remembered between two calls except what the Jobs'
labels, timestamps and conditions say.
-/

namespace Kratix.Workflow

open Apiserver Effect

variable {p : ParentKind}

structure Opts (p : ParentKind) where
  parentObject : Parent p
  resources : List PipelineJobResources
  workflowType : WorkflowType
  numberOfJobsToKeep : ℕ
  skipConditions : Bool := false

/-- What a reconcile function returns, and the parent object as it leaves it. -/
structure Result (p : ParentKind) where
  abort : Bool
  err : Option Failure
  parentObject : Parent p

/-- The workflows of this parent object go on with the updated object. -/
def Opts.withParent (opts : Opts p) (obj : Parent p) : Opts p := { opts with parentObject := obj }

def isManualReconciliation (labels : Labels) : Bool :=
  labels.lookup Label.manualReconciliation == some "true"

def Opts.isManual (opts : Opts p) : Bool :=
  isManualReconciliation opts.parentObject.metadata.labels

/-! ### The state of a Job -/

def isFailed (job : Job) : Bool :=
  job.status.conditions.any fun c => c.1 == .failed || c.1 == .suspended

def isRunning (job : Job) : Bool :=
  decide (0 < job.status.active) ||
    !job.status.conditions.any fun c => c.1 == .complete || c.1 == .suspended || c.1 == .failed

/-- The Job carries the identifying labels of the pipeline's Job. -/
def jobIsForPipeline (pipeline : PipelineJobResources) (job : Job) : Bool :=
  let jobLabels := job.metadata.labels
  let pipelineLabels := pipeline.job.metadata.labels
  jobLabels.value Label.resourceHash == pipelineLabels.value Label.resourceHash &&
    jobLabels.value Label.workflowType == pipelineLabels.value Label.workflowType &&
    jobLabels.value Label.workflowAction == pipelineLabels.value Label.workflowAction &&
    jobLabels.value Label.pipelineHash == pipelineLabels.value Label.pipelineHash &&
    jobLabels.value Label.pipelineName == pipelineLabels.value Label.pipelineName

/-! ### Finding Jobs -/

def labelsForJobs (opts : Opts p) : Labels :=
  let obj := opts.parentObject.metadata
  match opts.workflowType with
  | .resource => Labels.ofList [(Label.workflowType, opts.workflowType.text),
      (Label.resourceName, obj.name), (Label.promiseName, obj.labels.value Label.promiseName)]
  | .promise => Labels.ofList [(Label.workflowType, opts.workflowType.text),
      (Label.promiseName, obj.name)]

def legacyLabelsForJobs (opts : Opts p) : Labels :=
  let obj := opts.parentObject.metadata
  match opts.workflowType with
  | .resource => Labels.ofList [(Label.workType, opts.workflowType.text),
      (Label.resourceName, obj.name), (Label.promiseName, obj.labels.value Label.promiseName)]
  | .promise => Labels.ofList [(Label.workType, opts.workflowType.text),
      (Label.promiseName, obj.name)]

def labelsForAllPipelineJobs (pipeline : PipelineJobResources) : Labels :=
  let pipelineLabels := pipeline.job.metadata.labels
  let labels := Labels.ofList [(Label.promiseName, pipelineLabels.value Label.promiseName)]
  if pipelineLabels.value Label.resourceName = "" then labels
  else labels.insert Label.resourceName (pipelineLabels.value Label.resourceName)

def getJobsWithLabels (env : Externals) (jobLabels : Labels) (ns : String) :
    Prog (Except Failure (List Job)) := do
  match env.parseLabels jobLabels with
  | none => return .error .invalidSelector
  | some selector =>
    match ← listObjects .job ns selector with
    | .error e => return .error (.api e)
    | .ok jobs => return .ok jobs

/-- The namespace of the Jobs of a parent object. -/
def Opts.jobNamespace (opts : Opts p) : String :=
  if opts.parentObject.metadata.ns = "" then systemNamespace else opts.parentObject.metadata.ns

/-- All Jobs of the parent object, with the current and with the legacy labels. -/
def getAllJobs (env : Externals) (opts : Opts p) : Prog (Except Failure (List Job)) := do
  match ← getJobsWithLabels env (labelsForJobs opts) opts.jobNamespace with
  | .error e => return .error e
  | .ok allJobs =>
    match ← getJobsWithLabels env (legacyLabelsForJobs opts) opts.jobNamespace with
    | .error e => return .error e
    | .ok allLegacyJobs => return .ok (allJobs ++ allLegacyJobs)

/-! ### Which pipeline is next -/

/-- Search for the pipeline of the Job, the last pipeline coming first in the list. -/
def nextIndexFrom (job : Job) : List PipelineJobResources → ℕ
  | [] => 0
  | pipeline :: rest =>
    if jobIsForPipeline pipeline job then
      if isFailed job || isRunning job then rest.length else rest.length + 1
    else nextIndexFrom job rest

def nextPipelineIndex (opts : Opts p) (mostRecentJob : Job) : ℕ :=
  if opts.isManual then 0 else nextIndexFrom mostRecentJob opts.resources.reverse

/-! ### Creating and removing resources -/

def applyResource (resource : AnyObject) : Prog Unit := do
  match ← createObject resource.1 resource.2 with
  | .ok _ => return
  | .error .alreadyExists =>
    if resource.1 = .serviceAccount then
      match ← getObject .serviceAccount resource.2.metadata.ns resource.2.metadata.name with
      | .error _ => return
      | .ok serviceAccount =>
        -- an account that Kratix did not create is left alone
        if serviceAccount.metadata.labels.lookup Label.promiseName = none then return
        else do
          let _ ← updateObject resource.1 resource.2
          return
    else do
      let _ ← updateObject resource.1 resource.2
      return
  | .error _ => return

/-- Errors are logged only. -/
def applyResources : List AnyObject → Prog Unit
  | [] => return
  | resource :: rest => do
    applyResource resource
    applyResources rest

def deleteResources : List AnyObject → Prog Unit
  | [] => return
  | resource :: rest => do
    let _ ← deleteObject resource.1 resource.2.metadata.ns resource.2.metadata.name
    deleteResources rest

def suspendJob (job : Job) : Prog (Except ApiError Unit) := do
  match ← patchObject .job job.metadata.ns job.metadata.name fun spec => { spec with suspend := true } with
  | .error e => return .error e
  | .ok _ => return .ok ()

/-! ### Stale roles and bindings -/

def getPipelineResourcesLabels (pipeline : PipelineJobResources) : Labels :=
  let jobLabels := pipeline.job.metadata.labels
  let legacy := userPermissionPipelineResourcesLegacyLabels (jobLabels.value Label.promiseName)
    pipeline.name pipeline.job.metadata.ns (jobLabels.value Label.workType)
    (jobLabels.value Label.workAction)
  if legacy.entries.length ≠ 0 then legacy
  else userPermissionPipelineResourcesLabels (jobLabels.value Label.promiseName) pipeline.name
    pipeline.job.metadata.ns (jobLabels.value Label.workflowType)
    (jobLabels.value Label.workflowAction)

/-- The existing objects of a kind that match none of the desired ones. -/
def getStale (k : Kind) (same : scheme.Obj k → scheme.Obj k → Bool) (desired : List (scheme.Obj k))
    (selector : Selector) : Prog (Except Failure (List AnyObject)) := do
  match ← listObjects k "" selector with
  | .ok existing =>
    return .ok ((existing.filter fun e => !desired.any (same e)).map fun e => ⟨k, e⟩)
  | .error .notFound => return .ok []
  | .error e => return .error (.api e)

/-- Rules are compared as they are printed. -/
def rolesMatch (existing desired : Role) : Bool :=
  existing.spec.map PolicyRule.text == desired.spec.map PolicyRule.text

def roleBindingsMatch (existing desired : RoleBinding) : Bool :=
  existing.spec.subjects.map Subject.text == desired.spec.subjects.map Subject.text &&
    existing.spec.roleRef.text == desired.spec.roleRef.text

def getObjectsToDelete (pipeline : PipelineJobResources) :
    Prog (Except Failure (List AnyObject)) := do
  let selector := Selector.fromSet (getPipelineResourcesLabels pipeline)
  let shared := pipeline.shared
  match ← getStale .role rolesMatch shared.roles selector with
  | .error e => return .error e
  | .ok roles =>
    match ← getStale .clusterRole rolesMatch shared.clusterRoles selector with
    | .error e => return .error e
    | .ok clusterRoles =>
      match ← getStale .roleBinding roleBindingsMatch shared.roleBindings selector with
      | .error e => return .error e
      | .ok roleBindings =>
        match ← getStale .clusterRoleBinding roleBindingsMatch shared.clusterRoleBindings selector with
        | .error e => return .error e
        | .ok clusterRoleBindings =>
          return .ok (roles ++ clusterRoles ++ roleBindings ++ clusterRoleBindings)

/-! ### Starting a configure pipeline -/

/-- The status that reports a running workflow. -/
def runningStatus (status : ParentStatus) (isTheFirstPipeline : Bool) (now : ℕ) : ParentStatus :=
  let pending := isTheFirstPipeline || status.message == "" || status.message == "Resource requested"
  let status := if pending then { status with message := "Pending" } else status
  (status.markConfigureWorkflowAsRunning now).markReconciledPending "WorkflowPending" now

/-- Report the workflow as running, unless its status says so already. The
result tells whether the status was updated. -/
def setConfigureWorkflowCompletedConditionStatus (opts : Opts p) (isTheFirstPipeline : Bool) :
    Prog (Result p) :=
  if opts.skipConditions then return ⟨false, none, opts.parentObject⟩
  else
    match opts.parentObject.status.configureWorkflowCompletedConditionStatus with
    | .conditionFalse => return ⟨false, none, opts.parentObject⟩
    | _ => do
      let now ← timeNow
      let obj := { opts.parentObject with
        status := runningStatus opts.parentObject.status isTheFirstPipeline now }
      match ← updateStatus (.parent p) obj with
      | .error e => return ⟨false, some (.api e), obj⟩
      | .ok obj => return ⟨true, none, obj⟩

def removeManualReconciliationLabel (obj : Parent p) : Prog (Except Failure (Parent p)) := do
  let obj := withLabels obj (obj.metadata.labels.erase Label.manualReconciliation)
  match ← updateObject (.parent p) obj with
  | .error e => return .error (.api e)
  | .ok obj => return .ok obj

/-- Remove the label when it is there. -/
def consumeManualReconciliation (opts : Opts p) : Prog (Except Failure (Parent p)) :=
  if opts.isManual then removeManualReconciliationLabel opts.parentObject
  else return .ok opts.parentObject

def createConfigurePipeline (opts : Opts p) (pipelineIndex : ℕ)
    (resources : PipelineJobResources) : Prog (Result p) := do
  let updated ← setConfigureWorkflowCompletedConditionStatus opts (pipelineIndex == 0)
  if updated.err.isSome || updated.abort then return updated
  else
    match ← getObjectsToDelete resources with
    | .error e => return ⟨false, some e, updated.parentObject⟩
    | .ok objectsToDelete =>
      match ← consumeManualReconciliation (opts.withParent updated.parentObject) with
      | .error e => return ⟨false, some e, updated.parentObject⟩
      | .ok obj =>
        deleteResources objectsToDelete
        applyResources (resources.getObjects ++ [⟨.job, resources.job⟩])
        return ⟨true, none, obj⟩

/-! ### Cleaning up after the last pipeline -/

def deleteJobs : List Job → Prog Unit
  | [] => return
  | job :: rest => do
    match ← deleteObject .job job.metadata.ns job.metadata.name with
    | .ok _ => deleteJobs rest
    | .error .notFound => deleteJobs rest
    | .error _ => return

/-- Delete all but the most recent Jobs. -/
def cleanupJobs (opts : Opts p) (jobs : List Job) : Prog Unit :=
  if jobs.length ≤ opts.numberOfJobsToKeep then return
  else deleteJobs ((oldestFirst jobs).take (jobs.length - opts.numberOfJobsToKeep))

/-- The labels by which the Jobs of a pipeline are found when old ones are removed. -/
def cleanupLabels (pipeline : PipelineJobResources) : Labels :=
  (labelsForAllPipelineJobs pipeline).insert Label.pipelineName pipeline.name

def cleanupPipelines (env : Externals) (opts : Opts p) (ns : String) :
    List PipelineJobResources → Prog Unit
  | [] => return
  | pipeline :: rest => do
    match ← getJobsWithLabels env (cleanupLabels pipeline) ns with
    | .error _ => cleanupJobs opts []
    | .ok jobs => cleanupJobs opts jobs
    cleanupPipelines env opts ns rest

def deleteWorks : List Work → Prog (Option Failure)
  | [] => return none
  | work :: rest => do
    match ← deleteObject .work work.metadata.ns work.metadata.name with
    | .error e => return some (.api e)
    | .ok _ => deleteWorks rest

def cleanup (env : Externals) (opts : Opts p) (ns : String) : Prog (Option Failure) := do
  cleanupPipelines env opts ns opts.resources
  match ← getWorksByType env opts.workflowType opts.parentObject.metadata with
  | .error e => return some e
  | .ok works =>
    let pipelineNames := opts.resources.map PipelineJobResources.name
    deleteWorks (works.filter fun w =>
      !pipelineNames.contains (w.metadata.labels.value Label.pipelineName))

/-! ### Reconciling -/

/-- A new round of pipelines starts without failures. -/
def resetsFailed (status : ParentStatus) (pipelineIndex : ℕ) : Bool :=
  pipelineIndex == 0 && counterStatus status.workflowsFailed != 0

def withCounters (status : ParentStatus) (pipelineIndex : ℕ) : ParentStatus :=
  { status with
    workflowsFailed := if resetsFailed status pipelineIndex then some 0 else status.workflowsFailed
    workflowsSucceeded := some pipelineIndex }

/-- The workflow counters of the parent, brought up to date first. -/
def updateCounters (obj : Parent p) (pipelineIndex : ℕ) : Prog (Except Failure (Parent p)) :=
  if resetsFailed obj.status pipelineIndex ||
      counterStatus obj.status.workflowsSucceeded != pipelineIndex then do
    match ← updateStatus (.parent p) { obj with status := withCounters obj.status pipelineIndex } with
    | .error e => return .error (.api e)
    | .ok obj => return .ok obj
  else return .ok obj

def markAsFailed (obj : Parent p) (pipeline : String) : Prog (Result p) := do
  let now ← timeNow
  let status := (obj.status.markConfigureWorkflowAsFailed pipeline now).markReconciledFailing
    configureWorkflowCompletedFailedReason now
  let obj := { obj with status := { status with workflowsFailed := some 1 } }
  match ← updateStatus (.parent p) obj with
  | .error e => return ⟨false, some (.api e), obj⟩
  | .ok obj => return ⟨true, none, obj⟩

/-- The most recent Job is one of the pipeline that is due. -/
def reconcileCurrentPipeline (env : Externals) (opts : Opts p) (pipelineIndex : ℕ)
    (pipeline : PipelineJobResources) (mostRecentJob : Job) : Prog (Result p) := do
  if isRunning mostRecentJob then
    if opts.isManual then
      match ← suspendJob mostRecentJob with
      | .error e => return ⟨true, some (.api e), opts.parentObject⟩
      | .ok () => return ⟨true, none, opts.parentObject⟩
    else return ⟨true, none, opts.parentObject⟩
  else if opts.isManual then createConfigurePipeline opts pipelineIndex pipeline
  else if isFailed mostRecentJob then markAsFailed opts.parentObject pipeline.name
  else
    let err ← cleanup env opts opts.jobNamespace
    return ⟨false, err, opts.parentObject⟩

/-- The pipeline that is due, given the most recent Job. -/
def reconcilePipeline (env : Externals) (opts : Opts p) (pipelineIndex : ℕ)
    (pipeline : PipelineJobResources) : Option Job → Prog (Result p)
  | none => createConfigurePipeline opts pipelineIndex pipeline
  | some job =>
    if jobIsForPipeline pipeline job then
      reconcileCurrentPipeline env opts pipelineIndex pipeline job
    else if isRunning job then do
      -- a Job of another pipeline or of an older specification
      let _ ← suspendJob job
      return ⟨true, none, opts.parentObject⟩
    else createConfigurePipeline opts pipelineIndex pipeline

def reconcileConfigure (env : Externals) (opts : Opts p) : Prog (Result p) := do
  match ← getAllJobs env opts with
  | .error e => return ⟨false, some e, opts.parentObject⟩
  | .ok allJobs =>
    let mostRecentJob := (newestFirst allJobs).head?
    let pipelineIndex := (mostRecentJob.map (nextPipelineIndex opts)).getD 0
    match ← updateCounters opts.parentObject pipelineIndex with
    | .error e => return ⟨false, some e, opts.parentObject⟩
    | .ok obj =>
      -- an index behind the last pipeline stands for the last one
      let pipelineIndex := min pipelineIndex (opts.resources.length - 1)
      match opts.resources[pipelineIndex]? with
      | none => return ⟨false, none, obj⟩
      | some pipeline =>
        reconcilePipeline env (opts.withParent obj) pipelineIndex pipeline mostRecentJob

/-! ### The delete pipeline -/

def createDeletePipeline (opts : Opts p) (pipeline : PipelineJobResources) :
    Prog (Result p) := do
  match ← consumeManualReconciliation opts with
  | .error e => return ⟨false, some e, opts.parentObject⟩
  | .ok obj =>
    applyResources (pipeline.getObjects ++ [⟨.job, pipeline.job⟩])
    return ⟨true, none, obj⟩

def reconcileDelete (env : Externals) (opts : Opts p) : Prog (Result p) := do
  match opts.resources with
  | [] => return ⟨false, none, opts.parentObject⟩
  | pipeline :: _ =>
    match ← getJobsWithLabels env pipeline.job.metadata.labels opts.parentObject.metadata.ns with
    | .error e => return ⟨false, some e, opts.parentObject⟩
    | .ok jobs =>
      match (newestFirst jobs).head? with
      | none => createDeletePipeline opts pipeline
      | some job =>
        if isRunning job then
          if opts.isManual then
            match ← suspendJob job with
            | .error e => return ⟨true, some (.api e), opts.parentObject⟩
            | .ok () => return ⟨true, none, opts.parentObject⟩
          else return ⟨true, none, opts.parentObject⟩
        else if opts.isManual then createDeletePipeline opts pipeline
        else if 0 < job.status.succeeded then return ⟨false, none, opts.parentObject⟩
        else if 0 < job.status.failed then
          return ⟨false, some .deletePipelineFailed, opts.parentObject⟩
        else return ⟨true, none, opts.parentObject⟩

end Kratix.Workflow
