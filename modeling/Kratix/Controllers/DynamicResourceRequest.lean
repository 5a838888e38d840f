import Kratix.Controllers.Shared
import Kratix.Workflow.Reconciler

/-!
# The controller of resource requests

One controller runs for every Promise with an API. It labels a request with the
name of its Promise, gives it three finalizers and runs the configure workflow;
a deleted request first runs the delete workflow, then loses its Works, and
then its Jobs. Events are left out.
-/

namespace Kratix

open Apiserver Effect

/-- What a reconcile reads from the running controller. -/
structure DynamicResourceRequestController where
  promiseIdentifier : String
  enabled : Bool
  canCreateResources : Bool
  numberOfJobsToKeep : ℕ
  reconciliationInterval : ℕ

namespace DynamicResourceRequestController

def rrFinalizers : List String :=
  [Finalizer.workCleanup, Finalizer.removeAllWorkflowJobs, Finalizer.runDeleteWorkflows]

section WorksStatus

variable (env : Externals) (promiseIdentifier : String)

/-- Names of Works, by the message of their ready condition. -/
structure WorksStatus where
  failed : List String := []
  misplaced : List String := []
  pending : List String := []
  ready : List String := []

namespace WorksStatus

def add (s : WorksStatus) (name : String) : String → WorksStatus
  | "Failing" => { s with failed := s.failed ++ [name] }
  | "Misplaced" => { s with misplaced := s.misplaced ++ [name] }
  | "Pending" => { s with pending := s.pending ++ [name] }
  | "Ready" => { s with ready := s.ready ++ [name] }
  | _ => s

/-- A Work without a ready condition is not expected. -/
def ofWorks (works : List Work) : Except Failure WorksStatus :=
  works.foldlM (fun s work =>
    match findCondition work.status.conditions ConditionType.ready with
    | none => .error .panicked
    | some c => .ok (s.add work.metadata.name c.message)) {}

end WorksStatus

/-- The labels that the Works of a request are listed by. -/
def worksSelectorLabels (rr : ObjectMeta) : Labels :=
  getWorkLabels promiseIdentifier rr.name "" WorkflowType.resource.text

def getWorksStatus (rr : ObjectMeta) : Prog (Except Failure WorksStatus) := do
  match ← getExistingWorks env rr.ns (worksSelectorLabels promiseIdentifier rr) with
  | .error e => return .error e
  | .ok works => return WorksStatus.ofWorks works

end WorksStatus

variable (env : Externals) (r : DynamicResourceRequestController)

/-- The kind of the requests of the controller's Promise. -/
abbrev rrKind : ParentKind := .resource r.promiseIdentifier

/-! ### The status of a request -/

def updateWorksSucceededCondition (status : ParentStatus) (works : WorksStatus) (now : ℕ) :
    ParentStatus × Bool :=
  let cond := status.getCondition ConditionType.worksSucceeded
  if works.failed ≠ [] then
    if cond.all (·.status == .conditionTrue) then (status.markAsWorksFailed works.failed now, true)
    else (status, false)
  else if works.pending ≠ [] then
    if cond.all (·.status != .conditionUnknown) then
      (status.markAsWorksPending works.pending now, true)
    else (status, false)
  else if works.misplaced ≠ [] then
    if cond.all (fun c => c.status != .conditionFalse || c.reason != "WorksMisplaced") then
      (status.markAsWorksMisplaced works.misplaced now, true)
    else (status, false)
  else if cond.all (·.status != .conditionTrue) then (status.markAsWorksSucceeded now, true)
  else (status, false)

def updateReconciledCondition (status : ParentStatus) (now : ℕ) : ParentStatus × Bool :=
  let worksSucceeded := status.getCondition ConditionType.worksSucceeded
  let workflowCompleted := status.getCondition ConditionType.configureWorkflowCompleted
  let reconciled := status.getCondition ConditionType.reconciled
  if workflowCompleted.any fun c => c.status == .conditionFalse && c.reason == "PipelinesInProgress" then
    if reconciled.all (·.status != .conditionUnknown) then
      (status.markReconciledPending "WorkflowPending" now, true)
    else (status, false)
  else if workflowCompleted.any (·.status == .conditionFalse) then
    if reconciled.all fun c => c.status != .conditionFalse ||
        c.reason != configureWorkflowCompletedFailedReason then
      (status.markReconciledFailing configureWorkflowCompletedFailedReason now, true)
    else (status, false)
  else if worksSucceeded.any (·.status == .conditionUnknown) then
    if reconciled.all (·.status != .conditionUnknown) then
      (status.markReconciledPending "WorksPending" now, true)
    else (status, false)
  else if worksSucceeded.any (·.status == .conditionFalse) then
    if reconciled.all (·.status != .conditionFalse) then
      (status.markReconciledFailing "WorksFailing" now, true)
    else (status, false)
  else if workflowCompleted.any (·.status == .conditionTrue) &&
      worksSucceeded.any (·.status == .conditionTrue) then
    if reconciled.all (·.status != .conditionTrue) then (status.markReconciledTrue now, true)
    else (status, false)
  else (status, false)

def generateWorkflowsCounterStatus (status : ParentStatus) (numOfPipelines : ℕ) :
    ParentStatus × Bool :=
  let desiredWorkflowsSucceeded : ℤ :=
    if (status.getCondition ConditionType.configureWorkflowCompleted).any
        (·.status == .conditionTrue) then numOfPipelines else 0
  if counterStatus status.workflows ≠ numOfPipelines ∨
      counterStatus status.workflowsSucceeded ≠ desiredWorkflowsSucceeded then
    ({ status with
        workflows := some (numOfPipelines : ℤ)
        workflowsSucceeded := some desiredWorkflowsSucceeded
        workflowsFailed := some 0 }, true)
  else (status, false)

/-- The status to report, and whether it differs from what is reported already. -/
def generateResourceStatus (rr : ResourceRequest) (numberOfPipelines : ℕ) :
    Prog (Except Failure (ParentStatus × Bool)) := do
  match ← getWorksStatus env r.promiseIdentifier rr.metadata with
  | .error e => return .error e
  | .ok works =>
    let now ← timeNow
    let worksSucceeded := updateWorksSucceededCondition rr.status works now
    let reconciled := updateReconciledCondition worksSucceeded.1 now
    let counters := generateWorkflowsCounterStatus reconciled.1 numberOfPipelines
    return .ok (counters.1, worksSucceeded.2 || reconciled.2 || counters.2)

def updateRequestStatus (rr : ResourceRequest) (status : ParentStatus) :
    Prog (Except ApiError ResourceRequest) :=
  updateStatus (.parent r.rrKind) { rr with status := status }

def setPausedReconciliationStatusConditions (rr : ResourceRequest) : Prog ReconcileResult := do
  let reconciled := rr.status.getCondition ConditionType.reconciled
  if reconciled.all fun c => c.status != .conditionUnknown || c.message != "Paused" then
    let now ← timeNow
    return .ofWrite .none (← r.updateRequestStatus rr (rr.status.markReconciledPaused now))
  else return {}

def ensurePromiseIsUnavailable (rr : ResourceRequest) : Prog ReconcileResult := do
  if !rr.status.isPromiseMarkedAsUnavailable then
    let now ← timeNow
    return .ofWrite .none
      (← r.updateRequestStatus rr (rr.status.markPromiseConditionAsNotAvailable now))
  else return { requeue := .slow }

def ensurePromiseIsAvailable (rr : ResourceRequest) : Prog ReconcileResult := do
  let now ← timeNow
  return .ofWrite .none (← r.updateRequestStatus rr (rr.status.markPromiseConditionAsAvailable now))

def updateObservedGeneration (rr : ResourceRequest) : Prog ReconcileResult := do
  return .ofWrite .none (← r.updateRequestStatus rr
    { rr.status with observedGeneration := rr.metadata.generation })

def updateWorkflowStatusCountersToZero (rr : ResourceRequest) : Prog ReconcileResult := do
  if counterStatus rr.status.workflows ≠ 0 ∨ counterStatus rr.status.workflowsSucceeded ≠ 0 ∨
      counterStatus rr.status.workflowsFailed ≠ 0 then
    return .ofWrite .interval (← r.updateRequestStatus rr
      { rr.status with workflows := some 0, workflowsSucceeded := some 0, workflowsFailed := some 0 })
  else return { requeue := .interval }

def workflowsCompletedSuccessfully (c : Condition) : Bool :=
  c.status == .conditionTrue && c.reason == "PipelinesExecutedSuccessfully"

/-- Report when the workflow has succeeded last. -/
def reportSuccess (rr : ResourceRequest) : Prog ReconcileResult := do
  match rr.status.getCondition ConditionType.configureWorkflowCompleted with
  | none => return {}
  | some c =>
    if workflowsCompletedSuccessfully c then
      if some c.lastTransitionTime ≠ rr.status.lastSuccessfulConfigureWorkflowTime then
        return .ofWrite .none (← r.updateRequestStatus rr
          { rr.status with lastSuccessfulConfigureWorkflowTime := some c.lastTransitionTime })
      else return { requeue := .interval }
    else return {}

/-! ### Labels and finalizers -/

def setPromiseLabels (promiseName : String) (rr : ResourceRequest) : Prog ReconcileResult := do
  let rr := withLabels rr (rr.metadata.labels.insert Label.promiseName promiseName)
  return .ofWrite .none (← updateObject (.parent r.rrKind) rr)

def shouldForcePipelineRun (completedCond : Option Condition) (now : ℕ) : Bool :=
  completedCond.any fun c =>
    c.status == .conditionTrue && decide (r.reconciliationInterval < now - c.lastTransitionTime)

def updateManualReconciliationLabel (rr : ResourceRequest) : Prog ReconcileResult := do
  let rr := withLabels rr (rr.metadata.labels.insert Label.manualReconciliation "true")
  return .ofWrite .none (← updateObject (.parent r.rrKind) rr)

def removeRequestFinalizer (rr : ResourceRequest) (finalizer : String) :
    Prog (Except ApiError ResourceRequest) :=
  updateObject (.parent r.rrKind) (removeFinalizer rr finalizer)

/-! ### Deletion -/

/-- The options of a call of the workflow reconciler. -/
def jobOpts (rr : ResourceRequest) (pipelineResources : List PipelineJobResources) :
    Workflow.Opts r.rrKind where
  parentObject := rr
  resources := pipelineResources
  workflowType := .resource
  numberOfJobsToKeep := r.numberOfJobsToKeep

def runDeleteWorkflows (promise : Promise) (rr : ResourceRequest) : Prog ReconcileResult := do
  match ← promise.generateResourcePipelines env .delete rr with
  | .error e => return { err := some e }
  | .ok pipelineResources =>
    let result ← Workflow.reconcileDelete env (r.jobOpts rr pipelineResources)
    match result.err with
    | some .deletePipelineFailed =>
      let now ← timeNow
      let rr : ResourceRequest := result.parentObject
      let _ ← r.updateRequestStatus rr (rr.status.markDeleteWorkflowAsFailed now)
      return { err := some .deletePipelineFailed }
    | some e => return { err := some e }
    | none =>
      if result.abort then return { requeue := .default }
      else do
        let removed ← r.removeRequestFinalizer result.parentObject Finalizer.runDeleteWorkflows
        return .ofWrite .none removed

def deleteWorks : List Work → Prog (Except Failure Unit)
  | [] => return .ok ()
  | work :: rest => do
    match ← deleteObject .work work.metadata.ns work.metadata.name with
    | .error e => return .error (.api e)
    | .ok _ => deleteWorks rest

def deleteWork (rr : ResourceRequest) : Prog ReconcileResult := do
  match ← getAllWorksForResource env rr.metadata.ns r.promiseIdentifier rr.metadata.name with
  | .error e => return { err := some e }
  | .ok [] =>
    match ← r.removeRequestFinalizer rr Finalizer.workCleanup with
    | .error e => return { err := some (.api e) }
    | .ok _ => return { requeue := .fast }
  | .ok works =>
    match ← deleteWorks works with
    | .error e => return { err := some e }
    | .ok () => return { requeue := .fast }

def jobLabels (rr : ResourceRequest) : Labels :=
  Labels.ofList [(Label.promiseName, r.promiseIdentifier), (Label.resourceName, rr.metadata.name),
    (Label.workflowType, WorkflowType.resource.text)]

def jobLegacyLabels (rr : ResourceRequest) : Labels :=
  Labels.ofList [(Label.promiseName, r.promiseIdentifier), (Label.resourceName, rr.metadata.name),
    (Label.workType, WorkflowType.resource.text)]

def deleteWorkflows (rr : ResourceRequest) : Prog ReconcileResult := do
  match ← deleteAllResourcesWithKindMatchingLabel .job (r.jobLabels rr) with
  | .error e => return { err := some e }
  | .ok resourcesRemaining =>
    match ← deleteAllResourcesWithKindMatchingLabel .job (r.jobLegacyLabels rr) with
    | .error e => return { err := some e }
    | .ok legacyResourcesRemaining =>
      if !resourcesRemaining || !legacyResourcesRemaining then
        match ← r.removeRequestFinalizer rr Finalizer.removeAllWorkflowJobs with
        | .error e => return { err := some (.api e) }
        | .ok _ => return { requeue := .fast }
      else return { requeue := .fast }

def deleteResources (promise : Promise) (rr : ResourceRequest) : Prog ReconcileResult := do
  if finalizersAreDeleted rr rrFinalizers then return {}
  else if containsFinalizer rr Finalizer.runDeleteWorkflows then r.runDeleteWorkflows env promise rr
  else if containsFinalizer rr Finalizer.workCleanup then r.deleteWork env rr
  else if containsFinalizer rr Finalizer.removeAllWorkflowJobs then r.deleteWorkflows rr
  else return { requeue := .fast }

/-! ### Reconciling -/

/-- The configure workflow has nothing left to run. -/
def reportWorkflows (promise : Promise) (rr : ResourceRequest) (numberOfPipelines : ℕ) :
    Prog ReconcileResult := do
  if rr.metadata.generation ≠ rr.status.observedGeneration then r.updateObservedGeneration rr
  else if !promise.hasPipeline .resource .configure then r.updateWorkflowStatusCountersToZero rr
  else
    match ← r.generateResourceStatus env rr numberOfPipelines with
    | .error e => return { err := some e }
    | .ok (status, statusUpdate) =>
      let rr := { rr with status := status }
      if statusUpdate then return .ofWrite .none (← r.updateRequestStatus rr status)
      else r.reportSuccess rr

def reconcileWorkflows (promise : Promise) (rr : ResourceRequest) : Prog ReconcileResult := do
  match ← promise.generateResourcePipelines env .configure rr with
  | .error e => return { err := some e }
  | .ok pipelineResources =>
    let numberOfPipelines := pipelineResources.length
    if counterStatus rr.status.workflows ≠ numberOfPipelines then
      return .ofWrite .none (← r.updateRequestStatus rr
        { rr.status with workflows := some (numberOfPipelines : ℤ) })
    else do
      let result ← Workflow.reconcileConfigure env (r.jobOpts rr pipelineResources)
      if result.err.isSome || result.abort then return { err := result.err }
      else r.reportWorkflows env promise result.parentObject numberOfPipelines

def isPaused (promise : Promise) : Bool :=
  promise.metadata.labels.lookup Label.pauseReconciliation == some "true"

def reconcileRequest (promise : Promise) (rr : ResourceRequest) : Prog ReconcileResult := do
  if isPaused promise then r.setPausedReconciliationStatusConditions rr
  else if rr.metadata.labels.value Label.promiseName ≠ r.promiseIdentifier then
    r.setPromiseLabels promise.metadata.name rr
  else if rr.metadata.deleting then r.deleteResources env promise rr
  else if !r.canCreateResources then r.ensurePromiseIsUnavailable rr
  else if rr.status.isPromiseMarkedAsUnavailable then r.ensurePromiseIsAvailable rr
  else if finalizersAreMissing rr rrFinalizers then
    addFinalizers (.parent r.rrKind) rr rrFinalizers
  else do
    let now ← timeNow
    let completedCond := rr.status.getCondition ConditionType.configureWorkflowCompleted
    if r.shouldForcePipelineRun completedCond now &&
        !Workflow.isManualReconciliation rr.metadata.labels then
      r.updateManualReconciliationLabel rr
    else r.reconcileWorkflows env promise rr

def reconcile (ns name : String) : Prog ReconcileResult := do
  if !r.enabled then return {}
  else
    match ← getObject (.parent .promise) "" r.promiseIdentifier with
    | .error e => return { err := some (.api e) }
    | .ok promise =>
      match ← getObject (.parent r.rrKind) ns name with
      | .error .notFound => return {}
      | .error _ => return { requeue := .default }
      | .ok rr => r.reconcileRequest env promise rr

end DynamicResourceRequestController

end Kratix
