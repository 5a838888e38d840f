import Kratix.Controllers.DynamicResourceRequest
import Kratix.Scheduling.Scheduler
import Kratix.WorkCreator

/-!
# The Promise controller

The Work of the static dependencies, and the status that follows the Works and
the workflows of a Promise.
-/

namespace Kratix

open Apiserver Effect

def workTypeStaticDependency := "static-dependency"

namespace Promise

variable (promise : Promise)

def withStatus (status : ParentStatus) : Promise := { promise with status := status }

end Promise

namespace PromiseReconciler

open DynamicResourceRequestController (WorksStatus)

/-! ### Conditions -/

/-- Only a condition with another status is replaced. -/
def updateConditions (latestCondition : Condition) : List Condition → List Condition × Bool
  | [] => ([latestCondition], true)
  | condition :: rest =>
    if condition.type = latestCondition.type then
      if condition.status ≠ latestCondition.status then (latestCondition :: rest, true)
      else (condition :: rest, false)
    else
      let updated := updateConditions latestCondition rest
      (condition :: updated.1, updated.2)

def updateConditionOnPromise (status : ParentStatus) (latestCondition : Condition) :
    ParentStatus × Bool :=
  let updated := updateConditions latestCondition status.conditions
  ({ status with conditions := updated.1 }, updated.2)

def promiseWorksSucceededStatusCondition (now : ℕ) : Condition :=
  ⟨ConditionType.worksSucceeded, .conditionTrue, "WorksSucceeded",
    "All works associated with this promise are ready", now⟩

def promiseWorksSucceededUnknownCondition (pendingWorks : List String) (now : ℕ) : Condition :=
  ⟨ConditionType.worksSucceeded, .conditionUnknown, "WorksPending",
    "Some works associated with this promise are not ready: " ++ printList pendingWorks, now⟩

def promiseWorksSucceededFailedCondition (failedWorks : List String) (now : ℕ) : Condition :=
  ⟨ConditionType.worksSucceeded, .conditionFalse, "WorksFailing",
    "Some works associated with this promise are not ready: " ++ printList failedWorks, now⟩

def promiseWorksSucceededMisplacedCondition (misplacedWorks : List String) (now : ℕ) : Condition :=
  ⟨ConditionType.worksSucceeded, .conditionFalse, "WorksMisplaced",
    "Some works associated with this promise are misplaced: " ++ printList misplacedWorks, now⟩

def promiseReconciledFailingCondition (reason : String) (now : ℕ) : Condition :=
  ⟨ConditionType.reconciled, .conditionFalse, reason, "Failing", now⟩

def promiseReconciledPendingCondition (reason : String) (now : ℕ) : Condition :=
  ⟨ConditionType.reconciled, .conditionUnknown, reason, "Pending", now⟩

def promiseReconciledCondition (now : ℕ) : Condition :=
  ⟨ConditionType.reconciled, .conditionTrue, "Reconciled", "Reconciled", now⟩

/-! ### The status of the Works and workflows -/

def updateWorksSucceededCondition (status : ParentStatus) (works : WorksStatus) (now : ℕ) :
    ParentStatus × Bool :=
  let cond := status.getCondition ConditionType.worksSucceeded
  let update (c : Condition) := ((updateConditionOnPromise status c).1, true)
  if works.failed ≠ [] then
    if cond.all (·.status == .conditionTrue) then
      update (promiseWorksSucceededFailedCondition works.failed now)
    else (status, false)
  else if works.pending ≠ [] then
    if cond.all (·.status != .conditionUnknown) then
      update (promiseWorksSucceededUnknownCondition works.pending now)
    else (status, false)
  else if works.misplaced ≠ [] then
    if cond.all (fun c => c.status != .conditionFalse || c.reason != "WorksMisplaced") then
      update (promiseWorksSucceededMisplacedCondition works.misplaced now)
    else (status, false)
  else if cond.all (·.status != .conditionTrue) then
    update (promiseWorksSucceededStatusCondition now)
  else (status, false)

def updateReconciledCondition (status : ParentStatus) (now : ℕ) : ParentStatus × Bool :=
  let worksSucceeded := status.getCondition ConditionType.worksSucceeded
  let workflowCompleted := status.getCondition ConditionType.configureWorkflowCompleted
  let reconciled := status.getCondition ConditionType.reconciled
  let update (c : Condition) := ((updateConditionOnPromise status c).1, true)
  if workflowCompleted.any fun c => c.status == .conditionFalse && c.reason == "PipelinesInProgress" then
    if reconciled.all (·.status != .conditionUnknown) then
      update (promiseReconciledPendingCondition "WorkflowPending" now)
    else (status, false)
  else if workflowCompleted.any (·.status == .conditionFalse) then
    if reconciled.all fun c => c.status != .conditionFalse ||
        c.reason != configureWorkflowCompletedFailedReason then
      update (promiseReconciledFailingCondition configureWorkflowCompletedFailedReason now)
    else (status, false)
  else if worksSucceeded.any (·.status == .conditionUnknown) then
    if reconciled.all (·.status != .conditionUnknown) then
      update (promiseReconciledPendingCondition "WorksPending" now)
    else (status, false)
  else if worksSucceeded.any (·.status == .conditionFalse) then
    if reconciled.all (·.status != .conditionFalse) then
      update (promiseReconciledFailingCondition "WorksFailing" now)
    else (status, false)
  else if workflowCompleted.any (·.status == .conditionTrue) &&
      worksSucceeded.any (·.status == .conditionTrue) then
    if reconciled.all (·.status != .conditionTrue) then update (promiseReconciledCondition now)
    else (status, false)
  else (status, false)

/-- A missing counter of a Promise is zero. -/
def counter (c : Option ℤ) : ℤ := c.getD 0

def generateWorkflowsCounterStatus (status : ParentStatus) (numOfPipelines : ℕ) :
    ParentStatus × Bool :=
  let desiredWorkflowsSucceeded : ℤ :=
    if (status.getCondition ConditionType.configureWorkflowCompleted).any
        (·.status == .conditionTrue) then numOfPipelines else 0
  if counter status.workflows ≠ numOfPipelines ∨
      counter status.workflowsSucceeded ≠ desiredWorkflowsSucceeded then
    ({ status with
        workflows := some (numOfPipelines : ℤ)
        workflowsSucceeded := some desiredWorkflowsSucceeded
        workflowsFailed := some 0 }, true)
  else (status, false)

/-- The labels that the Works of a Promise's workflows are listed by. -/
def worksSelectorLabels (promise : ObjectMeta) : Labels :=
  getWorkLabels promise.name "" "" WorkflowType.promise.text

def getWorksStatus (env : Externals) (promise : ObjectMeta) :
    Prog (Except Failure WorksStatus) := do
  match ← getExistingWorks env promise.ns (worksSelectorLabels promise) with
  | .error e => return .error e
  | .ok works => return WorksStatus.ofWorks works

def generateConditions (env : Externals) (promise : Promise) (numberOfPipelines : ℕ) :
    Prog (Except Failure (ParentStatus × Bool)) := do
  match ← getWorksStatus env promise.metadata with
  | .error e => return .error e
  | .ok works =>
    let now ← timeNow
    let worksSucceeded := updateWorksSucceededCondition promise.status works now
    let reconciled := updateReconciledCondition worksSucceeded.1 now
    let counters := generateWorkflowsCounterStatus reconciled.1 numberOfPipelines
    return .ok (counters.1, worksSucceeded.2 || reconciled.2 || counters.2)

variable (env : Externals)

/-! ### Static dependencies -/

def applyWorkForStaticDependencies (promise : Promise) : Prog (Option Failure) := do
  let uuid ← newUUID
  let name := generateObjectName (promise.metadata.name ++ "-static-deps") uuid
  let work := newPromiseDependenciesWork env promise name
  let work := withLabels work (work.metadata.labels.merge
    (getWorkLabels promise.metadata.name "" "" workTypeStaticDependency))
  match ← getWork env systemNamespace work.metadata.labels with
  | .error e => return some e
  | .ok none =>
    match ← createObject .work work with
    | .error e => return some (.api e)
    | .ok _ => return none
  | .ok (some existingWork) =>
    let now ← timeNow
    let annotations := existingWork.metadata.annotations.insert "kratix.io/last-updated-at"
      (toString now)
    let existingWork : Work :=
      { existingWork with
        metadata := { existingWork.metadata with annotations := annotations }
        spec := work.spec }
    match ← updateObject .work existingWork with
    | .error e => return some (.api e)
    | .ok _ => return none

/-! ### Jobs of the Promise's workflows -/

def promiseJobLabels (promise : Promise) : Labels :=
  Labels.ofList [(Label.promiseName, promise.metadata.name),
    (Label.workflowType, WorkflowType.promise.text)]

end PromiseReconciler

end Kratix
