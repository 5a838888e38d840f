import Kratix.Api.PipelineFactory
import Kratix.Lib.Sorting

/-!
# Status, conditions, finalizers and works

The helpers on parent objects and Jobs shared by the workflow reconciler and
the controllers.
-/

namespace Kratix

open Apiserver Effect

/-! ### Conditions of a parent object -/

namespace ConditionType

def configureWorkflowCompleted := "ConfigureWorkflowCompleted"
def deleteWorkflowCompleted := "DeleteWorkflowCompleted"
def promiseAvailable := "PromiseAvailable"
def worksSucceeded := "WorksSucceeded"
def reconciled := "Reconciled"
def ready := "Ready"
def scheduleSucceeded := "ScheduleSucceeded"
def writeSucceeded := "WriteSucceeded"

end ConditionType

def configureWorkflowCompletedFailedReason := "ConfigureWorkflowFailed"

def findCondition (conditions : List Condition) (type : String) : Option Condition :=
  conditions.find? fun c => c.type = type

def Condition.hasSameState (a b : Condition) : Bool :=
  a.type == b.type && a.status == b.status && a.reason == b.reason && a.message == b.message

/-- Conditions are kept sorted by type, the ready condition first. -/
def Condition.before (a b : Condition) : Prop :=
  a.type = ConditionType.ready ∨ (b.type ≠ ConditionType.ready ∧ a.type ≤ b.type)

instance (a b : Condition) : Decidable (a.before b) :=
  inferInstanceAs (Decidable (_ ∨ (_ ∧ _)))

/-- Replace the condition of the same type; the transition time of an unchanged
condition is kept. -/
def setCondition (conditions : List Condition) (c : Condition) : List Condition :=
  match findCondition conditions c.type with
  | none => (conditions ++ [c]).insertionSort Condition.before
  | some old =>
    let c := if old.hasSameState c then old else c
    (conditions.map fun x => if x.type = c.type then c else x).insertionSort Condition.before

namespace ParentStatus

variable (s : ParentStatus)

def withCondition (type : String) (status : ConditionStatus) (reason message : String) (now : ℕ) :
    ParentStatus :=
  { s with conditions := setCondition s.conditions ⟨type, status, reason, message, now⟩ }

def getCondition (type : String) : Option Condition := findCondition s.conditions type

def configureWorkflowCompletedConditionStatus : ConditionStatus :=
  match s.getCondition ConditionType.configureWorkflowCompleted with
  | none => .conditionUnknown
  | some c => c.status

def markConfigureWorkflowAsRunning (now : ℕ) : ParentStatus :=
  s.withCondition ConditionType.configureWorkflowCompleted .conditionFalse "PipelinesInProgress"
    "Pipelines are still in progress" now

def markConfigureWorkflowAsFailed (failedPipeline : String) (now : ℕ) : ParentStatus :=
  s.withCondition ConditionType.configureWorkflowCompleted .conditionFalse
    configureWorkflowCompletedFailedReason ("A Configure Pipeline has failed: " ++ failedPipeline) now

def markReconciledPending (reason : String) (now : ℕ) : ParentStatus :=
  s.withCondition ConditionType.reconciled .conditionUnknown reason "Pending" now

def markReconciledFailing (reason : String) (now : ℕ) : ParentStatus :=
  s.withCondition ConditionType.reconciled .conditionFalse reason "Failing" now

def markReconciledTrue (now : ℕ) : ParentStatus :=
  s.withCondition ConditionType.reconciled .conditionTrue "Reconciled" "Reconciled" now

def markReconciledPaused (now : ℕ) : ParentStatus :=
  s.withCondition ConditionType.reconciled .conditionUnknown "PausedReconciliation" "Paused" now

def markDeleteWorkflowAsFailed (now : ℕ) : ParentStatus :=
  s.withCondition ConditionType.deleteWorkflowCompleted .conditionFalse "DeleteWorkflowFailed"
    "The Delete Pipeline has failed" now

def markPromiseConditionAsNotAvailable (now : ℕ) : ParentStatus :=
  { s with message := "Pending" }.withCondition ConditionType.promiseAvailable .conditionFalse
    "PromiseRequirementsNotInstalled" "Promise Requirements are not installed" now

def markPromiseConditionAsAvailable (now : ℕ) : ParentStatus :=
  s.withCondition ConditionType.promiseAvailable .conditionTrue "PromiseAvailable"
    "Promise Requirements are met" now

def isPromiseMarkedAsUnavailable : Bool :=
  (s.getCondition ConditionType.promiseAvailable).any (·.status == .conditionFalse)

def workListMessage (text : String) (works : List String) : String :=
  "Some works associated with this resource " ++ text ++ ": [" ++ ",".intercalate works ++ "]"

def markAsWorksFailed (works : List String) (now : ℕ) : ParentStatus :=
  s.withCondition ConditionType.worksSucceeded .conditionFalse "WorksFailing"
    (workListMessage "failed" works) now

def markAsWorksMisplaced (works : List String) (now : ℕ) : ParentStatus :=
  s.withCondition ConditionType.worksSucceeded .conditionFalse "WorksMisplaced"
    (workListMessage "are misplaced" works) now

def markAsWorksPending (works : List String) (now : ℕ) : ParentStatus :=
  s.withCondition ConditionType.worksSucceeded .conditionUnknown "WorksPending"
    (workListMessage "are not ready" works) now

def markAsWorksSucceeded (now : ℕ) : ParentStatus :=
  s.withCondition ConditionType.worksSucceeded .conditionTrue "WorksSucceeded"
    "All works associated with this resource are ready" now

end ParentStatus

/-- A counter that is not there reads as -1. -/
def counterStatus (counter : Option ℤ) : ℤ := counter.getD (-1)

/-! ### Jobs by creation time -/

def newestFirst (jobs : List Job) : List Job :=
  jobs.insertionSort fun a b => b.created ≤ a.created

def oldestFirst (jobs : List Job) : List Job :=
  jobs.insertionSort fun a b => a.created ≤ b.created

/-! ### Finalizers -/

section Finalizers

variable {σ τ : Type} (o : Object σ τ)

def containsFinalizer (finalizer : String) : Bool := o.metadata.finalizers.contains finalizer

def finalizersAreMissing (finalizers : List String) : Bool :=
  finalizers.any fun f => !containsFinalizer o f

def finalizersAreDeleted (finalizers : List String) : Bool :=
  !finalizers.any (containsFinalizer o)

def withFinalizers (finalizers : List String) : Object σ τ :=
  { o with metadata := { o.metadata with finalizers := finalizers } }

def addFinalizer (finalizer : String) : Object σ τ :=
  if containsFinalizer o finalizer then o
  else withFinalizers o (o.metadata.finalizers ++ [finalizer])

theorem addFinalizer_eq (finalizer : String) :
    addFinalizer o finalizer = withFinalizers o
      (if finalizer ∈ o.metadata.finalizers then o.metadata.finalizers
        else o.metadata.finalizers ++ [finalizer]) := by
  unfold addFinalizer containsFinalizer
  by_cases h : finalizer ∈ o.metadata.finalizers <;> simp [h, withFinalizers]

def removeFinalizer (finalizer : String) : Object σ τ :=
  withFinalizers o (o.metadata.finalizers.filter (· ≠ finalizer))

def withLabels (labels : Labels) : Object σ τ :=
  { o with metadata := { o.metadata with labels := labels } }

end Finalizers

/-! ### Works -/

/-- The labels the work creator sets on a Work. -/
def getWorkLabels (promiseName resourceName pipelineName workType : String) : Labels :=
  let l := Labels.ofList [(Label.promiseName, promiseName), (Label.workType, workType)]
  let l := if pipelineName = "" then l else l.insert Label.pipelineName pipelineName
  if resourceName = "" then l else l.insert Label.resourceName resourceName

def getExistingWorks (env : Externals) (ns : String) (workLabels : Labels) :
    Prog (Except Failure (List Work)) := do
  match env.parseLabels workLabels with
  | none => return .error .invalidSelector
  | some selector =>
    match ← listObjects .work ns selector with
    | .error e => return .error (.api e)
    | .ok works => return .ok works

def getAllWorksForResource (env : Externals) (ns promiseName resourceName : String) :
    Prog (Except Failure (List Work)) :=
  getExistingWorks env ns
    (Labels.ofList [(Label.promiseName, promiseName), (Label.resourceName, resourceName)])

def getWorksByType (env : Externals) (workflowType : WorkflowType) (obj : ObjectMeta) :
    Prog (Except Failure (List Work)) :=
  let ns := if obj.ns = "" then systemNamespace else obj.ns
  let l := Labels.ofList [(Label.workType, workflowType.text)]
  let l := match workflowType with
    | .resource => (l.insert Label.resourceName obj.name).insert Label.promiseName
        (obj.labels.value Label.promiseName)
    | .promise => l.insert Label.promiseName obj.name
  getExistingWorks env ns l

/-- The one Work with these labels; more than one is an error. -/
def getWork (env : Externals) (ns : String) (labels : Labels) :
    Prog (Except Failure (Option Work)) := do
  match ← getExistingWorks env ns labels with
  | .error e => return .error e
  | .ok [] => return .ok none
  | .ok [work] => return .ok (some work)
  | .ok _ => return .error (.message "more than 1 work exist with the matching labels")

end Kratix
