import Kratix.Controllers.Shared
import Kratix.Scheduling.Scheduler

/-!
# The Work controller

A Work is handed to the scheduler, and its conditions then report the
WorkPlacements that could not be written. A deleted Work is held by a finalizer
until its WorkPlacements are gone. Events are left out.
-/

namespace Kratix

open Apiserver Effect

/-- Whether the first condition of this type is false. -/
def isStatusConditionFalse (conditions : List Condition) (type : String) : Bool :=
  (findCondition conditions type).any fun c => c.status == .conditionFalse

namespace WorkController

variable (env : Externals)

def failedWorkPlacements (workplacements : List WorkPlacement) : List String :=
  (workplacements.filter fun wp =>
    isStatusConditionFalse wp.status.conditions ConditionType.writeSucceeded).map
      fun wp => wp.metadata.name

def failingConditions (failedWorkPlacements : List String) : Condition × Condition :=
  (scheduleCondition .conditionFalse "WorkplacementsFailing"
    ("Workplacements failed to write: [" ++ ",".intercalate failedWorkPlacements ++ "]"),
    readyCondition .conditionFalse "WorkplacementsFailing" "Failing")

def updateWorkStatus (work : Work) : Prog ReconcileResult := do
  match ← listWorkplacementWithLabels env work.metadata.ns (workNameLabels work.metadata.name) with
  | .error e => return ⟨.none, some e⟩
  | .ok workplacements =>
    if (failedWorkPlacements workplacements).isEmpty then return {}
    else
      let (scheduleCond, readyCond) := failingConditions (failedWorkPlacements workplacements)
      match setStatusConditions work.status.conditions scheduleCond readyCond with
      | (false, _) => return {}
      | (true, conditions) =>
        return .ofWrite .none (← updateStatus .work
          { work with status := { work.status with conditions := conditions } })

def deleteWork (work : Work) : Prog ReconcileResult := do
  match ← deleteAllResourcesWithKindMatchingLabel .workPlacement
      (workNameLabels work.metadata.name) with
  | .error e => return ⟨.default, some e⟩
  | .ok resourcesRemaining =>
    if resourcesRemaining then return ⟨.default, none⟩
    else
      return .ofWrite .default (← updateObject .work (removeFinalizer work Finalizer.workCleanup))

/-- What follows on scheduling. -/
def reportScheduling (result : ScheduleResult) : Prog ReconcileResult :=
  match result.err with
  | some (.api .conflict) => return ⟨.fast, none⟩
  | some e => return ⟨.none, some e⟩
  | none =>
    if result.work.isResourceRequest && !result.unscheduled.isEmpty then return ⟨.slow, none⟩
    else updateWorkStatus env result.work

def reconcile (ns name : String) : Prog ReconcileResult := do
  match ← getObject .work ns name with
  | .error .notFound => return {}
  | .error e => return ⟨.none, some (.api e)⟩
  | .ok work =>
    if work.metadata.deleting then deleteWork work
    else if !work.metadata.finalizers.contains Finalizer.workCleanup then
      addFinalizers .work work [Finalizer.workCleanup]
    else
      let result ← reconcileWork env work
      reportScheduling env result

end WorkController

end Kratix
