import Kratix.ResourceUtil
import Kratix.Scheduling.Selectors

/-!
# The scheduler

Each workload group of a Work is placed on Destinations by WorkPlacements: one
of the matching Destinations for a resource request, all of them for the
dependencies of a Promise. The events that the scheduler records and the
transition times of its conditions are left out.
-/

namespace Kratix

open Apiserver Effect

variable (env : Externals)

def shortID (id : String) : String := String.ofList (id.toList.take 5)

/-! ### Conditions of Works and WorkPlacements -/

/-- The conditions with the new one in place of the first of its type, and
whether that changed anything. -/
def setStatusCondition (conditions : List Condition) (newCondition : Condition) :
    Bool × List Condition :=
  match findCondition conditions newCondition.type with
  | none => (true, conditions ++ [newCondition])
  | some existing =>
    if existing.hasSameState newCondition then (false, conditions)
    else (true, conditions.modify (conditions.findIdx fun c => c.type = newCondition.type)
      fun _ => newCondition)

/-- Set the second condition only when the first one changes something. -/
def setStatusConditions (conditions : List Condition) (first second : Condition) :
    Bool × List Condition :=
  match setStatusCondition conditions first with
  | (false, conditions) => (false, conditions)
  | (true, conditions) => (true, (setStatusCondition conditions second).2)

def readyCondition (status : ConditionStatus) (reason message : String) : Condition :=
  { type := ConditionType.ready, status, reason, message }

def scheduleCondition (status : ConditionStatus) (reason message : String) : Condition :=
  { type := ConditionType.scheduleSucceeded, status, reason, message }

def scheduleSucceededConditionMismatchReason := "DestinationSelectorMismatch"

def scheduleSucceededConditionMismatchMsg :=
  "Target destination no longer matches destinationSelectors"

/-! ### Selecting Destinations -/

/-- A text that does not parse as a selector is logged, and everything is selected. -/
def selectorOrEverything (labels : Labels) : Selector :=
  (env.parseLabels labels).getD Selector.everything

/-- Whether a Destination is open to a workload group with these selectors. -/
def isAvailable (destinationSelectors : Labels) (destination : Destination) : Bool :=
  !(destination.metadata.deleting ||
    (destinationSelectors.entries.isEmpty &&
      (destination.spec.strictMatchLabels && !destination.metadata.labels.entries.isEmpty)))

def getDestinationsForWorkloadGroup (destinationSelectors : Labels) : Prog (List Destination) := do
  let selector := if destinationSelectors.entries.isEmpty then Selector.everything
    else selectorOrEverything env destinationSelectors
  match ← listObjects .destination "" selector with
  | .error _ => return []
  | .ok items => return items.filter (isAvailable destinationSelectors)

def getTargetDestinationNames (destinationSelectors : Labels) (work : Work) :
    Prog (List String) := do
  match ← getDestinationsForWorkloadGroup env destinationSelectors with
  | [] => return []
  | destinations =>
    if work.isResourceRequest then
      let randomDestinationIndex ← randIntn destinations.length
      return (destinations[randomDestinationIndex]?.map fun d => d.metadata.name).toList
    else return destinations.map fun d => d.metadata.name

/-! ### Existing WorkPlacements -/

def listWorkplacementWithLabels (ns : String) (matchLabels : Labels) :
    Prog (Except Failure (List WorkPlacement)) := do
  match ← listObjects .workPlacement ns (selectorOrEverything env matchLabels) with
  | .error e => return .error (.api e)
  | .ok items => return .ok items

def workloadGroupLabels (workName workloadGroupID : String) : Labels :=
  Labels.ofList [(Label.work, workName), (Label.workloadGroupID, workloadGroupID)]

def workNameLabels (workName : String) : Labels := Labels.ofList [(Label.work, workName)]

def getExistingWorkPlacementsForWorkloadGroup (ns workName : String)
    (workloadGroup : WorkloadGroup) : Prog (Except Failure (List WorkPlacement)) :=
  listWorkplacementWithLabels env ns (workloadGroupLabels workName workloadGroup.id)

def getExistingWorkPlacementsForWork (ns workName : String) :
    Prog (Except Failure (List WorkPlacement)) :=
  listWorkplacementWithLabels env ns (workNameLabels workName)

/-! ### Writing WorkPlacements -/

def workPlacementConditions (misplaced : Bool) : Condition × Condition :=
  if misplaced then
    (scheduleCondition .conditionFalse scheduleSucceededConditionMismatchReason
      scheduleSucceededConditionMismatchMsg,
      readyCondition .conditionFalse "Misplaced" "Misplaced")
  else
    (scheduleCondition .conditionTrue "ScheduledToDestination" "Scheduled to correct Destination",
      readyCondition .conditionTrue "Ready" "Ready")

def updateWorkPlacementStatus (ns name : String) (misplaced : Bool) : Prog (Option Failure) := do
  match ← getObject .workPlacement ns name with
  | .error e => return some (.api e)
  | .ok updatedwp =>
    let (desiredScheduleCond, desiredReadyCond) := workPlacementConditions misplaced
    match setStatusConditions updatedwp.status.conditions desiredScheduleCond desiredReadyCond with
    | (false, _) => return none
    | (true, conditions) =>
      match ← updateStatus .workPlacement
          { updatedwp with status := { updatedwp.status with conditions := conditions } } with
      | .error e => return some (.api e)
      | .ok _ => return none

def labelWorkplacementAsMisplaced (workPlacement : WorkPlacement) : WorkPlacement :=
  withLabels workPlacement (workPlacement.metadata.labels.insert Label.misscheduled "true")

/-- Give the WorkPlacement of a resource request the workloads of its group. -/
def updateWorkPlacement (workloadGroup : WorkloadGroup) (workPlacement : WorkPlacement) :
    Prog (Except Failure Bool) := do
  let destinations ← getDestinationsForWorkloadGroup env
    (resolveDestinationSelectorsForWorkloadGroup workloadGroup)
  let misplaced := !destinations.any fun dest =>
    dest.metadata.name == workPlacement.spec.targetDestinationName
  let workPlacement := if misplaced then labelWorkplacementAsMisplaced workPlacement
    else workPlacement
  match ← updateObject .workPlacement { workPlacement with
      spec := { workPlacement.spec with workloads := workloadGroup.workloads } } with
  | .error e => return .error (.api e)
  | .ok _ =>
    match ← updateWorkPlacementStatus workPlacement.metadata.ns workPlacement.metadata.name
        misplaced with
    | some e => return .error e
    | none => return .ok misplaced

/-- Make the Work the controlling owner; an object has at most one. -/
def setControllerReference {σ τ : Type} (owner : ObjectMeta) (controlled : Object σ τ) :
    Except Failure (Object σ τ) :=
  if controlled.metadata.owner.isSome && controlled.metadata.ownerName != owner.name then
    .error (.message "Object is already owned by another controller")
  else .ok { controlled with metadata := { controlled.metadata with
    owner := some owner.creationTimestamp
    ownerName := owner.name } }

def workPlacementName (work : Work) (targetDestinationName : String)
    (workloadGroup : WorkloadGroup) : String :=
  work.metadata.name ++ "." ++ targetDestinationName ++ "-" ++ shortID workloadGroup.id

/-- The labels of a WorkPlacement, with the name of the Work's pipeline. -/
def workPlacementLabels (work : Work) (targetDestinationName : String)
    (workloadGroup : WorkloadGroup) : Labels :=
  (Labels.ofList [(Label.work, work.metadata.name), (Label.workloadGroupID, workloadGroup.id),
    (Label.targetDestinationName, targetDestinationName)]).insert Label.pipelineName
      (work.metadata.labels.value Label.pipelineName)

/-- The WorkPlacement that a new or an existing one becomes. -/
def mutateWorkPlacement (workloadGroup : WorkloadGroup) (work : Work)
    (targetDestinationName : String) (misscheduled : Bool) (workPlacement : WorkPlacement) :
    Except Failure WorkPlacement :=
  let workPlacement := { workPlacement with
    metadata := { workPlacement.metadata with
      labels := workPlacementLabels work targetDestinationName workloadGroup
      annotations := work.metadata.annotations } }
  let workPlacement := if misscheduled then labelWorkplacementAsMisplaced workPlacement
    else workPlacement
  let workPlacement := addFinalizer { workPlacement with
    spec := {
      workloads := workloadGroup.workloads
      id := workloadGroup.id
      promiseName := work.spec.promiseName
      resourceName := work.spec.resourceName
      targetDestinationName := targetDestinationName } } Finalizer.repoCleanup
  setControllerReference work.metadata workPlacement

/-- Create the object, or update the stored one when the function changes it. -/
def createOrUpdate (k : Kind) [DecidableEq (scheme.Obj k)] (new : scheme.Obj k)
    (mutate : scheme.Obj k → Except Failure (scheme.Obj k)) : Prog (Option Failure) := do
  match ← getObject k new.metadata.ns new.metadata.name with
  | .error .notFound =>
    match mutate new with
    | .error e => return some e
    | .ok obj =>
      match ← createObject k obj with
      | .error e => return some (.api e)
      | .ok _ => return none
  | .error e => return some (.api e)
  | .ok existing =>
    match mutate existing with
    | .error e => return some e
    | .ok obj =>
      if obj = existing then return none
      else
        match ← updateObject k obj with
        | .error e => return some (.api e)
        | .ok _ => return none

def applyWorkplacement (workloadGroup : WorkloadGroup) (work : Work)
    (targetDestinationName : String) (misscheduled : Bool) : Prog (Option Failure) := do
  let ns := work.metadata.ns
  let name := workPlacementName work targetDestinationName workloadGroup
  match ← createOrUpdate .workPlacement ⟨{ ns := ns, name := name }, {}, {}⟩
      (mutateWorkPlacement workloadGroup work targetDestinationName misscheduled) with
  | some e => return some e
  | none => updateWorkPlacementStatus ns name misscheduled

/-- One WorkPlacement after another, in the order of the names. -/
def applyWorkplacements (workloadGroup : WorkloadGroup) (work : Work)
    (targetDestinations : StringMap Bool) : List String → Prog (Option Failure)
  | [] => return none
  | name :: names => do
    match ← applyWorkplacement workloadGroup work name
        ((targetDestinations.lookup name).getD false) with
    | some e => return some e
    | none => applyWorkplacements workloadGroup work targetDestinations names

def applyWorkplacementsForTargetDestinations (workloadGroup : WorkloadGroup) (work : Work)
    (targetDestinations : StringMap Bool) : Prog (Except Failure Bool) := do
  let names ← mapOrder targetDestinations.keys
  match ← applyWorkplacements workloadGroup work targetDestinations names with
  | some e => return .error e
  | none => return .ok (targetDestinations.entries.any fun e => e.2)

/-! ### Scheduling a workload group -/

inductive SchedulingStatus
  | scheduled
  | unscheduled
  | misplaced
  deriving DecidableEq, Repr

/-- The names to schedule to; the value tells whether the Destination no longer matches. -/
def targetDestinationMap (targetDestinationNames : List String)
    (existingWorkplacements : List WorkPlacement) : StringMap Bool :=
  let selected := targetDestinationNames.foldl (fun m dest => m.insert dest false)
    (∅ : StringMap Bool)
  existingWorkplacements.foldl (fun m wp =>
    let dest := wp.spec.targetDestinationName
    if (m.lookup dest).isSome then m else m.insert dest true) selected

/-- Update each of the WorkPlacements; the counts are of failed and misplaced ones. -/
def updateWorkPlacements (workloadGroup : WorkloadGroup) :
    List WorkPlacement → Prog (ℕ × ℕ)
  | [] => return (0, 0)
  | existing :: rest => do
    let result ← updateWorkPlacement env workloadGroup existing
    let (errored, misplaced) ← updateWorkPlacements workloadGroup rest
    match result with
    | .error _ => return (errored + 1, misplaced)
    | .ok true => return (errored, misplaced + 1)
    | .ok false => return (errored, misplaced)

def placeWorkloadGroup (workloadGroup : WorkloadGroup) (work : Work)
    (existingWorkplacements : List WorkPlacement) : Prog (Except Failure SchedulingStatus) := do
  let names ← getTargetDestinationNames env
    (resolveDestinationSelectorsForWorkloadGroup workloadGroup) work
  let targets := targetDestinationMap names existingWorkplacements
  if targets.entries.isEmpty then return .ok .unscheduled
  else
    match ← applyWorkplacementsForTargetDestinations workloadGroup work targets with
    | .error e => return .error e
    | .ok misplaced => return .ok (if misplaced then .misplaced else .scheduled)

def reconcileWorkloadGroup (workloadGroup : WorkloadGroup) (work : Work) :
    Prog (Except Failure SchedulingStatus) := do
  match ← getExistingWorkPlacementsForWorkloadGroup env work.metadata.ns work.metadata.name
      workloadGroup with
  | .error e => return .error e
  | .ok existingWorkplacements =>
    if work.isResourceRequest && !existingWorkplacements.isEmpty then
      let (errored, misplaced) ← updateWorkPlacements env workloadGroup existingWorkplacements
      if 0 < errored then return .error (.message ("failed to update " ++ toString errored ++ " of " ++
        toString existingWorkplacements.length ++ " workplacements for work"))
      else return .ok (if 0 < misplaced then .misplaced else .scheduled)
    else placeWorkloadGroup env workloadGroup work existingWorkplacements

/-! ### Scheduling a Work -/

/-- The conditions that report the result of scheduling. -/
def workConditions (unscheduled misplaced : List String) : Condition × Condition :=
  if !unscheduled.isEmpty then
    (scheduleCondition .conditionFalse "UnscheduledWorkloads"
      ("No matching destination found for workloadGroups: [" ++ ",".intercalate unscheduled ++ "]"),
      readyCondition .conditionFalse "UnscheduledWorkloads" "Pending")
  else if !misplaced.isEmpty then
    (scheduleCondition .conditionFalse scheduleSucceededConditionMismatchReason
      ("Target destination no longer matches destinationSelectors for workloadGroups: [" ++
        ",".intercalate misplaced ++ "]"),
      readyCondition .conditionFalse "Misplaced" "Misplaced")
  else
    (scheduleCondition .conditionTrue "AllWorkplacementsScheduled"
      "All workplacements scheduled successfully",
      readyCondition .conditionTrue "AllWorkplacementsScheduled" "Ready")

/-- The status after scheduling, and whether it is a new one. -/
def updatedWorkStatus (work : Work) (unscheduled misplaced : List String) : Bool × WorkStatus :=
  let workPlacements := work.spec.workloadGroups.length
  let workPlacementsCreated := workPlacements - unscheduled.length
  let changed := workPlacements != work.status.workPlacements ||
    workPlacementsCreated != work.status.workPlacementsCreated
  let (scheduleCond, readyCond) := workConditions unscheduled misplaced
  let (updated, conditions) := setStatusConditions work.status.conditions scheduleCond readyCond
  (changed || updated, ⟨conditions, workPlacements, workPlacementsCreated⟩)

def failedWorkConditions (workloadGroupID : String) : Condition × Condition :=
  (scheduleCondition .conditionFalse "FailedToScheduleWorkloads"
    ("Failed to schedule or update for workloadGroups: [" ++ workloadGroupID ++ "]"),
    readyCondition .conditionFalse "FailedToScheduleWorkloads" "Pending")

/-- The groups one after another; the first failure ends the loop. The lists
are the unscheduled and the misplaced groups so far. -/
def reconcileWorkloadGroups (work : Work) :
    List WorkloadGroup → List String → List String →
      Prog (Except WorkloadGroup (List String × List String))
  | [], unschedulable, misplaced => return .ok (unschedulable, misplaced)
  | wg :: rest, unschedulable, misplaced => do
    match ← reconcileWorkloadGroup env wg work with
    | .error _ => return .error wg
    | .ok .unscheduled => reconcileWorkloadGroups work rest (unschedulable ++ [wg.id]) misplaced
    | .ok .misplaced => reconcileWorkloadGroups work rest unschedulable (misplaced ++ [wg.id])
    | .ok .scheduled => reconcileWorkloadGroups work rest unschedulable misplaced

/-- The names of the WorkPlacements of the groups. -/
def namesThatShouldExist (work : Work) : List WorkloadGroup → Prog (Except Failure (List String))
  | [] => return .ok []
  | wg :: rest => do
    match ← getExistingWorkPlacementsForWorkloadGroup env work.metadata.ns work.metadata.name wg with
    | .error e => return .error e
    | .ok workPlacements =>
      match ← namesThatShouldExist work rest with
      | .error e => return .error e
      | .ok names => return .ok (workPlacements.map (fun wp => wp.metadata.name) ++ names)

def deleteWorkPlacements : List WorkPlacement → Prog (Option Failure)
  | [] => return none
  | wp :: rest => do
    match ← deleteObject .workPlacement wp.metadata.ns wp.metadata.name with
    | .error e => return some (.api e)
    | .ok _ => deleteWorkPlacements rest

/-- Delete the WorkPlacements of groups that the Work no longer has. -/
def cleanupDanglingWorkplacements (work : Work) : Prog (Option Failure) := do
  match ← namesThatShouldExist env work work.spec.workloadGroups with
  | .error e => return some e
  | .ok workplacementsThatShouldExist =>
    match ← getExistingWorkPlacementsForWork env work.metadata.ns work.metadata.name with
    | .error e => return some e
    | .ok allWorkplacementsForWork =>
      deleteWorkPlacements (allWorkplacementsForWork.filter fun wp =>
        !workplacementsThatShouldExist.contains wp.metadata.name)

/-- The groups that could not be placed, the error, and the Work as it is left. -/
structure ScheduleResult where
  unscheduled : List String
  err : Option Failure
  work : Work

/-- Write the status of the Work; an object that is written is the stored one afterwards. -/
def writeWorkStatus (work : Work) : Prog (Option Failure × Work) := do
  match ← updateStatus .work work with
  | .error e => return (some (.api e), work)
  | .ok stored => return (none, stored)

def reconcileWork (work : Work) : Prog ScheduleResult := do
  match ← reconcileWorkloadGroups env work work.spec.workloadGroups [] [] with
  | .error wg =>
    let (scheduleCond, readyCond) := failedWorkConditions wg.id
    let conditions := (setStatusCondition (setStatusCondition work.status.conditions
      scheduleCond).2 readyCond).2
    let (err, work) ← writeWorkStatus { work with status := { work.status with
      conditions := conditions } }
    return ⟨[], err, work⟩
  | .ok (unschedulable, misplaced) =>
    let (updated, status) := updatedWorkStatus work unschedulable misplaced
    let (err, work) ← if updated then writeWorkStatus { work with status := status }
      else pure (none, { work with status := status })
    if err.isSome then return ⟨[], err, work⟩
    else
      let err ← cleanupDanglingWorkplacements env work
      return ⟨unschedulable, err, work⟩

end Kratix
