import Kratix.Controllers.Shared
import Kratix.Scheduling.Scheduler

/-!
# The WorkPlacement controller

A WorkPlacement's workloads are written to the state store of its Destination:
into a directory of their own, side by side with a state file that lists them, or
into one file together with those of all WorkPlacements of the Destination. A
deleted WorkPlacement is held by finalizers until its files are gone. Events and
the transition times of conditions are left out.
-/

namespace Kratix

open Apiserver Effect GoPath

def newStateStoreWriter (stateStoreKind : StateStoreKind) (stateStore : StateStoreSpec)
    (destinationPath : Path) : Writer :=
  match stateStoreKind with
  | .bucket => newS3Writer stateStore destinationPath
  | .git => newGitWriter stateStore destinationPath

def newWriter (stateStoreRef : StateStoreRef) (destinationPath : Path) :
    Prog (Except Failure Writer) := do
  match ← getObject (.stateStore stateStoreRef.kind) "" stateStoreRef.name with
  | .error e => return .error (.api e)
  | .ok stateStore =>
    match ← connect stateStoreRef with
    | .error e => return .error (.api e)
    | .ok () =>
      return .ok (newStateStoreWriter stateStoreRef.kind stateStore.spec destinationPath)

namespace WorkPlacementController

variable (env : Externals)

/-! ### Paths and contents -/

def pipelineName (workPlacement : WorkPlacement) : String :=
  workPlacement.metadata.labels.value Label.pipelineName

def getUniqueID (workPlacement : WorkPlacement) : String :=
  workPlacement.metadata.ns ++ "-" ++ workPlacement.metadata.name

def getDir (workPlacement : WorkPlacement) : Path :=
  let spec := workPlacement.spec
  if spec.resourceName = "" then
    join [["dependencies"], [spec.promiseName], [pipelineName workPlacement], [shortID spec.id]]
  else
    join [["resources"], [workPlacement.metadata.ns], [spec.promiseName], [spec.resourceName],
      [pipelineName workPlacement], [shortID spec.id]]

/-- The state file of a WorkPlacement without a directory of its own. -/
def kratixFilePath (workPlacement : WorkPlacement) : Path :=
  [".kratix", workPlacement.metadata.ns ++ "-" ++ workPlacement.metadata.name ++ ".yaml"]

def workloadsFilenames (works : List Workload) : List Path := works.map Workload.filepath

/-- The old files that are not among the new ones. -/
def cleanupWorkloads (oldWorkloads : List Path) (newWorkloads : List Workload) : List Path :=
  oldWorkloads.filter fun w => !(workloadsFilenames newWorkloads).contains w

def documentSeparator : Bytes := [10, 45, 45, 45, 10]

def concatenateYAMLs (workloads : List Workload) : Bytes :=
  documentSeparator.intercalate (workloads.map Workload.content)

def decompressWorkloads : List Workload → Except Failure (List Workload)
  | [] => return []
  | workload :: rest =>
    match env.decompressContent workload.content with
    | none => throw (.message "unable to decompress file content")
    | some content => return { workload with content := content } :: (← decompressWorkloads rest)

def combineWorkloads (workPlacements : List WorkPlacement) : Except Failure (List Workload) :=
  decompressWorkloads env (workPlacements.flatMap fun wp => wp.spec.workloads)

/-! ### Writing -/

def destinationLabels (destinationName : String) : Labels :=
  Labels.ofList [(Label.targetDestinationName, destinationName)]

def getAllWorkplacementsForDestination (destinationName : String) :
    Prog (Except Failure (List WorkPlacement)) := do
  match ← listObjects .workPlacement "" (Selector.fromSet (destinationLabels destinationName)) with
  | .error e => return .error (.api e)
  | .ok allWorkplacements => return .ok (allWorkplacements.filter fun wp => !wp.metadata.deleting)

/-- The file for all WorkPlacements of the Destination. For a deleted WorkPlacement it is
written and the finalizer removed; the flag tells whether that happened. -/
def handleAggregatedYAML (workPlacement : WorkPlacement) (destination : Destination) (dir : Path)
    (writer : Writer) : Prog (Except Failure (Workload × Bool)) := do
  match ← getAllWorkplacementsForDestination workPlacement.spec.targetDestinationName with
  | .error e => return .error e
  | .ok [] => return .ok (⟨[], []⟩, false)
  | .ok activeWorkplacements =>
    match combineWorkloads env activeWorkplacements with
    | .error e => return .error e
    | .ok combinedWorkloads =>
      let workload := ⟨destination.spec.filename, concatenateYAMLs combinedWorkloads⟩
      if workPlacement.metadata.deleting then
        match ← updateFiles writer dir workPlacement.metadata.name [workload] [] with
        | .error e => return .error (.message ("error regenerating aggregated YAML: " ++ e.text))
        | .ok _ =>
          match ← updateObject .workPlacement
              (removeFinalizer workPlacement Finalizer.repoCleanup) with
          | .error e => return .error (.api e)
          | .ok _ => return .ok (workload, true)
      else return .ok (workload, false)

/-- The new state file and the files that the stored one lists. -/
def generateKratixStateFile (workPlacement : WorkPlacement) (writer : Writer) :
    Prog (Except Failure (Workload × List Path)) := do
  let stateFile : Workload := ⟨kratixFilePath workPlacement,
    env.marshalStateFile (workloadsFilenames workPlacement.spec.workloads)⟩
  match ← readStoredFile writer (kratixFilePath workPlacement) with
  | .error .fileNotFound => return .ok (stateFile, [])
  | .error e => return .error (.message ("failed to read .kratix state file: " ++ e.text))
  | .ok kratixFile =>
    match env.unmarshalStateFile kratixFile with
    | none => return .error (.message "failed to unmarshal .kratix state file")
    | some oldFiles => return .ok (stateFile, oldFiles)

def storeUpdate (writer : Writer) (dir : Path) (workPlacement : WorkPlacement)
    (workloadsToCreate : List Workload) (workloadsToDelete : List Path) :
    Prog (Except Failure String) := do
  match ← updateFiles writer dir workPlacement.metadata.name workloadsToCreate workloadsToDelete with
  | .error e => return .error (.store e)
  | .ok versionID => return .ok versionID

def writeWorkloadsToStateStore (writer : Writer) (workPlacement : WorkPlacement)
    (destination : Destination) : Prog (Except Failure String) := do
  match destination.spec.filepathMode with
  | .aggregatedYAML =>
    match ← handleAggregatedYAML env workPlacement destination [] writer with
    | .error e => return .error e
    | .ok (workload, _) => storeUpdate writer [] workPlacement [workload] []
  | .none =>
    match ← generateKratixStateFile env workPlacement writer with
    | .error e => return .error e
    | .ok (stateFile, oldFiles) =>
      match decompressWorkloads env workPlacement.spec.workloads with
      | .error e => return .error e
      | .ok workloads =>
        storeUpdate writer [] workPlacement (stateFile :: workloads)
          (cleanupWorkloads oldFiles workPlacement.spec.workloads)
  | .nestedByMetadata =>
    match decompressWorkloads env workPlacement.spec.workloads with
    | .error e => return .error e
    | .ok workloads => storeUpdate writer (getDir workPlacement) workPlacement workloads []

/-! ### Status -/

def writeSucceededCondition : Condition where
  type := ConditionType.writeSucceeded
  status := .conditionTrue
  reason := "WorkloadsWrittenToStateStore"
  message := ""

def writeFailedCondition (message : String) : Condition where
  type := ConditionType.writeSucceeded
  status := .conditionFalse
  reason := "WorkloadsFailedWrite"
  message := message

def Failure.text : Failure → String
  | .message text => text
  | .store e => e.text
  | _ => ""

def withConditions (workPlacement : WorkPlacement) (conditions : List Condition) : WorkPlacement :=
  { workPlacement with status := { workPlacement.status with conditions := conditions } }

/-- A failing update of the status is only logged. -/
def setWriteFailStatusConditions (workPlacement : WorkPlacement) (err : Failure) : Prog Unit := do
  let (writeSucceededUpdated, conditions) := setStatusCondition workPlacement.status.conditions
    (writeFailedCondition (Failure.text err))
  let (readyUpdated, conditions) := setStatusCondition conditions
    (readyCondition .conditionFalse "WorkloadsFailedWrite" "Failing")
  if writeSucceededUpdated || readyUpdated then do
    let _ ← Kratix.updateStatus .workPlacement (withConditions workPlacement conditions)
    return
  else return

/-- Write, and report it in the status. The result goes on with the WorkPlacement as it
then is, or stops. -/
def writeToStateStore (workPlacement : WorkPlacement) (destination : Destination) :
    Prog (Except ReconcileResult (WorkPlacement × String)) := do
  match ← newWriter destination.spec.stateStoreRef destination.spec.path with
  | .error (.api .notFound) => return .error { requeue := .default }
  | .error e => return .error { err := some e }
  | .ok writer =>
    match ← writeWorkloadsToStateStore env writer workPlacement destination with
    | .error e =>
      setWriteFailStatusConditions workPlacement e
      return .error { requeue := .default }
    | .ok versionID =>
      match setStatusCondition workPlacement.status.conditions writeSucceededCondition with
      | (false, _) => return .ok (workPlacement, versionID)
      | (true, conditions) =>
        match ← Kratix.updateStatus .workPlacement (withConditions workPlacement conditions) with
        | .error _ => return .error { requeue := .default }
        | .ok workPlacement => return .ok (workPlacement, versionID)

/-- A version that could not be reported yet is taken from the cache. -/
def versionToReport (workPlacement : WorkPlacement) (versionID : String) : Prog String := do
  let cached := (← cachedVersion (getUniqueID workPlacement)).getD ""
  if versionID = "" && cached ≠ "" then do
    cacheVersion (getUniqueID workPlacement) none
    return cached
  else return versionID

def updateStatus (workPlacement : WorkPlacement) (versionID : String) :
    Prog (Except ReconcileResult WorkPlacement) := do
  let versionID ← versionToReport workPlacement versionID
  if versionID ≠ "" && workPlacement.status.versionID ≠ versionID then
    match ← Kratix.updateStatus .workPlacement { workPlacement with
        status := { workPlacement.status with versionID := versionID } } with
    | .error .conflict => do
      cacheVersion (getUniqueID workPlacement) (some versionID)
      return .error { requeue := .fast }
    | .error e => do
      cacheVersion (getUniqueID workPlacement) (some versionID)
      return .error { err := some (.api e) }
    | .ok workPlacement => return .ok workPlacement
  else return .ok workPlacement

def setWorkplacementReady (workPlacement : WorkPlacement) : Prog ReconcileResult := do
  let conditions := workPlacement.status.conditions
  let misplaced := conditions.any fun c =>
    c.type == ConditionType.scheduleSucceeded && c.status == .conditionFalse
  let writeSucceeded := conditions.any fun c =>
    c.type == ConditionType.writeSucceeded && c.status == .conditionTrue
  if writeSucceeded && !misplaced then
    match setStatusCondition conditions
        (readyCondition .conditionTrue "WorkloadsWrittenToTargetDestination" "Ready") with
    | (false, _) => return {}
    | (true, conditions) =>
      match ← Kratix.updateStatus .workPlacement (withConditions workPlacement conditions) with
      | .error e => return { err := some (.api e) }
      | .ok _ => return {}
  else return {}

/-! ### Deleting -/

/-- Remove files, and then the finalizer that stands for them. -/
def delete (writer : Writer) (dir : Path) (workPlacement : WorkPlacement)
    (workloadsToDelete : List Path) (finalizerToRemove : String) : Prog ReconcileResult := do
  match ← updateFiles writer dir workPlacement.metadata.name [] workloadsToDelete with
  | .error e => return { err := some (.store e) }
  | .ok _ =>
    match ← updateObject .workPlacement (removeFinalizer workPlacement finalizerToRemove) with
    | .error e => return { err := some (.api e) }
    | .ok _ => return { requeue := .fast }

def cleanupDeletionFinalizers (workPlacement : WorkPlacement) : WorkPlacement :=
  removeFinalizer (removeFinalizer workPlacement Finalizer.repoCleanup) Finalizer.kratixFileCleanup

/-- Remove the files of a WorkPlacement of this Destination. -/
def deleteFromDestination (destination : Destination) (writer : Writer)
    (workPlacement : WorkPlacement) : Prog ReconcileResult := do
  if containsFinalizer workPlacement Finalizer.repoCleanup then
    match destination.spec.filepathMode with
    | .nestedByMetadata =>
      -- the directory with a slash at its end
      delete writer (getDir workPlacement ++ [""]) workPlacement [] Finalizer.repoCleanup
    | .none =>
      match ← readStoredFile writer (kratixFilePath workPlacement) with
      | .error e => return { err := some (.store e) }
      | .ok kratixFile =>
        match env.unmarshalStateFile kratixFile with
        | none =>
          return { requeue := .default,
                   err := some (.message "failed to unmarshal .kratix state file") }
        | some files => delete writer [] workPlacement files Finalizer.repoCleanup
    | .aggregatedYAML =>
      match ← handleAggregatedYAML env workPlacement destination [] writer with
      | .error e => return { err := some e }
      | .ok (_, true) => return { requeue := .fast }
      | .ok (_, false) =>
        delete writer [] workPlacement [destination.spec.filename] Finalizer.repoCleanup
  else if containsFinalizer workPlacement Finalizer.kratixFileCleanup then
    delete writer [] workPlacement [kratixFilePath workPlacement] Finalizer.kratixFileCleanup
  else return {}

def requeueIfNotFound : Failure → ReconcileResult
  | .api .notFound => { requeue := .default }
  | e => { err := some e }

/-- Without its Destination nothing is left to remove but the finalizers. -/
def deleteWithoutDestination (workPlacement : WorkPlacement) : Prog ReconcileResult := do
  match ← updateObject .workPlacement (cleanupDeletionFinalizers workPlacement) with
  | .error e => return { err := some (.api e) }
  | .ok _ => return {}

def handleDeletion (workPlacement : WorkPlacement) (destination : Except ApiError Destination) :
    Prog ReconcileResult := do
  match destination with
  | .error .notFound => deleteWithoutDestination workPlacement
  | .error e => return { err := some (.api e) }
  | .ok destination =>
    match ← newWriter destination.spec.stateStoreRef destination.spec.path with
    | .error e => return requeueIfNotFound e
    | .ok writer => deleteFromDestination env destination writer workPlacement

/-! ### Reconciling -/

def checkWorkPlacementFinalizers (workPlacement : WorkPlacement) (filepathMode : FilepathMode) :
    List String :=
  (if containsFinalizer workPlacement Finalizer.repoCleanup then [] else [Finalizer.repoCleanup]) ++
    if filepathMode = .none && !containsFinalizer workPlacement Finalizer.kratixFileCleanup then
      [Finalizer.kratixFileCleanup]
    else []

def addFinalizers (workPlacement : WorkPlacement) (finalizers : List String) :
    Prog ReconcileResult := do
  match ← updateObject .workPlacement (finalizers.foldl addFinalizer workPlacement) with
  | .error e => return { err := some (.api e) }
  | .ok _ => return {}

def reconcileWritten (workPlacement : WorkPlacement) (destination : Destination)
    (versionID : String) : Prog ReconcileResult := do
  match ← updateStatus workPlacement versionID with
  | .error result => return result
  | .ok workPlacement =>
    match checkWorkPlacementFinalizers workPlacement destination.spec.filepathMode with
    | [] => setWorkplacementReady workPlacement
    | missingFinalizers => addFinalizers workPlacement missingFinalizers

def reconcile (ns name : String) : Prog ReconcileResult := do
  match ← getObject .workPlacement ns name with
  | .error .notFound => return {}
  | .error _ => return { requeue := .default }
  | .ok workPlacement =>
    let destination ← getObject .destination "" workPlacement.spec.targetDestinationName
    if workPlacement.metadata.deleting then handleDeletion env workPlacement destination
    else
      match destination with
      | .error e => return { err := some (.api e) }
      | .ok destination =>
        match ← writeToStateStore env workPlacement destination with
        | .error result => return result
        | .ok (workPlacement, versionID) => reconcileWritten workPlacement destination versionID

end WorkPlacementController

end Kratix
