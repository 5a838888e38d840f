import Kratix.ResourceUtil
import Kratix.Scheduling.Selectors

/-!
# The work creator

The container that runs after the pipeline's own ones and turns their output
into a Work. It sees a directory with the output of the pipeline in `input`,
an optional `metadata/destination-selectors.yaml` written by the pipeline, and
the scheduling ConfigMap mounted at `kratix-system/promise-scheduling`. Paths
are relative to that directory.
-/

namespace Kratix

open Apiserver Effect GoPath

variable (env : Externals)

/-- The directory of the workload group for everything that no other group takes. -/
def defaultWorkloadGroupDirectory : Path := []

def isRootDirectory (dir : Path) : Bool := dir == defaultWorkloadGroupDirectory

/-- The identifier of the group for a directory. -/
def workloadGroupID (directory : Path) : String := env.computeHash (text directory)

/-! ### The static dependencies of a Promise -/

def marshalDependencies (dependencies : List Bytes) : Bytes :=
  (dependencies.intersperse "---\n".toUTF8.toList).flatten

def newPromiseDependenciesWork (promise : Promise) (name : String) : Work where
  metadata := {
    name := name
    ns := systemNamespace
    labels := promiseNameLabel promise.metadata.name }
  spec := {
    promiseName := promise.metadata.name
    workloadGroups := [{
      id := workloadGroupID env defaultWorkloadGroupDirectory
      directory := defaultWorkloadGroupDirectory
      workloads := [{
        content := env.compressContent (marshalDependencies promise.spec.dependencies)
        filepath := ["static", promise.metadata.name ++ "-dependencies.yaml"] }]
      destinationSelectors :=
        if promise.spec.destinationSelectors.isEmpty then []
        else [⟨squashPromiseScheduling promise.spec.destinationSelectors, "promise"⟩] }] }
  status := {}

/-! ### Reading the selectors -/

def containsDuplicateScheduling (schedulingConfig : List WorkflowDestinationSelectors) : Bool :=
  !decide (schedulingConfig.map WorkflowDestinationSelectors.directory).Nodup

def containsSubDirectory (schedulingConfig : List WorkflowDestinationSelectors) : Option Path :=
  (schedulingConfig.map WorkflowDestinationSelectors.directory).find? fun dir => base dir != dir

def cleanDirectory (x : WorkflowDestinationSelectors) : WorkflowDestinationSelectors :=
  { x with directory := clean x.directory }

def parseDestinationSelectors (bytes : Bytes) :
    Except Failure (List WorkflowDestinationSelectors) :=
  match env.unmarshalSelectors bytes with
  | none => .error (.message "invalid destination-selectors.yaml")
  | some schedulingConfig =>
    let schedulingConfig := schedulingConfig.map cleanDirectory
    match schedulingConfig.findIdx? fun x => x.matchLabels.entries.isEmpty with
    | some i => .error (.message
        ("invalid destination-selectors.yaml: entry with index " ++ toString i ++ " has no selectors"))
    | none =>
      if containsDuplicateScheduling schedulingConfig then
        .error (.message "duplicate entries in destination-selectors.yaml")
      else
        match containsSubDirectory schedulingConfig with
        | some dir => .error (.message ("invalid directory in destination-selectors.yaml: " ++
            text dir ++ ", sub-directories are not allowed"))
        | none => .ok schedulingConfig

def getWorkflowScheduling (rootDirectory : FileTree Bytes) :
    Except Failure (List WorkflowDestinationSelectors) :=
  match rootDirectory.readFile ["metadata", "destination-selectors.yaml"] with
  | .error .notExist => .ok []
  | .error e => .error (.file e)
  | .ok fileContents => parseDestinationSelectors env fileContents

def getPromiseScheduling (rootDirectory : FileTree Bytes) :
    Except Failure (List WorkloadGroupScheduling) :=
  match rootDirectory.readFile ["kratix-system", "promise-scheduling"] with
  | .error .notExist => .ok []
  | .error e => .error (.file e)
  | .ok fileContents =>
    match env.unmarshalScheduling fileContents with
    | none => .error (.message "error unmarshaling JSON")
    | some schedulingConfig => .ok schedulingConfig

/-! ### Collecting the workloads -/

/-- The files below a directory, compressed. Their paths are relative to the
prefix; the directories to ignore are those at the root level only. -/
def getWorkloadsFromDir (prefixToTrim rootDir : Path)
    (directoriesToIgnoreAtTheRootLevel : List Path) : FileTree Bytes → List Workload
  | .nil => []
  | .file name content rest =>
    ⟨rel prefixToTrim (join [rootDir, [name]]), env.compressContent content⟩ ::
      getWorkloadsFromDir prefixToTrim rootDir directoriesToIgnoreAtTheRootLevel rest
  | .dir name entries rest =>
    (if directoriesToIgnoreAtTheRootLevel.contains [name] then []
      else getWorkloadsFromDir prefixToTrim (join [rootDir, [name]]) [] entries) ++
      getWorkloadsFromDir prefixToTrim rootDir directoriesToIgnoreAtTheRootLevel rest

def pipelineOutputDir : Path := ["input"]

def getWorkloads (rootDirectory : FileTree Bytes) (directory : Path) (ignored : List Path) :
    Except Failure (List Workload) :=
  match rootDirectory.readDir directory with
  | .error e => .error (.file e)
  | .ok entries => .ok (getWorkloadsFromDir env pipelineOutputDir directory ignored entries)

def workflowSource (workflowType : WorkflowType) : String := workflowType.text ++ "-" ++ "workflow"

/-- The group of a directory that the pipeline gives selectors for. -/
def scheduledWorkloadGroup (rootDirectory : FileTree Bytes) (workflowType : WorkflowType)
    (selector : WorkflowDestinationSelectors) : Except Failure WorkloadGroup :=
  match getWorkloads env rootDirectory (join [pipelineOutputDir, selector.directory]) [] with
  | .error e => .error e
  | .ok workloads => .ok {
      workloads := workloads
      directory := selector.directory
      id := workloadGroupID env selector.directory
      destinationSelectors := [⟨selector.matchLabels, workflowSource workflowType⟩] }

/-- The entries of one source, squashed. -/
def squashedFrom (source : String) (selectors : List WorkloadGroupScheduling) :
    List WorkloadGroupScheduling :=
  let ofSource := selectors.filter fun x => x.source = source
  if ofSource.isEmpty then []
  else [⟨squashPromiseScheduling (ofSource.map WorkloadGroupScheduling.matchLabels), source⟩]

def defaultWorkloadGroup (rootDirectory : FileTree Bytes) (workflowType : WorkflowType)
    (workflowSelectors : Option Labels) (workloads : List Workload) :
    Except Failure WorkloadGroup :=
  match getPromiseScheduling env rootDirectory with
  | .error e => .error e
  | .ok destinationSelectors => .ok {
      workloads := workloads
      directory := defaultWorkloadGroupDirectory
      id := workloadGroupID env defaultWorkloadGroupDirectory
      destinationSelectors :=
        (workflowSelectors.toList.map fun l => ⟨l, workflowSource workflowType⟩) ++
          squashedFrom "promise-workflow" destinationSelectors ++
          squashedFrom "promise" destinationSelectors }

/-- The selectors that the pipeline gives for the root directory. -/
def defaultDestinationSelectors (workflowScheduling : List WorkflowDestinationSelectors) :
    Option Labels :=
  (workflowScheduling.filter fun x => isRootDirectory x.directory).getLast?.map
    WorkflowDestinationSelectors.matchLabels

def directoriesToIgnoreForTheBaseScheduling
    (workflowScheduling : List WorkflowDestinationSelectors) : List Path :=
  (workflowScheduling.map WorkflowDestinationSelectors.directory).filter fun dir =>
    !isRootDirectory dir

/-- The group for the rest of the output, when there is any. -/
def restWorkloadGroups (rootDirectory : FileTree Bytes) (workflowType : WorkflowType)
    (workflowScheduling : List WorkflowDestinationSelectors) :
    Except Failure (List WorkloadGroup) :=
  match getWorkloads env rootDirectory pipelineOutputDir
      (directoriesToIgnoreForTheBaseScheduling workflowScheduling) with
  | .error e => .error e
  | .ok [] => .ok []
  | .ok workloads =>
    match defaultWorkloadGroup env rootDirectory workflowType
        (defaultDestinationSelectors workflowScheduling) workloads with
    | .error e => .error e
    | .ok group => .ok [group]

def getWorkloadGroups (rootDirectory : FileTree Bytes) (workflowType : WorkflowType) :
    Except Failure (List WorkloadGroup) := do
  let workflowScheduling ← getWorkflowScheduling env rootDirectory
  let scheduled ← (workflowScheduling.filter fun x => !isRootDirectory x.directory).mapM
    (scheduledWorkloadGroup env rootDirectory workflowType)
  let rest ← restWorkloadGroups env rootDirectory workflowType workflowScheduling
  return scheduled ++ rest

/-! ### Execute -/

namespace WorkCreator

variable (args : WorkCreatorArgs)

def identifier : String :=
  match args.workflowType with
  | .resource => args.promiseName ++ "-" ++ args.resourceName ++ "-" ++ args.pipelineName
  | .promise => args.promiseName ++ "-" ++ args.pipelineName

/-- The namespace that an existing Work is looked up in. -/
def ns : String := if args.ns = "" then "kratix-platform-system" else args.ns

/-- Works of Promise workflows are in the system namespace. -/
def workNamespace : String :=
  match args.workflowType with
  | .resource => ns args
  | .promise => systemNamespace

def workLabels : Labels :=
  let own := match args.workflowType with
    | .resource => ∅
    | .promise => promiseNameLabel args.promiseName
  own.merge
    (getWorkLabels args.promiseName args.resourceName args.pipelineName args.workflowType.text)

def newWork (workloadGroups : List WorkloadGroup) (uuid : String) : Work where
  metadata := {
    name := generateObjectName (identifier args) uuid
    ns := workNamespace args
    labels := workLabels args }
  spec := {
    workloadGroups := workloadGroups
    promiseName := args.promiseName
    resourceName := args.resourceName }
  status := {}

/-- Create the Work, or give the existing one the new specification. -/
def apply (work : Work) : Prog (Except Failure Unit) := do
  match ← getWork env (ns args) work.metadata.labels with
  | .error e => return .error e
  | .ok none =>
    match ← createObject .work work with
    | .error e => return .error (.api e)
    | .ok _ => return .ok ()
  | .ok (some currentWork) =>
    match ← updateObject .work { currentWork with spec := work.spec } with
    | .error e => return .error (.api e)
    | .ok _ => return .ok ()

def execute (rootDirectory : FileTree Bytes) : Prog (Except Failure Unit) :=
  match getWorkloadGroups env rootDirectory args.workflowType with
  | .error e => return .error e
  | .ok workloadGroups => do apply env args (newWork args workloadGroups (← newUUID))

end WorkCreator

end Kratix
