import Kratix.Lib.ObjectStore
import Kratix.Lib.Path

/-!
# The resources Kratix works with

Promises, resource requests, the Jobs that run their pipelines, Works,
WorkPlacements and Destinations, with the fields that the modelled functions
read or write. A resource request belongs to the kind its Promise defines, so
the kinds are indexed by the Promise's name.
-/

namespace Kratix

open Apiserver GoPath

abbrev Bytes := List UInt8

/-! ### Label keys -/

namespace Label

def promiseName := "kratix.io/promise-name"
def resourceName := "kratix.io/resource-name"
def pipelineName := "kratix.io/pipeline-name"
def pipelineNamespace := "kratix.io/pipeline-namespace"
def workType := "kratix.io/work-type"
def workAction := "kratix.io/work-action"
def workflowType := "kratix.io/workflow-type"
def workflowAction := "kratix.io/workflow-action"
def resourceHash := "kratix.io/hash"
def pipelineHash := "kratix.io/pipeline-hash"
def managedBy := "app.kubernetes.io/managed-by"
def manualReconciliation := "kratix.io/manual-reconciliation"
def pauseReconciliation := "kratix.io/paused"
def promiseVersion := "kratix.io/promise-version"
def userPermissionResourceNamespace := "kratix.io/resource-namespace"
def work := "kratix.io/work"
def workloadGroupID := "kratix.io/workload-group-id"
def misscheduled := "kratix.io/misplaced"
def targetDestinationName := "kratix.io/targetDestinationName"

end Label

def systemNamespace := "kratix-platform-system"

/-! ### Finalizers -/

namespace Finalizer

def workCleanup := "kratix.io/work-cleanup"
def removeAllWorkflowJobs := "kratix.io/workflows-cleanup"
def runDeleteWorkflows := "kratix.io/delete-workflows"
def repoCleanup := "finalizers.workplacement.kratix.io/repo-cleanup"
def kratixFileCleanup := "finalizers.workplacement.kratix.io/kratix-dot-files-cleanup"

end Finalizer

/-! ### Conditions -/

inductive ConditionStatus
  | conditionTrue
  | conditionFalse
  | conditionUnknown
  deriving DecidableEq, Repr

structure Condition where
  type : String
  status : ConditionStatus
  reason : String
  message : String
  lastTransitionTime : ℕ := 0
  deriving DecidableEq

/-! ### Promises and resource requests -/

inductive WorkflowType
  | resource
  | promise
  deriving DecidableEq, Repr

def WorkflowType.text : WorkflowType → String
  | resource => "resource"
  | promise => "promise"

theorem WorkflowType.text_injective {a b : WorkflowType} (h : a.text = b.text) : a = b := by
  cases a <;> cases b <;> first | rfl | exact absurd h (by decide)

inductive Action
  | configure
  | delete
  deriving DecidableEq, Repr

def Action.text : Action → String
  | configure => "configure"
  | delete => "delete"

structure PolicyRule where
  apiGroups : List String
  resources : List String
  verbs : List String
  resourceNames : List String := []
  nonResourceURLs : List String := []
  deriving DecidableEq

/-- A list of strings as it is printed. -/
def printList (l : List String) : String := "[" ++ " ".intercalate l ++ "]"

def PolicyRule.text (r : PolicyRule) : String :=
  "&PolicyRule\x7bVerbs:" ++ printList r.verbs ++ ",APIGroups:" ++ printList r.apiGroups ++
    ",Resources:" ++ printList r.resources ++ ",ResourceNames:" ++ printList r.resourceNames ++
    ",NonResourceURLs:" ++ printList r.nonResourceURLs ++ ",\x7d"

structure Permission where
  resourceNamespace : String
  rule : PolicyRule
  deriving DecidableEq

structure Pipeline where
  name : String
  labels : Labels := ∅
  annotations : Labels := ∅
  serviceAccount : String := ""
  permissions : List Permission := []
  /-- Containers, volumes and the other fields copied into the pod template, as text. -/
  podSpec : String := ""
  deriving DecidableEq

structure WorkflowTriggers where
  configure : List Pipeline := []
  delete : List Pipeline := []
  deriving DecidableEq

structure Workflows where
  resource : WorkflowTriggers := {}
  promise : WorkflowTriggers := {}
  deriving DecidableEq

structure CrdVersion where
  name : String
  storage : Bool
  deriving DecidableEq

/-- What is read from the custom resource definition that a Promise offers. -/
structure Crd where
  group : String
  plural : String
  clusterScoped : Bool
  name : String := ""
  labels : Labels := ∅
  kind : String := ""
  versions : List CrdVersion := []
  deriving DecidableEq

structure RequiredPromise where
  name : String
  version : String
  deriving DecidableEq

structure PromiseSpec where
  api : Option Crd := none
  workflows : Workflows := {}
  /-- Each dependency as its YAML document. -/
  dependencies : List Bytes := []
  destinationSelectors : List Labels := []
  requiredPromises : List RequiredPromise := []
  deriving DecidableEq

inductive Availability
  | available
  | unavailable
  deriving DecidableEq, Repr

inductive RequirementState
  | installed
  | notInstalled
  | notInstalledAtSpecifiedVersion
  | notAvailable
  | unknown
  deriving DecidableEq, Repr

structure RequiredPromiseStatus where
  name : String
  version : String
  state : RequirementState
  deriving DecidableEq

structure RequiredBy where
  promiseName : String
  promiseVersion : String
  requiredVersion : String
  deriving DecidableEq

/-- The status of a Promise or of a resource request. A missing counter reads as -1
in a resource request, and as 0 in a Promise. -/
structure ParentStatus where
  conditions : List Condition := []
  workflows : Option ℤ := none
  workflowsSucceeded : Option ℤ := none
  workflowsFailed : Option ℤ := none
  message : String := ""
  observedGeneration : ℕ := 0
  lastSuccessfulConfigureWorkflowTime : Option ℕ := none
  version : String := ""
  kind : String := ""
  apiVersion : String := ""
  status : Option Availability := none
  requiredPromises : List RequiredPromiseStatus := []
  requiredBy : List RequiredBy := []
  lastAvailableTime : Option ℕ := none
  deriving DecidableEq

/-! ### Jobs and the other pipeline resources -/

/-- The arguments of the work-creator container. -/
structure WorkCreatorArgs where
  promiseName : String
  pipelineName : String
  ns : String
  workflowType : WorkflowType
  resourceName : String := ""
  deriving DecidableEq

structure JobSpec where
  suspend : Bool := false
  /-- Value of `KRATIX_PIPELINE_NAME` in the containers. -/
  pipelineName : String
  /-- Only the Jobs of configure workflows run the work creator. -/
  workCreator : Option WorkCreatorArgs
  /-- Value of `IS_LAST_PIPELINE` in the status writer. -/
  isLastPipeline : Bool
  serviceAccount : String
  podSpec : String
  deriving DecidableEq

inductive JobConditionType
  | complete
  | failed
  | suspended
  | other (text : String)
  deriving DecidableEq

structure JobStatus where
  active : ℕ := 0
  succeeded : ℕ := 0
  failed : ℕ := 0
  conditions : List (JobConditionType × ConditionStatus) := []
  deriving DecidableEq

structure Subject where
  name : String
  ns : String
  deriving DecidableEq

def Subject.text (s : Subject) : String :=
  "&Subject\x7bKind:ServiceAccount,APIGroup:,Name:" ++ s.name ++ ",Namespace:" ++ s.ns ++ ",\x7d"

structure RoleRef where
  kind : String
  name : String
  deriving DecidableEq

def RoleRef.text (r : RoleRef) : String :=
  "&RoleRef\x7bAPIGroup:rbac.authorization.k8s.io,Kind:" ++ r.kind ++ ",Name:" ++ r.name ++ ",\x7d"

structure BindingSpec where
  roleRef : RoleRef
  subjects : List Subject
  deriving DecidableEq

/-! ### Works and WorkPlacements -/

structure WorkloadGroupScheduling where
  matchLabels : Labels
  source : String
  deriving DecidableEq

structure Workload where
  filepath : Path
  content : Bytes
  deriving DecidableEq

structure WorkloadGroup where
  workloads : List Workload
  directory : Path
  id : String
  destinationSelectors : List WorkloadGroupScheduling := []
  deriving DecidableEq

structure WorkSpec where
  workloadGroups : List WorkloadGroup := []
  promiseName : String
  resourceName : String := ""
  deriving DecidableEq

structure WorkStatus where
  conditions : List Condition := []
  workPlacements : ℕ := 0
  workPlacementsCreated : ℕ := 0
  deriving DecidableEq

structure WorkPlacementSpec where
  targetDestinationName : String := ""
  workloads : List Workload := []
  promiseName : String := ""
  resourceName : String := ""
  id : String := ""
  deriving DecidableEq

structure WorkPlacementStatus where
  conditions : List Condition := []
  versionID : String := ""
  deriving DecidableEq

/-! ### Destinations and state stores -/

inductive FilepathMode
  | none
  | nestedByMetadata
  | aggregatedYAML
  deriving DecidableEq, Repr

inductive StateStoreKind
  | bucket
  | git
  deriving DecidableEq, Repr

structure StateStoreRef where
  kind : StateStoreKind
  name : String
  deriving DecidableEq

/-- What to do with the files of a Destination that is deleted. -/
inductive DestinationCleanup
  | all
  | none
  deriving DecidableEq, Repr

structure DestinationSpec where
  path : Path
  stateStoreRef : StateStoreRef
  strictMatchLabels : Bool := false
  filepathMode : FilepathMode := .nestedByMetadata
  filename : Path := []
  cleanup : DestinationCleanup := .none
  /-- Whether init workloads are enabled. -/
  initWorkloads : Bool := true
  deriving DecidableEq

structure DestinationStatus where
  conditions : List Condition := []
  deriving DecidableEq

structure StateStoreSpec where
  path : Path
  /-- The bucket, or the repository and branch, that the store writes to. -/
  backend : String
  deriving DecidableEq

/-! ### The kinds -/

inductive ParentKind
  | promise
  | resource (promiseName : String)
  deriving DecidableEq

inductive Kind
  | parent (p : ParentKind)
  | job
  | role
  | roleBinding
  | clusterRole
  | clusterRoleBinding
  | serviceAccount
  | configMap
  | work
  | workPlacement
  | destination
  | stateStore (k : StateStoreKind)
  | crd
  deriving DecidableEq

@[reducible]
def Kind.Spec : Kind → Type
  | parent .promise => PromiseSpec
  | parent (.resource _) => String
  | job => JobSpec
  | role | clusterRole => List PolicyRule
  | roleBinding | clusterRoleBinding => BindingSpec
  | serviceAccount => Unit
  | configMap => Bytes
  | work => WorkSpec
  | workPlacement => WorkPlacementSpec
  | destination => DestinationSpec
  | stateStore _ => StateStoreSpec
  | crd => Crd

/-- The status of a custom resource definition tells whether it is established. -/
@[reducible]
def Kind.Status : Kind → Type
  | parent _ => ParentStatus
  | job => JobStatus
  | work => WorkStatus
  | workPlacement => WorkPlacementStatus
  | destination => DestinationStatus
  | role | roleBinding | clusterRole | clusterRoleBinding | serviceAccount | configMap
  | stateStore _ => Unit
  | crd => Bool

/-- Promises, cluster roles and their bindings, Destinations, state stores and
custom resource definitions belong to no namespace; a resource request may
belong to one or not. -/
def Kind.isNamespaced : Kind → Bool
  | job | role | roleBinding | serviceAccount | configMap | work | workPlacement => true
  | parent _ | clusterRole | clusterRoleBinding | destination | stateStore _ | crd => false

abbrev scheme : Scheme where
  Kind := Kind
  decEq := inferInstance
  Spec := Kind.Spec
  Status := Kind.Status
  namespaced := Kind.isNamespaced

abbrev Promise := Object PromiseSpec ParentStatus
/-- A resource request; its specification is kept as JSON text. -/
abbrev ResourceRequest := Object String ParentStatus
abbrev Parent (p : ParentKind) := scheme.Obj (.parent p)
instance : (p : ParentKind) → DecidableEq (Parent p)
  | .promise => inferInstanceAs (DecidableEq Promise)
  | .resource _ => inferInstanceAs (DecidableEq ResourceRequest)

abbrev Job := Object JobSpec JobStatus
abbrev Role := Object (List PolicyRule) Unit
abbrev RoleBinding := Object BindingSpec Unit
abbrev ServiceAccount := Object Unit Unit
abbrev ConfigMap := Object Bytes Unit
abbrev Work := Object WorkSpec WorkStatus
abbrev WorkPlacement := Object WorkPlacementSpec WorkPlacementStatus
abbrev Destination := Object DestinationSpec DestinationStatus
abbrev StateStore := Object StateStoreSpec Unit

abbrev AnyObject := (k : Kind) × scheme.Obj k

namespace Work

def isResourceRequest (w : Work) : Bool := w.spec.resourceName != ""

end Work

end Kratix
