import Kratix.World
import Mathlib.Data.List.DropRight

/-!
# From a pipeline to the resources that run it

A `PipelineFactory` holds what is known of one pipeline of a Promise; its
`resources` are the Job and the service account, scheduling ConfigMap, roles
and bindings the Job needs. The Job is found again by its labels, so these are
followed in detail.
-/

namespace Kratix

open Apiserver Effect

/-! ### Generated names -/

def maxNameLength := 63 - 1 - 5

/-- Cut to the maximal length and to end in an alphanumeric character. -/
def processName (name : String) : String :=
  let cs := name.toList
  let cs := if maxNameLength < cs.length then cs.take (maxNameLength - 1) else cs
  String.ofList (cs.rdropWhile fun c => !c.isAlphanum)

def generateObjectName (name uuid : String) : String :=
  processName name ++ "-" ++ shortUUID uuid

def generateDeterministicObjectName (env : Externals) (name : String) : String :=
  processName name ++ "-" ++ String.ofList ((env.computeHash name).toList.take 5)

/-! ### Labels -/

def promiseNameLabel (promiseName : String) : Labels :=
  Labels.ofList [(Label.promiseName, promiseName)]

def resourceNameLabel (rName : String) : Labels :=
  Labels.ofList [(Label.resourceName, rName)]

def managedByKratixLabel : Labels := Labels.ofList [(Label.managedBy, "Kratix")]

/-- An entry that is left out when its value is empty. -/
def optionalLabel (key v : String) : Labels := if v = "" then ∅ else Labels.ofList [(key, v)]

def workflowLabels (workflowType workflowAction pipelineName : String) : Labels :=
  ((optionalLabel Label.workflowType workflowType).merge
    (optionalLabel Label.pipelineName pipelineName)).merge
      (optionalLabel Label.workflowAction workflowAction)

def workflowLegacyLabels (workflowType workflowAction pipelineName : String) : Labels :=
  ((optionalLabel Label.workType workflowType).merge
    (optionalLabel Label.pipelineName pipelineName)).merge
      (optionalLabel Label.workAction workflowAction)

def userPermissionPipelineResourcesLabels (promiseName pipelineName pipelineNamespace workflowType
    workflowAction : String) : Labels :=
  ((promiseNameLabel promiseName).merge
    (workflowLabels workflowType workflowAction pipelineName)).insert
      Label.pipelineNamespace pipelineNamespace

def userPermissionPipelineResourcesLegacyLabels (promiseName pipelineName pipelineNamespace
    workflowType workflowAction : String) : Labels :=
  ((promiseNameLabel promiseName).merge
    (workflowLegacyLabels workflowType workflowAction pipelineName)).insert
      Label.pipelineNamespace pipelineNamespace

/-! ### The factory -/

structure PipelineFactory where
  id : String
  promise : Promise
  pipeline : Pipeline
  ns : String
  /-- Present for the pipelines of a resource workflow. -/
  resourceRequest : Option ResourceRequest
  workflowAction : Action
  workflowType : WorkflowType
  clusterScoped : Bool
  crdPlural : String

structure SharedPipelineResources where
  serviceAccount : ServiceAccount
  configMap : Option ConfigMap
  roles : List Role
  roleBindings : List RoleBinding
  clusterRoles : List Role
  clusterRoleBindings : List RoleBinding

structure PipelineJobResources where
  name : String
  pipelineID : String
  job : Job
  shared : SharedPipelineResources
  workflowType : WorkflowType
  workflowAction : Action

def Pipeline.forPromise (p : Pipeline) (promise : Promise) (action : Action) :
    PipelineFactory where
  id := promise.metadata.name ++ "-promise-" ++ action.text ++ "-" ++ p.name
  promise := promise
  pipeline := p
  ns := systemNamespace
  resourceRequest := none
  workflowAction := action
  workflowType := .promise
  clusterScoped := true
  crdPlural := "promises"

def Pipeline.forResource (p : Pipeline) (promise : Promise) (action : Action)
    (resourceRequest : ResourceRequest) : PipelineFactory where
  id := promise.metadata.name ++ "-resource-" ++ action.text ++ "-" ++ p.name
  promise := promise
  pipeline := p
  ns := resourceRequest.metadata.ns
  resourceRequest := some resourceRequest
  workflowAction := action
  workflowType := .resource
  clusterScoped := promise.spec.api.any Crd.clusterScoped
  crdPlural := (promise.spec.api.map Crd.plural).getD ""

def Promise.getWorkloadGroupScheduling (p : Promise) : List WorkloadGroupScheduling :=
  p.spec.destinationSelectors.map fun l => ⟨l, "promise"⟩

namespace PipelineFactory

variable (env : Externals) (p : PipelineFactory)

def promiseName : String := p.promise.metadata.name

def ownLabels (requestSHA : String) : Labels :=
  let ls := (promiseNameLabel p.promiseName).merge
    (workflowLabels p.workflowType.text p.workflowAction.text p.pipeline.name)
  let ls := ls.merge managedByKratixLabel
  let ls := match p.resourceRequest with
    | some rr => ls.merge (resourceNameLabel rr.metadata.name)
    | none => ls
  if requestSHA = "" then ls else ls.insert Label.resourceHash requestSHA

/-- The labels of the pipeline come last and win. -/
def pipelineJobLabels (requestSHA : String) : Labels :=
  (p.ownLabels requestSHA).merge p.pipeline.labels

def pipelineJobName (uuid : String) : String :=
  let name := "kratix-" ++ p.promiseName
  let name := match p.resourceRequest with
    | some rr => name ++ "-" ++ rr.metadata.name
    | none => name
  generateObjectName (name ++ "-" ++ p.pipeline.name) uuid

/-- The hash of the Promise's specification, combined with that of the resource
request's for a resource workflow. -/
def objHash : String :=
  let promiseHash := env.computeHash (env.promiseJson p.promise.spec)
  match p.resourceRequest with
  | none => promiseHash
  | some rr => env.computeHash (promiseHash ++ "-" ++ env.computeHash rr.spec)

/-- The object that the Job reports to and that owns the Job. -/
def objMeta : ObjectMeta :=
  match p.resourceRequest with
  | none => p.promise.metadata
  | some rr => rr.metadata

def serviceAccount : ServiceAccount where
  metadata := {
    name := if p.pipeline.serviceAccount = "" then p.id else p.pipeline.serviceAccount
    ns := p.ns
    labels := promiseNameLabel p.promiseName }
  spec := ()
  status := ()

def configMap (scheduling : List WorkloadGroupScheduling) : Option ConfigMap :=
  match p.workflowAction with
  | .delete => none
  | .configure => some
    { metadata := {
        name := "destination-selectors-" ++ p.promiseName
        ns := p.ns
        labels := promiseNameLabel p.promiseName }
      spec := env.marshalScheduling scheduling
      status := () }

def workCreatorArgs : WorkCreatorArgs where
  promiseName := p.promiseName
  pipelineName := p.pipeline.name
  ns := p.ns
  workflowType := p.workflowType
  resourceName := match p.resourceRequest with
    | some rr => rr.metadata.name
    | none => ""

def pipelineJob (uuid : String) (isLast : Bool) : Job where
  metadata := {
    name := p.pipelineJobName uuid
    ns := p.ns
    labels := p.pipelineJobLabels (p.objHash env)
    owner := some p.objMeta.creationTimestamp }
  spec := {
    pipelineName := p.pipeline.name
    workCreator := match p.workflowAction with
      | .configure => some p.workCreatorArgs
      | .delete => none
    isLastPipeline := isLast
    serviceAccount := p.serviceAccount.metadata.name
    podSpec := p.pipeline.podSpec }
  status := {}

/-! #### Roles and bindings -/

def userPermissionResourceNamespaceLabelAll := "kratix_all_namespaces"

def userPermissionPipelineLabels : Labels :=
  userPermissionPipelineResourcesLabels p.promiseName p.pipeline.name p.ns p.workflowType.text
    p.workflowAction.text

/-- The rules of the user's permissions for one resource namespace. -/
def userRules (resourceNamespace : String) : List PolicyRule :=
  (p.pipeline.permissions.filter (·.resourceNamespace = resourceNamespace)).map Permission.rule

def role : Except Failure (List Role) := do
  let own ← match p.resourceRequest with
    | none => pure []
    | some _ =>
      match p.promise.spec.api with
      | none => throw .noAPI
      | some crd => pure [{
          metadata := { name := p.id, ns := p.ns, labels := promiseNameLabel p.promiseName }
          spec := [
            { apiGroups := [crd.group]
              resources := [p.crdPlural, p.crdPlural ++ "/status"]
              verbs := ["get", "list", "update", "create", "patch"] },
            { apiGroups := ["platform.kratix.io"], resources := ["works"], verbs := ["*"] }]
          status := () }]
  let rules := p.userRules ""
  if rules = [] then pure own
  else pure (own ++ [{
    metadata := {
      name := generateDeterministicObjectName env p.id
      ns := p.ns
      labels := p.userPermissionPipelineLabels }
    spec := rules
    status := () }])

def namespacedClusterRole (resourceNamespace : String) : Role :=
  let (suffix, labelValue) :=
    if resourceNamespace = "*" then ("kratix-all-namespaces", userPermissionResourceNamespaceLabelAll)
    else (resourceNamespace, resourceNamespace)
  { metadata := {
      name := generateDeterministicObjectName env (p.id ++ "-" ++ suffix)
      labels := p.userPermissionPipelineLabels.insert Label.userPermissionResourceNamespace labelValue }
    spec := p.userRules resourceNamespace
    status := () }

/-- The resource namespaces named by the user's permissions, each once. -/
def resourceNamespaces : List String :=
  ((p.pipeline.permissions.map Permission.resourceNamespace).filter (· ≠ "")).dedup

def clusterRole : List Role :=
  let own : List Role := match p.resourceRequest with
    | some _ => []
    | none => [{
        metadata := { name := p.id, labels := promiseNameLabel p.promiseName }
        spec := [{
          apiGroups := ["platform.kratix.io"]
          resources := ["promises", "promises/status", "works"]
          verbs := ["get", "list", "update", "create", "patch"] }]
        status := () }]
  own ++ p.resourceNamespaces.map (p.namespacedClusterRole env)

def subjects (sa : ServiceAccount) : List Subject := [⟨sa.metadata.name, sa.metadata.ns⟩]

def roleBindings (roles clusterRoles : List Role) (sa : ServiceAccount) : List RoleBinding :=
  (roles.map fun r =>
    { metadata := { name := r.metadata.name, ns := p.ns, labels := r.metadata.labels }
      spec := ⟨⟨"Role", r.metadata.name⟩, subjects sa⟩
      status := () }) ++
  clusterRoles.filterMap fun r =>
    match r.metadata.labels.lookup Label.userPermissionResourceNamespace with
    | none => none
    | some ns =>
      if ns = userPermissionResourceNamespaceLabelAll then none
      else some
        { metadata := {
            name := generateDeterministicObjectName env (p.id ++ "-" ++ sa.metadata.ns)
            ns := ns
            labels := r.metadata.labels }
          spec := ⟨⟨"ClusterRole", r.metadata.name⟩, subjects sa⟩
          status := () }

def clusterRoleBinding (clusterRoles : List Role) (sa : ServiceAccount) : List RoleBinding :=
  clusterRoles.filterMap fun r =>
    match r.metadata.labels.lookup Label.userPermissionResourceNamespace with
    | none => some
      { metadata := { name := r.metadata.name, labels := promiseNameLabel p.promiseName }
        spec := ⟨⟨"ClusterRole", r.metadata.name⟩, subjects sa⟩
        status := () }
    | some ns =>
      if ns = userPermissionResourceNamespaceLabelAll then some
        { metadata := {
            name := generateDeterministicObjectName env (p.id ++ "-" ++ sa.metadata.ns)
            labels := p.userPermissionPipelineLabels }
          spec := ⟨⟨"ClusterRole", r.metadata.name⟩, subjects sa⟩
          status := () }
      else none

/-! #### All resources of a pipeline -/

/-- The resources of the pipeline, for a Job named after the UUID. -/
def resourcesNamed (isLast : Bool) (uuid : String) : Except Failure PipelineJobResources := do
  let sa := p.serviceAccount
  let clusterRoles := p.clusterRole env
  let roles ← p.role env
  return {
    name := p.pipeline.name
    pipelineID := p.id
    job := p.pipelineJob env uuid isLast
    workflowType := p.workflowType
    workflowAction := p.workflowAction
    shared := {
      serviceAccount := sa
      configMap := p.configMap env p.promise.getWorkloadGroupScheduling
      roles := roles
      roleBindings := p.roleBindings env roles clusterRoles sa
      clusterRoles := clusterRoles
      clusterRoleBindings := p.clusterRoleBinding env clusterRoles sa } }

variable {env p} in
/-- The roles are generated if a resource request is one of an API that its Promise offers. -/
theorem exists_role_iff : (∃ roles, p.role env = .ok roles) ↔
    (p.resourceRequest.isSome → p.promise.spec.api.isSome) := by
  unfold role
  cases p.resourceRequest with
  | none =>
    by_cases h : p.userRules "" = [] <;> simp [h, pure, Except.pure, bind, Except.bind]
  | some rr =>
    cases p.promise.spec.api with
    | none => simp [throw, throwThe, MonadExceptOf.throw, bind, Except.bind]
    | some crd => by_cases h : p.userRules "" = [] <;> simp [h, pure, Except.pure, bind, Except.bind]

variable {env p} in
theorem exists_resources_iff {isLast : Bool} {uuid : String} :
    (∃ res, p.resourcesNamed env isLast uuid = .ok res) ↔
      (p.resourceRequest.isSome → p.promise.spec.api.isSome) := by
  rw [← @exists_role_iff env p]
  unfold resourcesNamed
  cases p.role env <;> simp [pure, Except.pure, bind, Except.bind]

def resources (isLast : Bool) : Prog (Except Failure PipelineJobResources) := do
  return p.resourcesNamed env isLast (← newUUID)

end PipelineFactory

def PipelineJobResources.getObjects (p : PipelineJobResources) : List AnyObject :=
  [⟨.serviceAccount, p.shared.serviceAccount⟩] ++
    p.shared.configMap.toList.map (fun o => ⟨.configMap, o⟩) ++
    p.shared.roles.map (fun o => ⟨.role, o⟩) ++
    p.shared.roleBindings.map (fun o => ⟨.roleBinding, o⟩) ++
    p.shared.clusterRoles.map (fun o => ⟨.clusterRole, o⟩) ++
    p.shared.clusterRoleBindings.map (fun o => ⟨.clusterRoleBinding, o⟩)

/-! ### The pipelines of a workflow -/

def Promise.pipelines (promise : Promise) : WorkflowType → Action → List Pipeline
  | .resource, .configure => promise.spec.workflows.resource.configure
  | .resource, .delete => promise.spec.workflows.resource.delete
  | .promise, .configure => promise.spec.workflows.promise.configure
  | .promise, .delete => promise.spec.workflows.promise.delete

def Promise.hasPipeline (promise : Promise) (type : WorkflowType) (action : Action) : Bool :=
  !(promise.pipelines type action).isEmpty

/-- The resources of the factories in order; the first error ends the list. -/
def generateResources (env : Externals) :
    List PipelineFactory → Prog (Except Failure (List PipelineJobResources))
  | [] => return .ok []
  | p :: ps => do
    match ← p.resources env ps.isEmpty with
    | .error e => return .error e
    | .ok r =>
      match ← generateResources env ps with
      | .error e => return .error e
      | .ok rs => return .ok (r :: rs)

def Promise.generateResourcePipelines (promise : Promise) (env : Externals) (action : Action)
    (rr : ResourceRequest) : Prog (Except Failure (List PipelineJobResources)) :=
  generateResources env ((promise.pipelines .resource action).map (·.forResource promise action rr))

end Kratix
