import Kratix.Rbac.Cleanup
import Kratix.Rbac.Exact
import Kratix.Workflow.JobLabels

/-!
# The roles and bindings of other pipelines

The selector for stale objects consists of the Promise's name, the pipeline's name
and the namespace; the type and the action of the workflow are read from labels
that Jobs do not have any more. So a pipeline can find objects of another pipeline
of the same name.
-/

namespace Kratix

open Apiserver Effect Rbac

namespace PipelineFactory

variable {env : Externals} {first second : PipelineFactory}

/-! ### Labels -/

theorem lookup_userPermissionPipelineLabels (f : PipelineFactory) (key : String) :
    f.userPermissionPipelineLabels.lookup key =
      if key = Label.pipelineNamespace then some f.ns
      else if key = Label.workflowAction then some f.workflowAction.text
      else if key = Label.pipelineName ∧ f.pipeline.name ≠ "" then some f.pipeline.name
      else if key = Label.workflowType then some f.workflowType.text
      else if key = Label.promiseName then some f.promiseName
      else none := by
  unfold userPermissionPipelineLabels userPermissionPipelineResourcesLabels
  simp only [Labels.lookup_insert, Labels.lookup_merge, workflowLabels, promiseNameLabel,
    lookup_optionalLabel, Labels.lookup_ofList_cons, Labels.lookup_ofList_nil,
    text_ne_empty, action_text_ne_empty, ne_eq, not_false_eq_true, and_true]
  split_ifs <;> rfl

theorem lookup_legacyLabels (promiseName pipelineName pipelineNamespace workType workAction
    key : String) :
    (userPermissionPipelineResourcesLegacyLabels promiseName pipelineName pipelineNamespace
      workType workAction).lookup key =
      if key = Label.pipelineNamespace then some pipelineNamespace
      else if key = Label.workAction ∧ workAction ≠ "" then some workAction
      else if key = Label.pipelineName ∧ pipelineName ≠ "" then some pipelineName
      else if key = Label.workType ∧ workType ≠ "" then some workType
      else if key = Label.promiseName then some promiseName
      else none := by
  unfold userPermissionPipelineResourcesLegacyLabels
  simp only [Labels.lookup_insert, Labels.lookup_merge, workflowLegacyLabels, promiseNameLabel,
    lookup_optionalLabel, Labels.lookup_ofList_cons, Labels.lookup_ofList_nil]
  split_ifs <;> rfl

theorem length_legacyLabels_ne_zero (promiseName pipelineName pipelineNamespace workType
    workAction : String) :
    (userPermissionPipelineResourcesLegacyLabels promiseName pipelineName pipelineNamespace
      workType workAction).entries.length ≠ 0 := by
  intro hempty
  have hlookup := lookup_legacyLabels promiseName pipelineName pipelineNamespace workType
    workAction Label.pipelineNamespace
  rw [if_pos rfl] at hlookup
  have hmem := AList.mem_lookup_iff.mp hlookup
  rw [List.length_eq_zero_iff.mp hempty] at hmem
  cases hmem

def jobLabel (env : Externals) (f : PipelineFactory) (key : String) : String :=
  (f.pipelineJobLabels (f.objHash env)).value key

/-- The selector of the first pipeline finds the user's objects of the second. -/
structure Selects (env : Externals) (first second : PipelineFactory) : Prop where
  promiseName : first.jobLabel env Label.promiseName = second.promiseName
  pipelineName : first.pipeline.name = "" ∨ first.pipeline.name = second.pipeline.name
  ns : first.ns = second.ns
  workType : first.jobLabel env Label.workType = ""
  workAction : first.jobLabel env Label.workAction = ""

/-- The labels of the user's objects, besides the one for the resource namespace. -/
structure IsUserLabels (f : PipelineFactory) (labels : Labels) : Prop where
  lookup : ∀ key, key ≠ Label.userPermissionResourceNamespace →
    labels.lookup key = f.userPermissionPipelineLabels.lookup key

theorem isUserLabels_role (f : PipelineFactory) (ns : String) :
    IsUserLabels f (f.userRoleLabels ns) := by
  refine ⟨fun key hkey => ?_⟩
  unfold userRoleLabels
  split_ifs with h₁ h₂
  · rfl
  · rw [Labels.lookup_insert, if_neg hkey]
  · rw [Labels.lookup_insert, if_neg hkey]

theorem isUserLabels_binding (f : PipelineFactory) (ns : String) :
    IsUserLabels f (f.userBindingLabels ns) := by
  unfold userBindingLabels
  split_ifs
  · exact ⟨fun key _ => rfl⟩
  · exact isUserLabels_role f ns

theorem getPipelineResourcesLabels_eq {isLast : Bool} {uuid : String} {res : PipelineJobResources}
    (hres : first.resourcesNamed env isLast uuid = .ok res) :
    Workflow.getPipelineResourcesLabels res =
      userPermissionPipelineResourcesLegacyLabels (first.jobLabel env Label.promiseName)
        first.pipeline.name first.ns (first.jobLabel env Label.workType)
        (first.jobLabel env Label.workAction) := by
  have hfields : res.name = first.pipeline.name ∧ res.job = first.pipelineJob env uuid isLast := by
    unfold resourcesNamed at hres
    cases hroles : first.role env with
    | error e =>
      rw [hroles] at hres
      cases hres
    | ok roles =>
      rw [hroles] at hres
      cases hres
      exact ⟨rfl, rfl⟩
  unfold Workflow.getPipelineResourcesLabels
  rw [hfields.1, hfields.2]
  exact if_pos (length_legacyLabels_ne_zero _ _ _ _ _)

/-- The selector compares the name of the Promise, that of the pipeline and the namespace. -/
theorem fromSet_legacyLabels_iff {labels : Labels} (hlabels : IsUserLabels second labels)
    {promiseName pipelineName ns workType workAction : String} :
    Selector.fromSet (userPermissionPipelineResourcesLegacyLabels promiseName pipelineName ns
        workType workAction) labels = true ↔
      promiseName = second.promiseName ∧ (pipelineName = "" ∨ pipelineName = second.pipeline.name) ∧
        ns = second.ns ∧ workType = "" ∧ workAction = "" := by
  rw [Selector.fromSet_iff]
  simp only [lookup_legacyLabels]
  have hlookup (key : String) (h : key ≠ Label.userPermissionResourceNamespace) :=
    (hlabels.lookup key h).trans (lookup_userPermissionPipelineLabels second key)
  have hns : labels.lookup Label.pipelineNamespace = some second.ns := hlookup _ (by decide)
  have hpromise : labels.lookup Label.promiseName = some second.promiseName := by
    rw [hlookup _ (by decide)]
    simp [Label.promiseName, Label.pipelineNamespace, Label.workflowAction, Label.pipelineName,
      Label.workflowType]
  have hname : labels.lookup Label.pipelineName =
      if second.pipeline.name ≠ "" then some second.pipeline.name else none := by
    rw [hlookup _ (by decide)]
    simp [Label.promiseName, Label.pipelineNamespace, Label.workflowAction, Label.pipelineName,
      Label.workflowType]
  have htype : labels.lookup Label.workType = none := by
    rw [hlookup _ (by decide)]
    simp [Label.promiseName, Label.pipelineNamespace, Label.workflowAction, Label.pipelineName,
      Label.workflowType, Label.workType]
  have haction : labels.lookup Label.workAction = none := by
    rw [hlookup _ (by decide)]
    simp [Label.promiseName, Label.pipelineNamespace, Label.workflowAction, Label.pipelineName,
      Label.workflowType, Label.workAction]
  constructor
  · intro h
    refine ⟨?_, ?_, ?_, ?_, ?_⟩
    · have hsel := h Label.promiseName promiseName (by
        simp [Label.promiseName, Label.pipelineNamespace, Label.workAction, Label.pipelineName,
          Label.workType])
      exact (Option.some.inj (hpromise.symm.trans hsel)).symm
    · by_cases hempty : pipelineName = ""
      · exact Or.inl hempty
      · have hsel := h Label.pipelineName pipelineName (by
          simp [Label.pipelineNamespace, Label.workAction, Label.pipelineName, hempty])
        rw [hname] at hsel
        split_ifs at hsel
        exact Or.inr (Option.some.inj hsel).symm
    · exact (Option.some.inj (hns.symm.trans (h Label.pipelineNamespace ns (if_pos rfl)))).symm
    · by_contra hset
      have hsel := h Label.workType workType (by
        simp [Label.pipelineNamespace, Label.workAction, Label.pipelineName, Label.workType, hset])
      cases htype.symm.trans hsel
    · by_contra hset
      have hsel := h Label.workAction workAction (by
        simp [Label.pipelineNamespace, Label.workAction, hset])
      cases haction.symm.trans hsel
  · rintro ⟨h₁, h₂, h₃, h₄, h₅⟩ key v hv
    split_ifs at hv with hk₁ hk₂ hk₃ hk₄ hk₅ <;> cases hv
    · rw [hk₁, hns, h₃]
    · exact absurd h₅ hk₂.2
    · have hsame := h₂.resolve_left hk₃.2
      rw [hk₃.1, hname, ← hsame, if_pos hk₃.2]
    · exact absurd h₄ hk₄.2
    · rw [hk₅, hpromise, h₁]

theorem selector_iff {isLast : Bool} {uuid : String} {res : PipelineJobResources}
    (hres : first.resourcesNamed env isLast uuid = .ok res) {labels : Labels}
    (hlabels : IsUserLabels second labels) :
    Selector.fromSet (Workflow.getPipelineResourcesLabels res) labels = true ↔
      Selects env first second := by
  rw [getPipelineResourcesLabels_eq hres, fromSet_legacyLabels_iff hlabels]
  exact ⟨fun ⟨h₁, h₂, h₃, h₄, h₅⟩ => ⟨h₁, h₂, h₃, h₄, h₅⟩,
    fun ⟨h₁, h₂, h₃, h₄, h₅⟩ => ⟨h₁, h₂, h₃, h₄, h₅⟩⟩

/-! ### The objects of the user's permissions -/

/-- The objects generated from the user's permissions. -/
inductive UserObject (env : Externals) (f : PipelineFactory) : AnyObject → Prop
  | role (h : "" ∈ f.permissionNamespaces) :
      UserObject env f ⟨.role, roleObject (f.userGrant env "") (f.userRoleLabels "")⟩
  | clusterRole (ns : String) (h : ns ∈ f.permissionNamespaces) (hne : ns ≠ "") :
      UserObject env f ⟨.clusterRole, roleObject (f.userGrant env ns) (f.userRoleLabels ns)⟩
  | roleBinding (ns : String) (h : ns ∈ f.permissionNamespaces) (hall : isForAll ns = false) :
      UserObject env f ⟨.roleBinding,
        bindingObject (f.userGrant env ns) (f.userBindingLabels ns) f.account⟩
  | clusterRoleBinding (ns : String) (h : ns ∈ f.permissionNamespaces) (hall : isForAll ns = true) :
      UserObject env f ⟨.clusterRoleBinding,
        bindingObject (f.userGrant env ns) (f.userBindingLabels ns) f.account⟩

namespace UserObject

theorem isUserLabels {f : PipelineFactory} {o : AnyObject} (h : UserObject env f o) :
    IsUserLabels f o.2.metadata.labels := by
  cases h with
  | role => exact isUserLabels_role f ""
  | clusterRole ns => exact isUserLabels_role f ns
  | roleBinding ns => exact isUserLabels_binding f ns
  | clusterRoleBinding ns => exact isUserLabels_binding f ns

theorem finalizers {f : PipelineFactory} {o : AnyObject} (h : UserObject env f o) :
    o.2.metadata.finalizers = [] := by
  cases h <;> rfl

theorem kind_ne_parent {f : PipelineFactory} {o : AnyObject} (h : UserObject env f o)
    (p : ParentKind) : Kind.parent p ≠ o.1 := by
  cases h <;> simp

end UserObject

/-! ### The main statement -/

open Workflow

/-- The stored object is the desired one and not being deleted. -/
structure StoredAs {k : Kind} (s : World) (desired o : scheme.Obj k) : Prop where
  mem : o ∈ s.cluster.objects k
  written : WrittenAs desired o
  live : o.metadata.deleting = false

/-- The object is still there, perhaps in a later version. -/
def Kept {k : Kind} (o : scheme.Obj k) (t : World) : Prop :=
  ∃ x ∈ t.cluster.objects k, x.key = o.key ∧ x.created = o.created

/-- The first pipeline does not find the objects of the second, or needs one that
looks the same. -/
def Spared (env : Externals) (first second : PipelineFactory) (res : PipelineJobResources)
    (o : AnyObject) : Prop :=
  ¬ Selects env first second ∨ matchesDesired res o.1 o.2 = true

theorem matchesDesired_congr {res : PipelineJobResources} {k : Kind} {o o' : scheme.Obj k}
    (h : o.spec = o'.spec) : matchesDesired res k o = matchesDesired res k o' := by
  have hroles : ∀ {a b : Role}, a.spec = b.spec → rolesMatch a = rolesMatch b :=
    fun h => funext fun d => by rw [rolesMatch, rolesMatch, h]
  have hbindings : ∀ {a b : RoleBinding}, a.spec = b.spec →
      roleBindingsMatch a = roleBindingsMatch b :=
    fun h => funext fun d => by rw [roleBindingsMatch, roleBindingsMatch, h]
  cases k with
  | role | clusterRole => simp only [matchesDesired, hroles h]
  | roleBinding | clusterRoleBinding => simp only [matchesDesired, hbindings h]
  | _ => rfl

theorem stale_iff_not_spared {isLast : Bool} {uuid : String} {res : PipelineJobResources}
    (hres : first.resourcesNamed env isLast uuid = .ok res) {desired : AnyObject}
    (huser : UserObject env second desired) {s : World} {o : scheme.Obj desired.1}
    (ho : StoredAs s desired.2 o) :
    Stale res s ⟨desired.1, o⟩ ↔ ¬ Spared env first second res desired := by
  unfold Stale Spared
  rw [Cluster.mem_listed, not_or, not_not, ← matchesDesired_congr ho.written.spec,
    Bool.not_eq_true, ho.written.labels, selector_iff hres huser.isUserLabels]
  simp only [ho.mem, true_and, true_or]

/-- A request whose workflow is known to be running. -/
def runningRequest (name : String) : ResourceRequest where
  metadata := { ns := "default", name := name }
  spec := ""
  status := {
    conditions := [⟨ConditionType.configureWorkflowCompleted, .conditionFalse, "", "", 0⟩] }

/-- A pipeline for this request, with one permission in another namespace. -/
def provisioner (name : String) (action : Action) (rule : PolicyRule) (request : String) :
    PipelineFactory :=
  Pipeline.forResource { name := name, permissions := [⟨"team-a", rule⟩] }
    { metadata := { name := "redis" }
      spec := { api := some {
        group := "marketplace.kratix.io", plural := "redis", clusterScoped := false } }
      status := {} } action (runningRequest request)

/-- The role of a delete pipeline of this name that reads secrets. -/
def secretsRole (name : String) : Role :=
  roleObject ((provisioner name .delete getSecrets "old").userGrant plainExternals "team-a")
    ((provisioner name .delete getSecrets "old").userRoleLabels "team-a")

def provisionerOpts (request : String) : Opts (.resource "redis") where
  parentObject := runningRequest request
  resources := []
  workflowType := .resource
  numberOfJobsToKeep := 5

set_option maxRecDepth 4096 in
/-- The delete pipeline of one request has started. When the configure pipeline of the
same name starts for another request, the role of the first is deleted. -/
theorem delete_pipeline_loses_role :
    ∃ first second r r' s t,
      (provisioner "run" .configure listPods "new").resourcesNamed plainExternals true "u" =
        .ok first ∧
      (provisioner "run" .delete getSecrets "old").resourcesNamed plainExternals true "v" =
        .ok second ∧
      Exec (faultFree plainExternals) (createDeletePipeline (provisionerOpts "old") second)
        emptyWorld r s ∧
      Exec (faultFree plainExternals) (createConfigurePipeline (provisionerOpts "new") 0 first)
        s r' t ∧
      ∃ (desired : AnyObject) (o : scheme.Obj desired.1),
        UserObject plainExternals (provisioner "run" .delete getSecrets "old") desired ∧
        StoredAs s desired.2 o ∧ ¬ Kept o t := by
  obtain ⟨first, hfirst⟩ : ∃ first,
      (provisioner "run" .configure listPods "new").resourcesNamed plainExternals true "u" =
        .ok first := exists_resources_iff.mpr fun _ => rfl
  obtain ⟨second, hsecond⟩ : ∃ second,
      (provisioner "run" .delete getSecrets "old").resourcesNamed plainExternals true "v" =
        .ok second := exists_resources_iff.mpr fun _ => rfl
  have heval : (eval (serveCall plainExternals)
      (createDeletePipeline (provisionerOpts "old") second) emptyWorld).any (fun out =>
        (eval (serveCall plainExternals)
          (createConfigurePipeline (provisionerOpts "new") 0 first) out.2).any fun next =>
            (out.2.cluster.objects .clusterRole).any fun o =>
              decide (WrittenAs (secretsRole "run") o) && !o.metadata.deleting &&
                (next.2.cluster.objects .clusterRole).all fun x => x.created != o.created) =
      true := by
    cases hfirst
    cases hsecond
    decide +kernel
  obtain ⟨r, s, hdelete, heval⟩ :=
    exists_exec_of_eval (h := faultFree plainExternals) faultFree_of_serveCall heval
  obtain ⟨r', t, hconfigure, hroles⟩ :=
    exists_exec_of_eval (h := faultFree plainExternals) faultFree_of_serveCall heval
  obtain ⟨o, ho, hlost⟩ := List.any_eq_true.mp hroles
  obtain ⟨hstored, hlost⟩ := Bool.and_eq_true_iff.mp hlost
  obtain ⟨hwritten, hlive⟩ := Bool.and_eq_true_iff.mp hstored
  refine ⟨first, second, r, r', s, t, hfirst, hsecond, hdelete, hconfigure, ⟨.clusterRole, _⟩, o,
    .clusterRole "team-a" (List.mem_singleton_self _) (by decide),
    ⟨ho, of_decide_eq_true hwritten, by simpa using hlive⟩, ?_⟩
  rintro ⟨x, hx, -, hcreated⟩
  exact absurd hcreated (by simpa using List.all_eq_true.mp hlost x hx)

/-- A stored object of the second pipeline survives the start of the first, if the
first does not find it or needs one that looks the same. Without faults, and if the
start gets to the deletions, it survives only then. -/
theorem user_objects_kept_iff (env : Externals) {first second : PipelineFactory} {isLast : Bool}
    {uuid : String} {res : PipelineJobResources}
    (hres : first.resourcesNamed env isLast uuid = .ok res) {desired : AnyObject}
    (huser : UserObject env second desired) {s : World} {o : scheme.Obj desired.1}
    (ho : StoredAs s desired.2 o) {p : ParentKind} (opts : Opts p) (i : ℕ) :
    (∀ r t, Exec (faulty env) (createConfigurePipeline opts i res) s r t →
      Spared env first second res desired → Kept o t) ∧
    ∀ r t, Exec (faultFree env) (createConfigurePipeline opts i res) s r t → opts.Proceeds →
      r.err = none → (Kept o t ↔ Spared env first second res desired) := by
  have hstale := stale_iff_not_spared hres huser ho
  have hkept : ∀ r t, Exec (faulty env) (createConfigurePipeline opts i res) s r t →
      Spared env first second res desired → Kept o t := by
    intro r t he hspared
    rcases exec_createConfigurePipeline_starts (fun _ _ _ _ h => h) he with ⟨hsame, -⟩ | ⟨u, hstart⟩
    · exact ⟨o, by rw [hsame _ (huser.kind_ne_parent p)]; exact ho.mem, rfl, rfl⟩
    · obtain ⟨x, hx, hsucc⟩ := hstart.outlives (fun _ _ _ _ h => h) (huser.kind_ne_parent p) ho.mem
        ho.live fun h => hstale.mp h hspared
      exact ⟨x, hx, hsucc.key, hsucc.created⟩
  refine ⟨hkept, fun r t he hproceeds herr => ⟨?_, hkept r t (he.mono faulty_of_faultFree)⟩⟩
  rintro ⟨x, hx, -, hcreated⟩
  by_contra hspared
  rcases exec_createConfigurePipeline_starts faulty_of_faultFree he with ⟨-, hstop⟩ | ⟨u, hstart⟩
  · exact hstop hproceeds herr
  · have hfin : o.metadata.finalizers = [] := ho.written.finalizers.trans huser.finalizers
    exact hstart.gone (huser.kind_ne_parent p) (hstale.mpr hspared) hfin x hx hcreated

/-- The objects of a delete pipeline of another name are kept. -/
theorem user_objects_kept_iff_sample :
    ∃ first second r s,
      (provisioner "run" .configure listPods "new").resourcesNamed plainExternals true "u" =
        .ok first ∧
      (provisioner "remove" .delete getSecrets "old").resourcesNamed plainExternals true "v" =
        .ok second ∧
      Exec (faultFree plainExternals) (createDeletePipeline (provisionerOpts "old") second)
        emptyWorld r s ∧
      ∃ (desired : AnyObject) (o : scheme.Obj desired.1),
        UserObject plainExternals (provisioner "remove" .delete getSecrets "old") desired ∧
        StoredAs s desired.2 o ∧
        ∀ r t, Exec (faulty plainExternals) (createConfigurePipeline (provisionerOpts "new") 0 first)
          s r t → Kept o t := by
  obtain ⟨first, hfirst⟩ : ∃ first,
      (provisioner "run" .configure listPods "new").resourcesNamed plainExternals true "u" =
        .ok first := exists_resources_iff.mpr fun _ => rfl
  obtain ⟨second, hsecond⟩ : ∃ second,
      (provisioner "remove" .delete getSecrets "old").resourcesNamed plainExternals true "v" =
        .ok second := exists_resources_iff.mpr fun _ => rfl
  have heval : (eval (serveCall plainExternals)
      (createDeletePipeline (provisionerOpts "old") second) emptyWorld).any (fun out =>
        (out.2.cluster.objects .clusterRole).any fun o =>
          decide (WrittenAs (secretsRole "remove") o) && !o.metadata.deleting) = true := by
    cases hsecond
    decide +kernel
  obtain ⟨r, s, hdelete, hroles⟩ :=
    exists_exec_of_eval (h := faultFree plainExternals) faultFree_of_serveCall heval
  obtain ⟨o, ho, hstored⟩ := List.any_eq_true.mp hroles
  obtain ⟨hwritten, hlive⟩ := Bool.and_eq_true_iff.mp hstored
  have huser : UserObject plainExternals (provisioner "remove" .delete getSecrets "old")
      ⟨.clusterRole, secretsRole "remove"⟩ :=
    .clusterRole "team-a" (List.mem_singleton_self _) (by decide)
  have hstoredAs : StoredAs (k := .clusterRole) s (secretsRole "remove") o :=
    ⟨ho, of_decide_eq_true hwritten, by simpa using hlive⟩
  refine ⟨first, second, r, s, hfirst, hsecond, hdelete, _, o, huser, hstoredAs, ?_⟩
  intro r t he
  refine (user_objects_kept_iff plainExternals hfirst huser hstoredAs (provisionerOpts "new") 0).1
    r t he (Or.inl fun h => ?_)
  rcases h.pipelineName with h | h <;> exact absurd h (by decide)

end PipelineFactory

end Kratix
