import Kratix.Api.PipelineFactory
import Kratix.Lib.Rbac

/-!
# The access of a pipeline

The roles and bindings that a factory generates are the objects of one grant for
the workflow itself and of one grant for each resource namespace of the user's
permissions. The access is exactly the one asked for, whatever the rules are, if
and only if the objects of the grants have different names and no permission
names the namespace that stands for all namespaces in a label.
-/

namespace Kratix

open Apiserver Rbac

/-! ### Applied objects -/

section

variable {σ τ : Type}

/-- The object that remains under a key: the last one. -/
def lastUnder (l : List (Object σ τ)) (key : String × String) : Option (Object σ τ) :=
  l.reverse.find? fun o => o.key = key

theorem lastUnder_eq_some {l : List (Object σ τ)} {key : String × String} {o : Object σ τ}
    (h : lastUnder l key = some o) : o ∈ l ∧ o.key = key := by
  refine ⟨List.mem_reverse.mp (List.mem_of_find?_eq_some h), ?_⟩
  simpa using List.find?_some h

theorem lastUnder_isSome {l : List (Object σ τ)} {o : Object σ τ} (h : o ∈ l) :
    (lastUnder l o.key).isSome := by
  rw [lastUnder, List.find?_isSome]
  exact ⟨o, List.mem_reverse.mpr h, by simp⟩

end

def BindingSpec.toBinding (spec : BindingSpec) : Binding Subject :=
  ⟨⟨spec.roleRef.kind == "ClusterRole", spec.roleRef.name⟩, spec.subjects⟩

/-- The objects after these have been applied, one after another. -/
def appliedObjects (roles clusterRoles : List Role) (roleBindings clusterRoleBindings : List RoleBinding) :
    Objects PolicyRule Subject where
  role
    | (some ns, name) => (lastUnder roles (ns, name)).map Object.spec
    | (none, name) => (lastUnder clusterRoles ("", name)).map Object.spec
  binding
    | (some ns, name) => (lastUnder roleBindings (ns, name)).map fun b => b.spec.toBinding
    | (none, name) => (lastUnder clusterRoleBindings ("", name)).map fun b => b.spec.toBinding

/-- The generated objects were applied, in some order. -/
def Applied (shared : SharedPipelineResources) (o : Objects PolicyRule Subject) : Prop :=
  ∃ roles clusterRoles roleBindings clusterRoleBindings, roles.Perm shared.roles ∧
    clusterRoles.Perm shared.clusterRoles ∧ roleBindings.Perm shared.roleBindings ∧
    clusterRoleBindings.Perm shared.clusterRoleBindings ∧
    o = appliedObjects roles clusterRoles roleBindings clusterRoleBindings

theorem applied_self (shared : SharedPipelineResources) :
    Applied shared (appliedObjects shared.roles shared.clusterRoles shared.roleBindings
      shared.clusterRoleBindings) :=
  ⟨_, _, _, _, .rfl, .rfl, .rfl, .rfl, rfl⟩

namespace PipelineFactory

variable (env : Externals) (p : PipelineFactory)

/-! ### The grants -/

def defaultRules : List PolicyRule :=
  match p.resourceRequest, p.promise.spec.api with
  | none, _ => [
      { apiGroups := ["platform.kratix.io"]
        resources := ["promises", "promises/status", "works"]
        verbs := ["get", "list", "update", "create", "patch"] }]
  | some _, none => []
  | some _, some crd => [
      { apiGroups := [crd.group]
        resources := [p.crdPlural, p.crdPlural ++ "/status"]
        verbs := ["get", "list", "update", "create", "patch"] },
      { apiGroups := ["platform.kratix.io"], resources := ["works"], verbs := ["*"] }]

def ownGrant : Grant PolicyRule where
  place := match p.resourceRequest with
    | none => .cluster
    | some _ => .role p.ns
  roleName := p.id
  bindingName := p.id
  rules := p.defaultRules

/-- How the namespace of a permission appears in the name of its role. -/
def nameSuffix (resourceNamespace : String) : String :=
  if resourceNamespace = "*" then "kratix-all-namespaces" else resourceNamespace

/-- Whether the permissions for this namespace are given for all of them. -/
def isForAll (resourceNamespace : String) : Bool :=
  resourceNamespace == "*" || resourceNamespace == userPermissionResourceNamespaceLabelAll

def userGrant (resourceNamespace : String) : Grant PolicyRule :=
  if resourceNamespace = "" then
    { place := .role p.ns
      roleName := generateDeterministicObjectName env p.id
      bindingName := generateDeterministicObjectName env p.id
      rules := p.userRules resourceNamespace }
  else
    { place := if isForAll resourceNamespace then .cluster else .binding resourceNamespace
      roleName := generateDeterministicObjectName env (p.id ++ "-" ++ nameSuffix resourceNamespace)
      bindingName := generateDeterministicObjectName env (p.id ++ "-" ++ p.ns)
      rules := p.userRules resourceNamespace }

def userGrants : List (Grant PolicyRule) :=
  (p.pipeline.permissions.map Permission.resourceNamespace).dedup.map (p.userGrant env)

def grants : List (Grant PolicyRule) := p.ownGrant :: p.userGrants env

def account : Subject := ⟨p.serviceAccount.metadata.name, p.serviceAccount.metadata.ns⟩

/-! ### The objects of the grants -/

variable {env p}

def roleObject (g : Grant PolicyRule) (labels : Labels) : Role where
  metadata := { name := g.roleName, ns := g.place.roleScope.getD "", labels := labels }
  spec := g.rules
  status := ()

def bindingObject (g : Grant PolicyRule) (labels : Labels) (who : Subject) : RoleBinding where
  metadata := { name := g.bindingName, ns := g.place.scope.getD "", labels := labels }
  spec := ⟨⟨if g.place.isClusterRole then "ClusterRole" else "Role", g.roleName⟩, [who]⟩
  status := ()

theorem key_roleObject (g : Grant PolicyRule) (labels : Labels) :
    (roleObject g labels).key = (g.place.roleScope.getD "", g.roleName) := rfl

theorem key_bindingObject (g : Grant PolicyRule) (labels : Labels) (who : Subject) :
    (bindingObject g labels who).key = (g.place.scope.getD "", g.bindingName) := rfl

theorem toBinding_bindingObject (g : Grant PolicyRule) (labels : Labels) (who : Subject) :
    (bindingObject g labels who).spec.toBinding = g.toBinding who := by
  unfold bindingObject BindingSpec.toBinding Grant.toBinding
  cases g.place <;> rfl

variable (p)

/-- The labels of the role for a namespace of the user's permissions. -/
def userRoleLabels (resourceNamespace : String) : Labels :=
  if resourceNamespace = "" then p.userPermissionPipelineLabels
  else p.userPermissionPipelineLabels.insert Label.userPermissionResourceNamespace
    (if resourceNamespace = "*" then userPermissionResourceNamespaceLabelAll else resourceNamespace)

/-- Bindings of the cluster do not name the namespace. -/
def userBindingLabels (resourceNamespace : String) : Labels :=
  if isForAll resourceNamespace then p.userPermissionPipelineLabels
  else p.userRoleLabels resourceNamespace

/-- The namespaces that the user's permissions are for. -/
def permissionNamespaces : List String := p.pipeline.permissions.map Permission.resourceNamespace

variable {p}

theorem mem_resourceNamespaces {ns : String} :
    ns ∈ p.resourceNamespaces ↔ ns ∈ p.permissionNamespaces ∧ ns ≠ "" := by
  simp [resourceNamespaces, permissionNamespaces]

theorem userRules_eq_nil {ns : String} : p.userRules ns = [] ↔ ns ∉ p.permissionNamespaces := by
  simp [userRules, permissionNamespaces, List.filter_eq_nil_iff]

theorem mem_userRules {ns : String} {rule : PolicyRule} :
    rule ∈ p.userRules ns ↔ ⟨ns, rule⟩ ∈ p.pipeline.permissions := by
  simp only [userRules, List.mem_map, List.mem_filter, decide_eq_true_eq]
  constructor
  · rintro ⟨⟨_, _⟩, ⟨h, rfl⟩, rfl⟩
    exact h
  · exact fun h => ⟨_, ⟨h, rfl⟩, rfl⟩

theorem mem_grants {g : Grant PolicyRule} :
    g ∈ p.grants env ↔ g = p.ownGrant ∨ ∃ ns ∈ p.permissionNamespaces, g = p.userGrant env ns := by
  simp [grants, userGrants, permissionNamespaces, eq_comm]

theorem mem_role {roles : List Role} (h : p.role env = .ok roles) {r : Role} :
    r ∈ roles ↔
      (p.resourceRequest.isSome ∧ r = roleObject p.ownGrant (promiseNameLabel p.promiseName)) ∨
        ("" ∈ p.permissionNamespaces ∧ r = roleObject (p.userGrant env "") (p.userRoleLabels "")) := by
  have huser : ∀ own : List Role, (if p.userRules "" = [] then pure own else pure (own ++ [{
      metadata := {
        name := generateDeterministicObjectName env p.id
        ns := p.ns
        labels := p.userPermissionPipelineLabels }
      spec := p.userRules ""
      status := () }]) : Except Failure (List Role)) = .ok roles → (r ∈ roles ↔ r ∈ own ∨
        ("" ∈ p.permissionNamespaces ∧
          r = roleObject (p.userGrant env "") (p.userRoleLabels ""))) := by
    intro own hown
    by_cases hrules : p.userRules "" = []
    · rw [if_pos hrules] at hown
      cases hown
      simp [userRules_eq_nil.mp hrules]
    · rw [if_neg hrules] at hown
      cases hown
      rw [List.mem_append, List.mem_singleton]
      simp only [not_not.mp fun hno => hrules (userRules_eq_nil.mpr hno), true_and]
      rfl
  unfold role at h
  cases hrr : p.resourceRequest with
  | none =>
    rw [hrr] at h
    simpa using huser [] h
  | some rr =>
    rw [hrr] at h
    cases hapi : p.promise.spec.api with
    | none =>
      rw [hapi] at h
      cases h
    | some crd =>
      rw [hapi] at h
      rw [huser _ h]
      simp [roleObject, ownGrant, defaultRules, hrr, hapi, Place.roleScope]

theorem roleScope_userGrant {ns : String} (h : ns ≠ "") :
    (p.userGrant env ns).place.roleScope = none := by
  unfold userGrant
  rw [if_neg h]
  cases hall : isForAll ns <;> simp [Place.roleScope]

theorem namespacedClusterRole_eq {ns : String} (h : ns ≠ "") :
    p.namespacedClusterRole env ns = roleObject (p.userGrant env ns) (p.userRoleLabels ns) := by
  unfold roleObject
  rw [roleScope_userGrant h]
  unfold namespacedClusterRole userGrant userRoleLabels nameSuffix
  simp only [h, if_false]
  by_cases hall : ns = "*" <;> simp [hall]

theorem mem_clusterRole {r : Role} :
    r ∈ p.clusterRole env ↔
      (p.resourceRequest.isNone ∧ r = roleObject p.ownGrant (promiseNameLabel p.promiseName)) ∨
        ∃ ns ∈ p.permissionNamespaces, ns ≠ "" ∧
          r = roleObject (p.userGrant env ns) (p.userRoleLabels ns) := by
  have huser : r ∈ p.resourceNamespaces.map (p.namespacedClusterRole env) ↔
      ∃ ns ∈ p.permissionNamespaces, ns ≠ "" ∧
        r = roleObject (p.userGrant env ns) (p.userRoleLabels ns) := by
    rw [List.mem_map]
    constructor
    · rintro ⟨ns, hns, rfl⟩
      obtain ⟨hns, hne⟩ := mem_resourceNamespaces.mp hns
      exact ⟨ns, hns, hne, namespacedClusterRole_eq hne⟩
    · rintro ⟨ns, hns, hne, rfl⟩
      exact ⟨ns, mem_resourceNamespaces.mpr ⟨hns, hne⟩, namespacedClusterRole_eq hne⟩
  unfold clusterRole
  rw [List.mem_append, huser]
  refine or_congr_left ?_
  cases hrr : p.resourceRequest with
  | none => simp [roleObject, ownGrant, defaultRules, hrr, Place.roleScope]
  | some rr => simp

theorem lookup_userRoleLabels {ns : String} (h : ns ≠ "") :
    (p.userRoleLabels ns).lookup Label.userPermissionResourceNamespace =
      some (if ns = "*" then userPermissionResourceNamespaceLabelAll else ns) := by
  unfold userRoleLabels
  rw [if_neg h, Labels.lookup_insert, if_pos rfl]

theorem lookup_promiseNameLabel : (promiseNameLabel p.promiseName).lookup
    Label.userPermissionResourceNamespace = none := by
  simp [promiseNameLabel, Label.promiseName, Label.userPermissionResourceNamespace]

theorem isForAll_eq_true {ns : String} :
    isForAll ns = true ↔ ns = "*" ∨ ns = userPermissionResourceNamespaceLabelAll := by
  simp [isForAll]

theorem bindingObject_namespace {ns : String} (hne : ns ≠ "") (hall : isForAll ns = false) :
    bindingObject (p.userGrant env ns) (p.userBindingLabels ns) p.account =
      { metadata := {
          name := generateDeterministicObjectName env (p.id ++ "-" ++ p.ns)
          ns := ns
          labels := p.userRoleLabels ns }
        spec := ⟨⟨"ClusterRole", (p.userGrant env ns).roleName⟩, subjects p.serviceAccount⟩
        status := () } := by
  simp [bindingObject, userGrant, userBindingLabels, hne, hall, Place.scope, Place.isClusterRole,
    subjects, account]

theorem bindingObject_cluster {ns : String} (hne : ns ≠ "") (hall : isForAll ns = true) :
    bindingObject (p.userGrant env ns) (p.userBindingLabels ns) p.account =
      { metadata := {
          name := generateDeterministicObjectName env (p.id ++ "-" ++ p.ns)
          labels := p.userPermissionPipelineLabels }
        spec := ⟨⟨"ClusterRole", (p.userGrant env ns).roleName⟩, subjects p.serviceAccount⟩
        status := () } := by
  simp [bindingObject, userGrant, userBindingLabels, hne, hall, Place.scope, Place.isClusterRole,
    subjects, account]

theorem mem_roleBindings {roles : List Role} (h : p.role env = .ok roles) {b : RoleBinding} :
    b ∈ p.roleBindings env roles (p.clusterRole env) p.serviceAccount ↔
      (p.resourceRequest.isSome ∧
        b = bindingObject p.ownGrant (promiseNameLabel p.promiseName) p.account) ∨
      ∃ ns ∈ p.permissionNamespaces, isForAll ns = false ∧
        b = bindingObject (p.userGrant env ns) (p.userBindingLabels ns) p.account := by
  have hown : p.resourceRequest.isSome →
      bindingObject p.ownGrant (promiseNameLabel p.promiseName) p.account =
      { metadata := { name := p.id, ns := p.ns, labels := promiseNameLabel p.promiseName }
        spec := ⟨⟨"Role", p.id⟩, subjects p.serviceAccount⟩
        status := () } := by
    intro hrr
    obtain ⟨rr, hrr⟩ := Option.isSome_iff_exists.mp hrr
    simp [bindingObject, ownGrant, hrr, Place.scope, Place.isClusterRole, subjects, account]
  unfold roleBindings
  rw [List.mem_append, List.mem_map, List.mem_filterMap]
  constructor
  · rintro (⟨r, hr, rfl⟩ | ⟨r, hr, hb⟩)
    · rcases (mem_role h).mp hr with ⟨hrr, rfl⟩ | ⟨hns, rfl⟩
      · exact Or.inl ⟨hrr, (hown hrr).symm⟩
      · exact Or.inr ⟨"", hns, rfl, rfl⟩
    · rcases mem_clusterRole.mp hr with ⟨-, rfl⟩ | ⟨ns, hns, hne, rfl⟩
      · simp [roleObject, lookup_promiseNameLabel] at hb
      · by_cases hstar : ns = "*"
        · simp only [roleObject, lookup_userRoleLabels hne, if_pos hstar, if_true] at hb
          cases hb
        simp only [roleObject, lookup_userRoleLabels hne, if_neg hstar] at hb
        split_ifs at hb with hlabel
        have hall : isForAll ns = false := by simp [isForAll, hstar, hlabel]
        refine Or.inr ⟨ns, hns, hall, ?_⟩
        rw [bindingObject_namespace hne hall]
        exact (Option.some.inj hb).symm
  · rintro (⟨hrr, rfl⟩ | ⟨ns, hns, hall, rfl⟩)
    · exact Or.inl ⟨_, (mem_role h).mpr (Or.inl ⟨hrr, rfl⟩), (hown hrr).symm⟩
    · by_cases hne : ns = ""
      · subst hne
        exact Or.inl ⟨_, (mem_role h).mpr (Or.inr ⟨hns, rfl⟩), rfl⟩
      · refine Or.inr ⟨_, mem_clusterRole.mpr (Or.inr ⟨ns, hns, hne, rfl⟩), ?_⟩
        have hstar : ns ≠ "*" ∧ ns ≠ userPermissionResourceNamespaceLabelAll := by
          simpa [isForAll] using hall
        rw [bindingObject_namespace hne hall]
        simp only [roleObject, lookup_userRoleLabels hne, if_neg hstar.1, if_neg hstar.2]
        rfl

theorem mem_clusterRoleBinding {b : RoleBinding} :
    b ∈ p.clusterRoleBinding env (p.clusterRole env) p.serviceAccount ↔
      (p.resourceRequest.isNone ∧
        b = bindingObject p.ownGrant (promiseNameLabel p.promiseName) p.account) ∨
      ∃ ns ∈ p.permissionNamespaces, isForAll ns = true ∧
        b = bindingObject (p.userGrant env ns) (p.userBindingLabels ns) p.account := by
  have hown : p.resourceRequest.isNone →
      bindingObject p.ownGrant (promiseNameLabel p.promiseName) p.account =
      { metadata := { name := p.id, labels := promiseNameLabel p.promiseName }
        spec := ⟨⟨"ClusterRole", p.id⟩, subjects p.serviceAccount⟩
        status := () } := by
    intro hrr
    simp [bindingObject, ownGrant, Option.isNone_iff_eq_none.mp hrr, Place.scope,
      Place.isClusterRole, subjects, account]
  unfold clusterRoleBinding
  rw [List.mem_filterMap]
  constructor
  · rintro ⟨r, hr, hb⟩
    rcases mem_clusterRole.mp hr with ⟨hrr, rfl⟩ | ⟨ns, hns, hne, rfl⟩
    · simp only [roleObject, lookup_promiseNameLabel] at hb
      refine Or.inl ⟨hrr, ?_⟩
      rw [hown hrr]
      exact (Option.some.inj hb).symm
    · have hall : isForAll ns = true := by
        rw [isForAll_eq_true]
        by_contra hno
        rw [not_or] at hno
        simp [roleObject, lookup_userRoleLabels hne, hno] at hb
      refine Or.inr ⟨ns, hns, hall, ?_⟩
      rw [bindingObject_cluster hne hall]
      by_cases hstar : ns = "*"
      · simp only [roleObject, lookup_userRoleLabels hne, if_pos hstar] at hb
        exact (Option.some.inj hb).symm
      · simp only [roleObject, lookup_userRoleLabels hne, if_neg hstar,
          if_pos ((isForAll_eq_true.mp hall).resolve_left hstar)] at hb
        exact (Option.some.inj hb).symm
  · rintro (⟨hrr, rfl⟩ | ⟨ns, hns, hall, rfl⟩)
    · refine ⟨_, mem_clusterRole.mpr (Or.inl ⟨hrr, rfl⟩), ?_⟩
      rw [hown hrr]
      simp only [roleObject, lookup_promiseNameLabel]
      rfl
    · have hne : ns ≠ "" := by
        rintro rfl
        cases hall
      refine ⟨_, mem_clusterRole.mpr (Or.inr ⟨ns, hns, hne, rfl⟩), ?_⟩
      rw [bindingObject_cluster hne hall]
      by_cases hstar : ns = "*"
      · simp only [roleObject, lookup_userRoleLabels hne, if_pos hstar]
        rfl
      · simp only [roleObject, lookup_userRoleLabels hne, if_neg hstar,
          if_pos ((isForAll_eq_true.mp hall).resolve_left hstar)]
        rfl

/-! ### The access given -/

theorem scope_userGrant {ns : String} :
    (p.userGrant env ns).place.scope = none ↔ isForAll ns = true := by
  unfold userGrant
  by_cases hne : ns = ""
  · simp [hne, Place.scope, isForAll, userPermissionResourceNamespaceLabelAll]
  · cases hall : isForAll ns <;> simp [hne, Place.scope]

theorem roleScope_ownGrant :
    p.ownGrant.place.roleScope = if p.resourceRequest.isSome then some p.ns else none := by
  unfold ownGrant
  cases p.resourceRequest <;> rfl

theorem scope_ownGrant :
    p.ownGrant.place.scope = if p.resourceRequest.isSome then some p.ns else none := by
  unfold ownGrant
  cases p.resourceRequest <;> rfl

/-- The roles of namespaces and of the cluster are those of the grants. -/
theorem roleObjects {roles : List Role} (h : p.role env = .ok roles) :
    (∀ r ∈ roles, ∃ g ∈ p.grants env, ∃ labels, r = roleObject g labels ∧
        g.place.roleScope.isSome) ∧
      (∀ r ∈ p.clusterRole env, ∃ g ∈ p.grants env, ∃ labels, r = roleObject g labels ∧
        g.place.roleScope = none) ∧
      ∀ g ∈ p.grants env, ∃ labels,
        roleObject g labels ∈ if g.place.roleScope.isSome then roles else p.clusterRole env := by
  refine ⟨fun r hr => ?_, fun r hr => ?_, fun g hg => ?_⟩
  · rcases (mem_role h).mp hr with ⟨hrr, rfl⟩ | ⟨hns, rfl⟩
    · exact ⟨_, mem_grants.mpr (Or.inl rfl), _, rfl, by simp [roleScope_ownGrant, hrr]⟩
    · exact ⟨_, mem_grants.mpr (Or.inr ⟨"", hns, rfl⟩), _, rfl, rfl⟩
  · rcases mem_clusterRole.mp hr with ⟨hrr, rfl⟩ | ⟨ns, hns, hne, rfl⟩
    · refine ⟨_, mem_grants.mpr (Or.inl rfl), _, rfl, ?_⟩
      simp [roleScope_ownGrant, Option.isNone_iff_eq_none.mp hrr]
    · exact ⟨_, mem_grants.mpr (Or.inr ⟨ns, hns, rfl⟩), _, rfl, roleScope_userGrant hne⟩
  · rcases mem_grants.mp hg with rfl | ⟨ns, hns, rfl⟩
    · refine ⟨promiseNameLabel p.promiseName, ?_⟩
      cases hrr : p.resourceRequest.isSome with
      | true => simp [roleScope_ownGrant, hrr, mem_role h]
      | false =>
        simp [roleScope_ownGrant, hrr, mem_clusterRole, Option.isSome_eq_false_iff.mp hrr]
    · refine ⟨p.userRoleLabels ns, ?_⟩
      by_cases hne : ns = ""
      · subst hne
        exact (mem_role h).mpr (Or.inr ⟨hns, rfl⟩)
      · rw [roleScope_userGrant hne]
        exact mem_clusterRole.mpr (Or.inr ⟨ns, hns, hne, rfl⟩)

/-- The bindings in namespaces and of the cluster are those of the grants. -/
theorem bindingObjects {roles : List Role} (h : p.role env = .ok roles) :
    (∀ b ∈ p.roleBindings env roles (p.clusterRole env) p.serviceAccount,
        ∃ g ∈ p.grants env, ∃ labels, b = bindingObject g labels p.account ∧
          g.place.scope.isSome) ∧
      (∀ b ∈ p.clusterRoleBinding env (p.clusterRole env) p.serviceAccount,
        ∃ g ∈ p.grants env, ∃ labels, b = bindingObject g labels p.account ∧
          g.place.scope = none) ∧
      ∀ g ∈ p.grants env, ∃ labels, bindingObject g labels p.account ∈
        if g.place.scope.isSome then p.roleBindings env roles (p.clusterRole env) p.serviceAccount
        else p.clusterRoleBinding env (p.clusterRole env) p.serviceAccount := by
  refine ⟨fun b hb => ?_, fun b hb => ?_, fun g hg => ?_⟩
  · rcases (mem_roleBindings h).mp hb with ⟨hrr, rfl⟩ | ⟨ns, hns, hall, rfl⟩
    · exact ⟨_, mem_grants.mpr (Or.inl rfl), _, rfl, by simp [scope_ownGrant, hrr]⟩
    · refine ⟨_, mem_grants.mpr (Or.inr ⟨ns, hns, rfl⟩), _, rfl, ?_⟩
      rw [Option.isSome_iff_ne_none, ne_eq, scope_userGrant, hall]
      decide
  · rcases mem_clusterRoleBinding.mp hb with ⟨hrr, rfl⟩ | ⟨ns, hns, hall, rfl⟩
    · refine ⟨_, mem_grants.mpr (Or.inl rfl), _, rfl, ?_⟩
      simp [scope_ownGrant, Option.isNone_iff_eq_none.mp hrr]
    · exact ⟨_, mem_grants.mpr (Or.inr ⟨ns, hns, rfl⟩), _, rfl, scope_userGrant.mpr hall⟩
  · rcases mem_grants.mp hg with rfl | ⟨ns, hns, rfl⟩
    · refine ⟨promiseNameLabel p.promiseName, ?_⟩
      cases hrr : p.resourceRequest.isSome with
      | true => simp [scope_ownGrant, hrr, mem_roleBindings h]
      | false =>
        simp [scope_ownGrant, hrr, mem_clusterRoleBinding, Option.isSome_eq_false_iff.mp hrr]
    · refine ⟨p.userBindingLabels ns, ?_⟩
      cases hall : isForAll ns with
      | true =>
        rw [scope_userGrant.mpr hall]
        exact mem_clusterRoleBinding.mpr (Or.inr ⟨ns, hns, hall, rfl⟩)
      | false =>
        have hscope : (p.userGrant env ns).place.scope.isSome := by
          rw [Option.isSome_iff_ne_none, ne_eq, scope_userGrant, hall]
          decide
        rw [if_pos hscope]
        exact (mem_roleBindings h).mpr (Or.inr ⟨ns, hns, hall, rfl⟩)

theorem resourcesNamed_ok {isLast : Bool} {uuid : String} {res : PipelineJobResources}
    (h : p.resourcesNamed env isLast uuid = .ok res) :
    p.role env = .ok res.shared.roles ∧ res.shared.clusterRoles = p.clusterRole env ∧
      res.shared.roleBindings =
        p.roleBindings env res.shared.roles (p.clusterRole env) p.serviceAccount ∧
      res.shared.clusterRoleBindings =
        p.clusterRoleBinding env (p.clusterRole env) p.serviceAccount := by
  unfold resourcesNamed at h
  cases hroles : p.role env with
  | error e =>
    rw [hroles] at h
    cases h
  | ok roles =>
    rw [hroles] at h
    cases h
    exact ⟨rfl, rfl, rfl, rfl⟩

/-- Applied in any order, the generated objects are those of the grants. -/
theorem holds_of_applied {isLast : Bool} {uuid : String} {res : PipelineJobResources}
    (hres : p.resourcesNamed env isLast uuid = .ok res) {o : Objects PolicyRule Subject}
    (ho : Applied res.shared o) : Holds o (p.grants env) p.account := by
  obtain ⟨hroles, hcr, hrb, hcrb⟩ := resourcesNamed_ok hres
  obtain ⟨rs, crs, rbs, crbs, hrs, hcrs, hrbs, hcrbs, rfl⟩ := ho
  rw [hcr] at hcrs
  rw [hrb] at hrbs
  rw [hcrb] at hcrbs
  obtain ⟨hrole, hclusterRole, hroleOf⟩ := roleObjects hroles
  obtain ⟨hbinding, hclusterBinding, hbindingOf⟩ := bindingObjects hroles
  constructor
  · rintro ⟨_ | ns, name⟩ rules hrules
    · obtain ⟨r, hr, rfl⟩ := Option.map_eq_some_iff.mp hrules
      obtain ⟨hmem, hkey⟩ := lastUnder_eq_some hr
      obtain ⟨g, hg, labels, rfl, hscope⟩ := hclusterRole r (hcrs.mem_iff.mp hmem)
      rw [key_roleObject] at hkey
      exact ⟨g, hg, Prod.ext hscope (Prod.mk.inj hkey).2, rfl⟩
    · obtain ⟨r, hr, rfl⟩ := Option.map_eq_some_iff.mp hrules
      obtain ⟨hmem, hkey⟩ := lastUnder_eq_some hr
      obtain ⟨g, hg, labels, rfl, hscope⟩ := hrole r (hrs.mem_iff.mp hmem)
      obtain ⟨ns', hns'⟩ := Option.isSome_iff_exists.mp hscope
      rw [key_roleObject, hns'] at hkey
      obtain ⟨rfl, hname⟩ := Prod.mk.inj hkey
      exact ⟨g, hg, Prod.ext hns' hname, rfl⟩
  · intro g hg
    obtain ⟨labels, hmem⟩ := hroleOf g hg
    unfold Grant.roleKey
    cases hscope : g.place.roleScope with
    | none =>
      rw [hscope] at hmem
      have hlast := lastUnder_isSome (hcrs.mem_iff.mpr hmem)
      rw [key_roleObject, hscope] at hlast
      exact (Option.isSome_map ..).trans hlast
    | some ns =>
      rw [hscope] at hmem
      have hlast := lastUnder_isSome (hrs.mem_iff.mpr hmem)
      rw [key_roleObject, hscope] at hlast
      exact (Option.isSome_map ..).trans hlast
  · rintro ⟨_ | ns, name⟩ b hb
    · obtain ⟨x, hx, rfl⟩ := Option.map_eq_some_iff.mp hb
      obtain ⟨hmem, hkey⟩ := lastUnder_eq_some hx
      obtain ⟨g, hg, labels, rfl, hscope⟩ := hclusterBinding x (hcrbs.mem_iff.mp hmem)
      rw [key_bindingObject] at hkey
      exact ⟨g, hg, Prod.ext hscope (Prod.mk.inj hkey).2, (toBinding_bindingObject g _ _).symm⟩
    · obtain ⟨x, hx, rfl⟩ := Option.map_eq_some_iff.mp hb
      obtain ⟨hmem, hkey⟩ := lastUnder_eq_some hx
      obtain ⟨g, hg, labels, rfl, hscope⟩ := hbinding x (hrbs.mem_iff.mp hmem)
      obtain ⟨ns', hns'⟩ := Option.isSome_iff_exists.mp hscope
      rw [key_bindingObject, hns'] at hkey
      obtain ⟨rfl, hname⟩ := Prod.mk.inj hkey
      exact ⟨g, hg, Prod.ext hns' hname, (toBinding_bindingObject g _ _).symm⟩
  · intro g hg
    obtain ⟨labels, hmem⟩ := hbindingOf g hg
    unfold Grant.bindingKey
    cases hscope : g.place.scope with
    | none =>
      rw [hscope] at hmem
      have hlast := lastUnder_isSome (hcrbs.mem_iff.mpr hmem)
      rw [key_bindingObject, hscope] at hlast
      exact (Option.isSome_map ..).trans hlast
    | some ns =>
      rw [hscope] at hmem
      have hlast := lastUnder_isSome (hrbs.mem_iff.mpr hmem)
      rw [key_bindingObject, hscope] at hlast
      exact (Option.isSome_map ..).trans hlast

end PipelineFactory

end Kratix
