import Kratix.Rbac.Neighbours

/-!
# Permissions that change

A configure pipeline runs again with other permissions or another service account.
If its Job carries the labels by which its objects are found, the access that is
left is the one of the last permissions, whatever the permissions were before.
-/

namespace Kratix

open Apiserver Effect Rbac Workflow

/-- The objects that are applied when the pipeline starts. -/
def PipelineJobResources.applied (res : PipelineJobResources) : List AnyObject :=
  res.getObjects ++ [⟨.job, res.job⟩]

namespace PipelineFactory

variable {env : Externals} {base f g : PipelineFactory} {s t : World} {k : Kind}

/-! ### Generated objects -/

variable (env f) in
def roleOf : Option String → Role
  | none => roleObject f.ownGrant (promiseNameLabel f.promiseName)
  | some ns => roleObject (f.userGrant env ns) (f.userRoleLabels ns)

variable (env f) in
def bindingOf : Option String → RoleBinding
  | none => bindingObject f.ownGrant (promiseNameLabel f.promiseName) f.account
  | some ns => bindingObject (f.userGrant env ns) (f.userBindingLabels ns) f.account

/-- The roles and bindings that are generated, with where they come from. -/
inductive Generated (env : Externals) (f : PipelineFactory) : Option String → AnyObject → Prop
  | role (e : Option String) (h : e ∈ f.sources)
      (hscope : (f.grantOf env e).place.roleScope.isSome) :
      Generated env f e ⟨.role, f.roleOf env e⟩
  | clusterRole (e : Option String) (h : e ∈ f.sources)
      (hscope : (f.grantOf env e).place.roleScope = none) :
      Generated env f e ⟨.clusterRole, f.roleOf env e⟩
  | roleBinding (e : Option String) (h : e ∈ f.sources)
      (hscope : (f.grantOf env e).place.scope.isSome) :
      Generated env f e ⟨.roleBinding, f.bindingOf env e⟩
  | clusterRoleBinding (e : Option String) (h : e ∈ f.sources)
      (hscope : (f.grantOf env e).place.scope = none) :
      Generated env f e ⟨.clusterRoleBinding, f.bindingOf env e⟩

def IsRbac : Kind → Prop
  | .role | .clusterRole | .roleBinding | .clusterRoleBinding => True
  | _ => False

theorem none_mem_sources (f : PipelineFactory) : none ∈ f.sources := fun _ h => by cases h

theorem some_mem_sources {ns : String} : some ns ∈ f.sources ↔ ns ∈ f.permissionNamespaces :=
  ⟨fun h => h ns rfl, fun h _ heq => by cases heq; exact h⟩

theorem mem_applied {res : PipelineJobResources} :
    (∀ o, (⟨.role, o⟩ : AnyObject) ∈ res.applied ↔ o ∈ res.shared.roles) ∧
      (∀ o, (⟨.clusterRole, o⟩ : AnyObject) ∈ res.applied ↔ o ∈ res.shared.clusterRoles) ∧
      (∀ o, (⟨.roleBinding, o⟩ : AnyObject) ∈ res.applied ↔ o ∈ res.shared.roleBindings) ∧
      ∀ o, (⟨.clusterRoleBinding, o⟩ : AnyObject) ∈ res.applied ↔
        o ∈ res.shared.clusterRoleBindings := by
  refine ⟨?_, ?_, ?_, ?_⟩ <;> intro o <;>
    simp [PipelineJobResources.applied, PipelineJobResources.getObjects]

theorem mem_applied_iff {isLast : Bool} {uuid : String} {res : PipelineJobResources}
    (hres : f.resourcesNamed env isLast uuid = .ok res) (hk : IsRbac k) {o : scheme.Obj k} :
    (⟨k, o⟩ : AnyObject) ∈ res.applied ↔ ∃ e, Generated env f e ⟨k, o⟩ := by
  obtain ⟨hroles, hcr, hrb, hcrb⟩ := resourcesNamed_ok hres
  cases k with
  | role =>
    rw [mem_applied.1, mem_role hroles]
    constructor
    · rintro (⟨hrr, rfl⟩ | ⟨hns, rfl⟩)
      · exact ⟨none, .role none (none_mem_sources f) (by simp [grantOf, roleScope_ownGrant, hrr])⟩
      · exact ⟨some "", .role (some "") (some_mem_sources.mpr hns) rfl⟩
    · rintro ⟨e, h⟩
      cases h with
      | role he hscope =>
      cases e with
      | none => exact Or.inl ⟨by simpa [grantOf, roleScope_ownGrant] using hscope, rfl⟩
      | some ns =>
        by_cases hne : ns = ""
        · subst hne
          exact Or.inr ⟨some_mem_sources.mp he, rfl⟩
        · simp [grantOf, roleScope_userGrant hne] at hscope
  | clusterRole =>
    rw [mem_applied.2.1, hcr, mem_clusterRole]
    constructor
    · rintro (⟨hrr, rfl⟩ | ⟨ns, hns, hne, rfl⟩)
      · refine ⟨none, .clusterRole none (none_mem_sources f) ?_⟩
        simp [grantOf, roleScope_ownGrant, Option.isNone_iff_eq_none.mp hrr]
      · exact ⟨some ns, .clusterRole (some ns) (some_mem_sources.mpr hns) (roleScope_userGrant hne)⟩
    · rintro ⟨e, h⟩
      cases h with
      | clusterRole he hscope =>
      cases e with
      | none => exact Or.inl ⟨by simpa [grantOf, roleScope_ownGrant] using hscope, rfl⟩
      | some ns =>
        refine Or.inr ⟨ns, some_mem_sources.mp he, ?_, rfl⟩
        rintro rfl
        cases hscope
  | roleBinding =>
    rw [mem_applied.2.2.1, hrb, mem_roleBindings hroles]
    constructor
    · rintro (⟨hrr, rfl⟩ | ⟨ns, hns, hall, rfl⟩)
      · exact ⟨none, .roleBinding none (none_mem_sources f) (by simp [grantOf, scope_ownGrant, hrr])⟩
      · refine ⟨some ns, .roleBinding (some ns) (some_mem_sources.mpr hns) ?_⟩
        rw [Option.isSome_iff_ne_none, ne_eq]
        exact fun h => absurd (scope_userGrant.mp h) (by simp [hall])
    · rintro ⟨e, h⟩
      cases h with
      | roleBinding he hscope =>
      cases e with
      | none => exact Or.inl ⟨by simpa [grantOf, scope_ownGrant] using hscope, rfl⟩
      | some ns =>
        refine Or.inr ⟨ns, some_mem_sources.mp he, ?_, rfl⟩
        rw [Option.isSome_iff_ne_none, ne_eq] at hscope
        exact Bool.eq_false_iff.mpr fun h => hscope (scope_userGrant.mpr h)
  | clusterRoleBinding =>
    rw [mem_applied.2.2.2, hcrb, mem_clusterRoleBinding]
    constructor
    · rintro (⟨hrr, rfl⟩ | ⟨ns, hns, hall, rfl⟩)
      · refine ⟨none, .clusterRoleBinding none (none_mem_sources f) ?_⟩
        simp [grantOf, scope_ownGrant, Option.isNone_iff_eq_none.mp hrr]
      · exact ⟨some ns, .clusterRoleBinding (some ns) (some_mem_sources.mpr hns)
          (scope_userGrant.mpr hall)⟩
    · rintro ⟨e, h⟩
      cases h with
      | clusterRoleBinding he hscope =>
      cases e with
      | none => exact Or.inl ⟨by simpa [grantOf, scope_ownGrant] using hscope, rfl⟩
      | some ns => exact Or.inr ⟨ns, some_mem_sources.mp he, scope_userGrant.mp hscope, rfl⟩
  | _ => cases hk

/-- In one list of generated objects of a kind, the key tells where an object comes from. -/
theorem Generated.source_inj (hd : Distinguished env f) {e e' : Option String}
    {o o' : scheme.Obj k} (h : Generated env f e ⟨k, o⟩) (h' : Generated env f e' ⟨k, o'⟩)
    (hkey : o.key = o'.key) : e = e' := by
  have hrole : ∀ e, (f.roleOf env e).key =
      ((f.grantOf env e).place.roleScope.getD "", (f.grantOf env e).roleName) := by
    rintro (_ | ns) <;> rfl
  have hbinding : ∀ e, (f.bindingOf env e).key =
      ((f.grantOf env e).place.scope.getD "", (f.grantOf env e).bindingName) := by
    rintro (_ | ns) <;> rfl
  have hsome : ∀ {a b : Option String}, a.isSome → b.isSome → a.getD "" = b.getD "" → a = b := by
    rintro (_ | a) (_ | b) ha hb h
    · cases ha
    · cases ha
    · cases hb
    · exact congrArg some h
  cases h with
  | role he hscope =>
    cases h' with
    | role he' hscope' =>
    rw [hrole, hrole] at hkey
    obtain ⟨hns, hname⟩ := Prod.mk.inj hkey
    exact hd.roles he he' (Prod.ext (hsome hscope hscope' hns) hname)
  | clusterRole he hscope =>
    cases h' with
    | clusterRole he' hscope' =>
    rw [hrole, hrole] at hkey
    exact hd.roles he he' (Prod.ext (hscope.trans hscope'.symm) (Prod.mk.inj hkey).2)
  | roleBinding he hscope =>
    cases h' with
    | roleBinding he' hscope' =>
    rw [hbinding, hbinding] at hkey
    obtain ⟨hns, hname⟩ := Prod.mk.inj hkey
    exact hd.bindings he he' (Prod.ext (hsome hscope hscope' hns) hname)
  | clusterRoleBinding he hscope =>
    cases h' with
    | clusterRoleBinding he' hscope' =>
    rw [hbinding, hbinding] at hkey
    exact hd.bindings he he' (Prod.ext (hscope.trans hscope'.symm) (Prod.mk.inj hkey).2)

theorem Generated.eq_of_source {e : Option String} {o o' : scheme.Obj k}
    (h : Generated env f e ⟨k, o⟩) (h' : Generated env f e ⟨k, o'⟩) : o = o' := by
  cases h <;> cases h' <;> rfl

/-! ### Matching objects -/

/-- Roles with the same rules, bindings with the same subjects and role. -/
def alike : (k : Kind) → scheme.Obj k → scheme.Obj k → Bool
  | .role => rolesMatch
  | .clusterRole => rolesMatch
  | .roleBinding => roleBindingsMatch
  | .clusterRoleBinding => roleBindingsMatch
  | _ => fun _ _ => true

theorem matchesDesired_iff {isLast : Bool} {uuid : String} {res : PipelineJobResources}
    (hres : f.resourcesNamed env isLast uuid = .ok res) (hk : IsRbac k) {x : scheme.Obj k} :
    matchesDesired res k x = true ↔ ∃ e o, Generated env f e ⟨k, o⟩ ∧ alike k x o = true := by
  have hmem : ∀ o : scheme.Obj k, (∃ e, Generated env f e ⟨k, o⟩) ↔ (⟨k, o⟩ : AnyObject) ∈ res.applied :=
    fun o => (mem_applied_iff hres hk).symm
  rw [exists_comm]
  simp only [exists_and_right, hmem]
  cases k with
  | role => simp only [matchesDesired, List.any_eq_true, mem_applied.1, alike]
  | clusterRole => simp only [matchesDesired, List.any_eq_true, mem_applied.2.1, alike]
  | roleBinding => simp only [matchesDesired, List.any_eq_true, mem_applied.2.2.1, alike]
  | clusterRoleBinding => simp only [matchesDesired, List.any_eq_true, mem_applied.2.2.2, alike]
  | _ => cases hk

/-- A printed reference tells the kind and the name of the role. -/
theorem roleRef_text_inj {a b : Bool} {m n : String}
    (h : RoleRef.text ⟨if a then "ClusterRole" else "Role", m⟩ =
      RoleRef.text ⟨if b then "ClusterRole" else "Role", n⟩) : a = b ∧ m = n := by
  have hname : ∀ p q : String, p ++ m ++ q = p ++ n ++ q → m = n := by
    intro p q hpq
    rwa [String.append_left_inj, String.append_right_inj] at hpq
  have hkind : ∀ x y : String, "ClusterRole" ++ x ≠ "Role" ++ y := by
    intro x y hxy
    have hhead := congrArg (fun s => s.toList.head?) hxy
    have hC : "ClusterRole".toList.head? = some 'C' := by decide
    have hR : "Role".toList.head? = some 'R' := by decide
    simp only [String.toList_append, List.head?_append, hC, hR, Option.some_or] at hhead
    exact absurd hhead (by decide)
  unfold RoleRef.text at h
  dsimp only at h
  cases a with
  | false =>
    cases b with
    | false => exact ⟨rfl, hname _ _ h⟩
    | true =>
      simp only [String.append_assoc, String.append_right_inj] at h
      exact absurd h.symm (hkind _ _)
  | true =>
    cases b with
    | false =>
      simp only [String.append_assoc, String.append_right_inj] at h
      exact absurd h (hkind _ _)
    | true => exact ⟨rfl, hname _ _ h⟩

/-! ### One pipeline with changing permissions -/

/-- The same pipeline, perhaps with other permissions, another service account or for
another request. -/
structure Variant (base f : PipelineFactory) : Prop where
  id : f.id = base.id
  promiseName : f.promiseName = base.promiseName
  api : f.promise.spec.api = base.promise.spec.api
  pipelineName : f.pipeline.name = base.pipeline.name
  ns : f.ns = base.ns
  workflowType : f.workflowType = base.workflowType
  workflowAction : f.workflowAction = base.workflowAction
  crdPlural : f.crdPlural = base.crdPlural
  forResource : f.resourceRequest.isSome = base.resourceRequest.isSome

namespace Variant

theorem ownGrant_eq (h : Variant base f) : f.ownGrant = base.ownGrant := by
  have hrr := h.forResource
  unfold ownGrant defaultRules
  rw [h.api, h.crdPlural, h.id, h.ns]
  cases hf : f.resourceRequest <;> cases hb : base.resourceRequest <;> rw [hf, hb] at hrr
  · cases hrr
  · cases hrr
  · cases base.promise.spec.api <;> rfl

theorem userGrant_eq (h : Variant base f) (ns : String) :
    f.userGrant env ns = { base.userGrant env ns with rules := f.userRules ns } := by
  unfold userGrant
  rw [h.id, h.ns]
  split_ifs <;> rfl

theorem userPermissionPipelineLabels_eq (h : Variant base f) :
    f.userPermissionPipelineLabels = base.userPermissionPipelineLabels := by
  unfold userPermissionPipelineLabels
  rw [h.promiseName, h.pipelineName, h.ns, h.workflowType, h.workflowAction]

theorem generated (hf : Variant base f) (hg : Variant base g)
    (hpermissions : g.pipeline.permissions = f.pipeline.permissions)
    (haccount : g.account = f.account) {e : Option String} {o : AnyObject}
    (h : Generated env g e o) : Generated env f e o := by
  have hgrant : g.grantOf env e = f.grantOf env e := by
    cases e with
    | none => exact hg.ownGrant_eq.trans hf.ownGrant_eq.symm
    | some ns =>
      change g.userGrant env ns = f.userGrant env ns
      rw [hg.userGrant_eq, hf.userGrant_eq]
      unfold userRules
      rw [hpermissions]
  have hlabels := hg.userPermissionPipelineLabels_eq.trans hf.userPermissionPipelineLabels_eq.symm
  have hpromise := hg.promiseName.trans hf.promiseName.symm
  have hrole : g.roleOf env e = f.roleOf env e := by
    cases e with
    | none => exact congrArg₂ roleObject hgrant (by rw [hpromise])
    | some ns => exact congrArg₂ roleObject hgrant (by unfold userRoleLabels; rw [hlabels])
  have hbinding : g.bindingOf env e = f.bindingOf env e := by
    cases e with
    | none =>
      change bindingObject g.ownGrant _ g.account = bindingObject f.ownGrant _ f.account
      rw [haccount, hpromise]
      exact congrArg (bindingObject · _ _) hgrant
    | some ns =>
      change bindingObject (g.userGrant env ns) _ g.account =
        bindingObject (f.userGrant env ns) _ f.account
      have hgrant' : g.userGrant env ns = f.userGrant env ns := hgrant
      unfold userBindingLabels userRoleLabels
      rw [haccount, hlabels, hgrant']
  have hsources : g.sources = f.sources := by
    unfold sources permissionNamespaces
    rw [hpermissions]
  cases h with
  | role he hscope => exact hrole ▸ .role e (hsources ▸ he) (hgrant ▸ hscope)
  | clusterRole he hscope => exact hrole ▸ .clusterRole e (hsources ▸ he) (hgrant ▸ hscope)
  | roleBinding he hscope => exact hbinding ▸ .roleBinding e (hsources ▸ he) (hgrant ▸ hscope)
  | clusterRoleBinding he hscope =>
    exact hbinding ▸ .clusterRoleBinding e (hsources ▸ he) (hgrant ▸ hscope)

end Variant

/-! ### The objects of the pipeline -/

variable (base) in
/-- Finds the objects of the user's permissions. -/
def userSelector : Selector :=
  Selector.fromSet (userPermissionPipelineResourcesLegacyLabels base.promiseName
    base.pipeline.name base.ns "" "")

theorem Variant.userSelector_eq (h : Variant base f) : f.userSelector = base.userSelector := by
  unfold userSelector
  rw [h.promiseName, h.pipelineName, h.ns]

theorem selector_eq {isLast : Bool} {uuid : String} {res : PipelineJobResources}
    (hres : f.resourcesNamed env isLast uuid = .ok res) (h : Selects env f f) :
    Selector.fromSet (getPipelineResourcesLabels res) = f.userSelector := by
  rw [getPipelineResourcesLabels_eq hres, h.promiseName, h.workType, h.workAction]
  rfl

/-- A pipeline without labels of its own for these keys finds its objects. -/
theorem selects_self (env : Externals) (hname : f.pipeline.labels.lookup Label.promiseName = none)
    (htype : f.pipeline.labels.lookup Label.workType = none)
    (haction : f.pipeline.labels.lookup Label.workAction = none) : Selects env f f := by
  refine ⟨?_, Or.inr rfl, rfl, ?_, ?_⟩ <;>
    unfold jobLabel Labels.value pipelineJobLabels <;> rw [Labels.lookup_merge]
  · rw [hname, Option.none_or, lookup_promiseName, Option.getD_some]
  · rw [htype, Option.none_or, lookup_ownLabels]
    simp [Label.workType, Label.promiseName, Label.resourceHash, Label.resourceName,
      Label.managedBy, Label.workflowAction, Label.pipelineName, Label.workflowType]
  · rw [haction, Option.none_or, lookup_ownLabels]
    simp [Label.workAction, Label.promiseName, Label.resourceHash, Label.resourceName,
      Label.managedBy, Label.workflowAction, Label.pipelineName, Label.workflowType]

theorem Generated.selected_iff {e : Option String} {o : AnyObject} (h : Generated env f e o) :
    f.userSelector o.2.metadata.labels = true ↔ e ≠ none := by
  have hown : ¬ f.userSelector (promiseNameLabel f.promiseName) = true := by
    intro hselected
    have hns := (Selector.fromSet_iff.mp hselected) Label.pipelineNamespace f.ns
      ((lookup_legacyLabels ..).trans (if_pos rfl))
    simp [promiseNameLabel, Label.promiseName, Label.pipelineNamespace] at hns
  have huser : ∀ {labels : Labels}, IsUserLabels f labels → f.userSelector labels = true :=
    fun hlabels => (fromSet_legacyLabels_iff hlabels).mpr ⟨rfl, Or.inr rfl, rfl, rfl, rfl⟩
  cases h <;> cases e with
  | none => exact iff_of_false hown (fun h => h rfl)
  | some ns =>
    refine iff_of_true (huser ?_) (Option.some_ne_none ns)
    first
    | exact isUserLabels_role f ns
    | exact isUserLabels_binding f ns

theorem Generated.finalizers {e : Option String} {o : AnyObject} (h : Generated env f e o) :
    o.2.metadata.finalizers = [] := by
  cases h <;> cases e <;> rfl

/-! ### Names -/

variable (base) in
/-- The names that permissions for these namespaces need. -/
def namesFor (namespaces : Set String) : Set String :=
  {a | a = base.id ∨ a = base.id ++ "-" ++ base.ns ∨
    ∃ ns ∈ namespaces, ns ≠ "" ∧ a = base.id ++ "-" ++ nameSuffix ns}

/-- Generated names are different from each other and from that of the workflow's own
objects, and no namespace is confused with all of them. -/
structure NamesApart (env : Externals) (base : PipelineFactory) (namespaces : Set String) :
    Prop where
  injective : Set.InjOn (generateDeterministicObjectName env) (base.namesFor namespaces)
  ne_id : ∀ a ∈ base.namesFor namespaces, generateDeterministicObjectName env a ≠ base.id
  notAll : "kratix-all-namespaces" ∉ namespaces
  notLabel : userPermissionResourceNamespaceLabelAll ∉ namespaces

namespace NamesApart

variable {namespaces : Set String}

theorem distinguished (h : NamesApart env base namespaces) (hf : Variant base f)
    (hns : ∀ ns ∈ f.permissionNamespaces, ns ∈ namespaces) : Distinguished env f := by
  have hnames : ∀ a ∈ f.generatedNames, a ∈ base.namesFor namespaces := by
    intro a ha
    rw [generatedNames, hf.id, hf.ns] at ha
    rcases List.mem_cons.mp ha with rfl | ha
    · exact Or.inl rfl
    rcases List.mem_cons.mp ha with rfl | ha
    · exact Or.inr (Or.inl rfl)
    obtain ⟨ns, hmem, rfl⟩ := List.mem_map.mp ha
    obtain ⟨hmem, hne⟩ := mem_resourceNamespaces.mp hmem
    exact Or.inr (Or.inr ⟨ns, hns ns hmem, hne, rfl⟩)
  apply distinguished_of_injective
  · exact fun a ha b hb => h.injective (hnames a ha) (hnames b hb)
  · rw [hf.id]
    exact fun a ha => h.ne_id a (hnames a ha)
  · exact fun hlabel => h.notLabel (hns _ hlabel)
  · exact fun hall => h.notAll (hns _ hall.2)

theorem roleName_ne_id (h : NamesApart env base namespaces) {ns : String} (hns : ns ∈ namespaces) :
    (base.userGrant env ns).roleName ≠ base.id := by
  unfold userGrant
  by_cases hempty : ns = ""
  · rw [if_pos hempty]
    exact h.ne_id _ (Or.inl rfl)
  · rw [if_neg hempty]
    exact h.ne_id _ (Or.inr (Or.inr ⟨ns, hns, hempty, rfl⟩))

/-- The role that a binding refers to tells the namespace of the permissions. -/
theorem eq_of_role (h : NamesApart env base namespaces) {ns ns' : String} (hns : ns ∈ namespaces)
    (hns' : ns' ∈ namespaces)
    (hkind : (base.userGrant env ns).place.isClusterRole =
      (base.userGrant env ns').place.isClusterRole)
    (hname : (base.userGrant env ns).roleName = (base.userGrant env ns').roleName) : ns = ns' := by
  have hcluster : ∀ m, (base.userGrant env m).place.isClusterRole = true ↔ m ≠ "" := by
    intro m
    unfold userGrant
    split_ifs with hm hall <;> simp [Place.isClusterRole, hm]
  have hempty : ns = "" ↔ ns' = "" := by
    rw [← not_iff_not, ← ne_eq, ← ne_eq, ← hcluster, ← hcluster, hkind]
  by_cases hne : ns = ""
  · rw [hne, hempty.mp hne]
  · have hne' : ns' ≠ "" := fun h => hne (hempty.mpr h)
    have hgen := hname
    unfold userGrant at hgen
    rw [if_neg hne, if_neg hne'] at hgen
    have heq := h.injective (Or.inr (Or.inr ⟨ns, hns, hne, rfl⟩))
      (Or.inr (Or.inr ⟨ns', hns', hne', rfl⟩)) hgen
    have hsuffix := (String.append_right_inj _).mp heq
    unfold nameSuffix at hsuffix
    split_ifs at hsuffix with h₁ h₂ h₂
    · rw [h₁, h₂]
    · exact absurd (hsuffix ▸ hns') h.notAll
    · exact absurd (hsuffix ▸ hns) h.notAll
    · exact hsuffix

end NamesApart

/-! ### A call -/

/-- The pipeline is started with all calls served: its objects are valid and no
object of the same key is being deleted. Its Job has the labels of the objects. -/
structure Call (env : Externals) (base : PipelineFactory) (namespaces : Set String)
    (f : PipelineFactory) (s t : World) : Prop where
  variant : Variant base f
  namespaces : ∀ ns ∈ f.permissionNamespaces, ns ∈ namespaces
  selects : Selects env f f
  starts : ∃ (p : ParentKind) (opts : Opts p) (i : ℕ) (isLast : Bool) (uuid : String)
    (res : PipelineJobResources) (r : Result p), f.resourcesNamed env isLast uuid = .ok res ∧
      (∀ o ∈ res.applied, Acceptable o ∧ LiveAt s o.2) ∧ opts.Proceeds ∧
      Exec (faultFree env) (createConfigurePipeline opts i res) s r t ∧ r.err = none

theorem IsRbac.ne_parent (h : IsRbac k) (p : ParentKind) : Kind.parent p ≠ k := by
  rintro rfl
  exact h

theorem IsRbac.ne_serviceAccount (h : IsRbac k) : k ≠ .serviceAccount := by
  rintro rfl
  exact h

/-- What a call leaves: the generated objects and, under other keys, objects from
before, of which those of the pipeline match a generated one. -/
structure Leaves (env : Externals) (base f : PipelineFactory) (k : Kind) (s t : World) : Prop where
  mem : ∀ x ∈ t.cluster.objects k,
    (x ∈ s.cluster.objects k ∧ (∀ e o, Generated env f e ⟨k, o⟩ → o.key ≠ x.key) ∧
      (base.userSelector x.metadata.labels = true →
        ∃ e o, Generated env f e ⟨k, o⟩ ∧ alike k x o = true)) ∨
      ∃ e o, Generated env f e ⟨k, o⟩ ∧ WrittenAs o x ∧ x.metadata.deleting = false
  stored : ∀ e o, Generated env f e ⟨k, o⟩ → ∃ x ∈ t.cluster.objects k, x.key = o.key

theorem Call.leaves {namespaces : Set String} (h : Call env base namespaces f s t) (hk : IsRbac k)
    (hfin : ∀ x ∈ s.cluster.objects k, base.userSelector x.metadata.labels = true →
      x.metadata.finalizers = []) : Leaves env base f k s t := by
  obtain ⟨p, opts, i, isLast, uuid, res, r, hres, hok, hproceeds, he, herr⟩ := h.starts
  have hselector := (selector_eq hres h.selects).trans h.variant.userSelector_eq
  rcases exec_createConfigurePipeline_starts faulty_of_faultFree he with ⟨-, hstop⟩ | ⟨u, hstart⟩
  · exact absurd herr (hstop hproceeds)
  obtain ⟨objs, v, hobjs, hdel, happly⟩ := hstart.steps
  have hu : u.cluster.objects k = s.cluster.objects k := hstart.objects k (hk.ne_parent p)
  have hstale : ∀ x : scheme.Obj k, (⟨k, x⟩ : AnyObject) ∈ objs ↔ x ∈ s.cluster.objects k ∧
      base.userSelector x.metadata.labels = true ∧ matchesDesired res k x = false := by
    intro x
    rw [hobjs, Stale, Cluster.mem_listed, hselector]
    simp [and_assoc]
  have hremain := exec_deleteResources_remain hdel (k := k) fun o ho => by
    obtain ⟨hmem, hselected, -⟩ := (hstale o).mp ho
    exact ⟨hfin o hmem hselected, fun x hx => s.cluster.eq_of_key (hu ▸ hx) hmem⟩
  have hstores := exec_applyResources_stores hk.ne_serviceAccount
    (fun o ho _ => (hok o ho).1) (fun o ho x hx => (hok ⟨k, o⟩ ho).2 x (hu ▸ (hremain x hx).1))
    happly
  have hgenerated : ∀ o : scheme.Obj k, (⟨k, o⟩ : AnyObject) ∈ res.getObjects ++ [⟨.job, res.job⟩] ↔
      ∃ e, Generated env f e ⟨k, o⟩ := fun o => mem_applied_iff hres hk
  constructor
  · intro x hx
    rcases hstores.mem x hx with ⟨hv, hne⟩ | ⟨o, ho, hwritten⟩
    · obtain ⟨hmem, hnot⟩ := hremain x hv
      refine Or.inl ⟨hu ▸ hmem, fun e o ho => hne o ((hgenerated o).mpr ⟨e, ho⟩), ?_⟩
      intro hselected
      rw [← matchesDesired_iff hres hk, ← Bool.not_eq_false]
      exact fun hmatch => hnot ((hstale x).mpr ⟨hu ▸ hmem, hselected, hmatch⟩)
    · obtain ⟨e, he⟩ := (hgenerated o).mp ho
      exact Or.inr ⟨e, o, he, hwritten⟩
  · exact fun e o ho => hstores.stored o ((hgenerated o).mpr ⟨e, ho⟩)

/-! ### What calls have left -/

def IsBinding (k : Kind) : Prop := k = .roleBinding ∨ k = .clusterRoleBinding

/-- The objects of the pipeline come from its earlier calls. -/
structure Prior (env : Externals) (base : PipelineFactory) (namespaces : Set String) (s : World) :
    Prop where
  finalizers : ∀ k, IsRbac k → ∀ x ∈ s.cluster.objects k,
    base.userSelector x.metadata.labels = true → x.metadata.finalizers = []
  bindings : ∀ k, IsBinding k → ∀ x ∈ s.cluster.objects k,
    base.userSelector x.metadata.labels = true → ∃ f ns o, Variant base f ∧ ns ∈ namespaces ∧
      Generated env f (some ns) ⟨k, o⟩ ∧ WrittenAs o x

/-- The objects of the pipeline are those for its present permissions; besides them
there may be roles that look like one of these. -/
structure Current (env : Externals) (base f : PipelineFactory) (s : World) : Prop where
  finalizers : ∀ k, IsRbac k → ∀ x ∈ s.cluster.objects k,
    base.userSelector x.metadata.labels = true → x.metadata.finalizers = []
  alike : ∀ k, IsRbac k → ∀ x ∈ s.cluster.objects k,
    base.userSelector x.metadata.labels = true →
      ∃ e o, Generated env f e ⟨k, o⟩ ∧ alike k x o = true
  bindings : ∀ k, IsBinding k → ∀ x ∈ s.cluster.objects k,
    base.userSelector x.metadata.labels = true →
      ∃ ns o, Generated env f (some ns) ⟨k, o⟩ ∧ WrittenAs o x
  stored : ∀ ns (o : AnyObject), Generated env f (some ns) o → ∃ x, StoredAs s o.2 x

theorem Current.prior {namespaces : Set String} (h : Current env base f s) (hf : Variant base f)
    (hns : ∀ ns ∈ f.permissionNamespaces, ns ∈ namespaces) : Prior env base namespaces s := by
  refine ⟨h.finalizers, fun k hk x hx hselected => ?_⟩
  obtain ⟨ns, o, ho, hwritten⟩ := h.bindings k hk x hx hselected
  have hsource : some ns ∈ f.sources := by cases ho <;> assumption
  exact ⟨f, ns, o, hf, hns ns (some_mem_sources.mp hsource), ho, hwritten⟩

theorem bindingOf_spec (f : PipelineFactory) (e : Option String) :
    (f.bindingOf env e).spec.roleRef =
      ⟨if (f.grantOf env e).place.isClusterRole then "ClusterRole" else "Role",
        (f.grantOf env e).roleName⟩ := by
  cases e <;> rfl

/-- A binding from before that matches a generated one is overwritten by it. -/
theorem key_of_alike {namespaces : Set String} (hnames : NamesApart env base namespaces)
    (hk : IsBinding k) (hf : Variant base f) (hns : ∀ ns ∈ f.permissionNamespaces, ns ∈ namespaces)
    {e : Option String} {o : scheme.Obj k} (ho : Generated env f e ⟨k, o⟩) (hg : Variant base g)
    {ns : String} (hmem : ns ∈ namespaces) {o' : scheme.Obj k}
    (ho' : Generated env g (some ns) ⟨k, o'⟩) {x : scheme.Obj k} (hwritten : WrittenAs o' x)
    (halike : alike k x o = true) : o.key = x.key := by
  -- the case distinction on the kind gives the two bindings
  have hsame : ∀ {y : RoleBinding}, y.spec = (g.bindingOf env (some ns)).spec →
      roleBindingsMatch y (f.bindingOf env e) = true → e ∈ f.sources → e = some ns := by
    intro y hy hmatch he
    unfold roleBindingsMatch at hmatch
    have htext := beq_iff_eq.mp (Bool.and_eq_true_iff.mp hmatch).2
    rw [hy, bindingOf_spec, bindingOf_spec] at htext
    obtain ⟨hkind, hname⟩ := roleRef_text_inj htext
    have hgrant : g.grantOf env (some ns) = { base.userGrant env ns with rules := g.userRules ns } :=
      hg.userGrant_eq ns
    rw [hgrant] at hkind hname
    cases e with
    | none =>
      have hown : f.grantOf env none = base.ownGrant := hf.ownGrant_eq
      rw [hown] at hname
      exact absurd hname (hnames.roleName_ne_id hmem)
    | some m =>
      have hgrant' : f.grantOf env (some m) = { base.userGrant env m with rules := f.userRules m } :=
        hf.userGrant_eq m
      rw [hgrant'] at hkind hname
      rw [hnames.eq_of_role hmem (hns m (some_mem_sources.mp he)) hkind hname]
  have hkey : (f.bindingOf env (some ns)).key = (g.bindingOf env (some ns)).key := by
    change (bindingObject (f.userGrant env ns) _ _).key = (bindingObject (g.userGrant env ns) _ _).key
    rw [key_bindingObject, key_bindingObject, hf.userGrant_eq, hg.userGrant_eq]
  rcases hk with rfl | rfl
  · cases ho with
    | roleBinding he hscope =>
    cases ho' with
    | roleBinding he' hscope' =>
    obtain rfl := hsame hwritten.spec halike he
    exact hkey.trans hwritten.key.symm
  · cases ho with
    | clusterRoleBinding he hscope =>
    cases ho' with
    | clusterRoleBinding he' hscope' =>
    obtain rfl := hsame hwritten.spec halike he
    exact hkey.trans hwritten.key.symm

theorem IsBinding.isRbac (h : IsBinding k) : IsRbac k := by
  rcases h with rfl | rfl <;> trivial

theorem Generated.isRbac {e : Option String} {o : AnyObject} (h : Generated env f e o) :
    IsRbac o.1 := by
  cases h <;> trivial

theorem alike_of_written {o x : scheme.Obj k} (h : WrittenAs o x) : alike k x o = true := by
  have hspec := h.spec
  cases k with
  | role | clusterRole => exact beq_iff_eq.mpr (by rw [hspec])
  | roleBinding | clusterRoleBinding =>
    exact Bool.and_eq_true_iff.mpr ⟨beq_iff_eq.mpr (by rw [hspec]), beq_iff_eq.mpr (by rw [hspec])⟩
  | _ => rfl

/-- After a call the objects are those for its permissions. -/
theorem Call.current {namespaces : Set String} (hnames : NamesApart env base namespaces)
    (h : Call env base namespaces f s t) (hprior : Prior env base namespaces s) :
    Current env base f t := by
  have hleaves := fun {k : Kind} (hk : IsRbac k) => h.leaves hk (hprior.finalizers k hk)
  have hselected : ∀ {e : Option String} {o : AnyObject}, Generated env f e o →
      (base.userSelector o.2.metadata.labels = true ↔ e ≠ none) := fun ho => by
    rw [← h.variant.userSelector_eq, ho.selected_iff]
  constructor
  · intro k hk x hx hsel
    rcases (hleaves hk).mem x hx with ⟨hx, -, -⟩ | ⟨e, o, ho, hwritten, -⟩
    · exact hprior.finalizers k hk x hx hsel
    · exact hwritten.finalizers.trans ho.finalizers
  · intro k hk x hx hsel
    rcases (hleaves hk).mem x hx with ⟨-, -, hmatch⟩ | ⟨e, o, ho, hwritten, -⟩
    · exact hmatch hsel
    · exact ⟨e, o, ho, alike_of_written hwritten⟩
  · intro k hk x hx hsel
    rcases (hleaves hk.isRbac).mem x hx with ⟨hx, hne, hmatch⟩ | ⟨e, o, ho, hwritten, -⟩
    · obtain ⟨e, o, ho, halike⟩ := hmatch hsel
      obtain ⟨g, ns, o', hg, hns, ho', hwritten⟩ := hprior.bindings k hk x hx hsel
      exact absurd (key_of_alike hnames hk h.variant h.namespaces ho hg hns ho' hwritten halike)
        (hne e o ho)
    · have hsource : e ≠ none := (hselected ho).mp (hwritten.labels ▸ hsel)
      obtain ⟨ns, rfl⟩ := Option.ne_none_iff_exists'.mp hsource
      exact ⟨ns, o, ho, hwritten⟩
  · rintro ns ⟨k, o⟩ ho
    obtain ⟨x, hx, hkey⟩ := (hleaves ho.isRbac).stored _ o ho
    rcases (hleaves ho.isRbac).mem x hx with ⟨-, hne, -⟩ | ⟨e, o', ho', hwritten, hlive⟩
    · exact absurd hkey.symm (hne _ o ho)
    · have hsame := ho'.source_inj (hnames.distinguished h.variant h.namespaces) ho
        (hwritten.key.symm.trans hkey)
      subst hsame
      have heq : o' = o := ho'.eq_of_source ho
      exact ⟨x, hx, heq ▸ hwritten, hlive⟩

/-! ### The access that is left -/

/-- The roles of the cluster, and the bindings of the pipeline. -/
def userAccess (base : PipelineFactory) (s : World) : Objects PolicyRule Subject where
  role
    | (some ns, name) => (s.cluster.find .role (ns, name)).map Object.spec
    | (none, name) => (s.cluster.find .clusterRole ("", name)).map Object.spec
  binding
    | (some ns, name) => ((s.cluster.find .roleBinding (ns, name)).filter fun b =>
        base.userSelector b.metadata.labels).map fun b => b.spec.toBinding
    | (none, name) => ((s.cluster.find .clusterRoleBinding ("", name)).filter fun b =>
        base.userSelector b.metadata.labels).map fun b => b.spec.toBinding

theorem StoredAs.find {o x : scheme.Obj k} (h : StoredAs s o x) :
    s.cluster.find k o.key = some x :=
  s.cluster.find_eq_some.mpr ⟨h.mem, h.written.key⟩

theorem Current.role_eq (h : Current env base f s) {ns : String} (hns : ns ∈ f.permissionNamespaces) :
    (userAccess base s).role (f.userGrant env ns).roleKey = some (f.userGrant env ns).rules := by
  by_cases hempty : ns = ""
  · subst hempty
    obtain ⟨x, hx⟩ := h.stored "" _ (.role (some "") (some_mem_sources.mpr hns) rfl)
    have hfind := hx.find
    change (s.cluster.find .role (f.roleOf env (some "")).key).map Object.spec = _
    rw [hfind]
    exact congrArg some hx.written.spec
  · obtain ⟨x, hx⟩ := h.stored ns _ (.clusterRole (some ns) (some_mem_sources.mpr hns)
      (roleScope_userGrant hempty))
    have hfind := hx.find
    have hkey : (f.roleOf env (some ns)).key = ("", (f.userGrant env ns).roleName) := by
      change (roleObject (f.userGrant env ns) _).key = _
      rw [key_roleObject, roleScope_userGrant hempty]
      rfl
    unfold Grant.roleKey
    rw [roleScope_userGrant hempty]
    change (s.cluster.find .clusterRole ("", (f.userGrant env ns).roleName)).map Object.spec = _
    rw [← hkey, hfind]
    exact congrArg some hx.written.spec

theorem toBinding_of_written {ns : String} {x : RoleBinding}
    (h : WrittenAs (f.bindingOf env (some ns)) x) :
    x.spec.toBinding = (f.userGrant env ns).toBinding f.account := by
  rw [h.spec]
  exact toBinding_bindingObject _ _ _

theorem selected_of_written (hf : Variant base f) {ns : String} {o x : scheme.Obj k}
    (ho : Generated env f (some ns) ⟨k, o⟩) (h : WrittenAs o x) :
    base.userSelector x.metadata.labels = true := by
  rw [h.labels, ← hf.userSelector_eq]
  exact ho.selected_iff.mpr (Option.some_ne_none ns)

theorem key_bindingOf (f : PipelineFactory) (ns : String) : (f.bindingOf env (some ns)).key =
    ((f.userGrant env ns).place.scope.getD "", (f.userGrant env ns).bindingName) := rfl

theorem Current.binding_iff (h : Current env base f s) (hf : Variant base f) {key : Rbac.Key}
    {b : Binding Subject} : (userAccess base s).binding key = some b ↔
      ∃ g ∈ f.userGrants env, g.bindingKey = key ∧ g.toBinding f.account = b := by
  obtain ⟨_ | n, name⟩ := key
  · constructor
    · intro hb
      obtain ⟨x, hx, rfl⟩ := Option.map_eq_some_iff.mp hb
      obtain ⟨hfind, hsel⟩ := Option.filter_eq_some_iff.mp hx
      obtain ⟨hmem, hkey⟩ := s.cluster.find_eq_some.mp hfind
      obtain ⟨ns, o, ho, hwritten⟩ := h.bindings _ (Or.inr rfl) x hmem hsel
      cases ho with
      | clusterRoleBinding he hscope =>
      have hname : (f.userGrant env ns).bindingName = name :=
        congrArg Prod.snd (hwritten.key.symm.trans hkey)
      exact ⟨_, mem_userGrants.mpr ⟨ns, some_mem_sources.mp he, rfl⟩, Prod.ext hscope hname,
        (toBinding_of_written hwritten).symm⟩
    · rintro ⟨g, hg, hkey, rfl⟩
      obtain ⟨ns, hns, rfl⟩ := mem_userGrants.mp hg
      obtain ⟨hscope, rfl⟩ := Prod.mk.inj hkey
      have ho := Generated.clusterRoleBinding (some ns) (some_mem_sources.mpr hns) hscope
      obtain ⟨x, hx⟩ := h.stored ns _ ho
      have hfind := hx.find
      rw [key_bindingOf, hscope] at hfind
      exact Option.map_eq_some_iff.mpr ⟨x, Option.filter_eq_some_iff.mpr
        ⟨hfind, selected_of_written hf ho hx.written⟩, toBinding_of_written hx.written⟩
  · constructor
    · intro hb
      obtain ⟨x, hx, rfl⟩ := Option.map_eq_some_iff.mp hb
      obtain ⟨hfind, hsel⟩ := Option.filter_eq_some_iff.mp hx
      obtain ⟨hmem, hkey⟩ := s.cluster.find_eq_some.mp hfind
      obtain ⟨ns, o, ho, hwritten⟩ := h.bindings _ (Or.inl rfl) x hmem hsel
      cases ho with
      | roleBinding he hscope =>
      obtain ⟨m, hm⟩ : ∃ m, (f.userGrant env ns).place.scope = some m :=
        Option.isSome_iff_exists.mp hscope
      have hkey' := hwritten.key.symm.trans hkey
      rw [key_bindingOf, hm] at hkey'
      obtain ⟨rfl, hname⟩ := Prod.mk.inj hkey'
      exact ⟨_, mem_userGrants.mpr ⟨ns, some_mem_sources.mp he, rfl⟩, Prod.ext hm hname,
        (toBinding_of_written hwritten).symm⟩
    · rintro ⟨g, hg, hkey, rfl⟩
      obtain ⟨ns, hns, rfl⟩ := mem_userGrants.mp hg
      obtain ⟨hscope, rfl⟩ := Prod.mk.inj hkey
      have ho := Generated.roleBinding (some ns) (some_mem_sources.mpr hns)
        (Option.isSome_iff_exists.mpr ⟨n, hscope⟩)
      obtain ⟨x, hx⟩ := h.stored ns _ ho
      have hfind := hx.find
      rw [key_bindingOf, hscope] at hfind
      exact Option.map_eq_some_iff.mpr ⟨x, Option.filter_eq_some_iff.mpr
        ⟨hfind, selected_of_written hf ho hx.written⟩, toBinding_of_written hx.written⟩

theorem Current.gives (h : Current env base f s) (hf : Variant base f) :
    Gives (userAccess base s) (f.userGrants env) f.account where
  role := by
    intro g hg
    obtain ⟨ns, hns, rfl⟩ := mem_userGrants.mp hg
    exact h.role_eq hns
  binding := fun _ _ => h.binding_iff hf

/-! ### Runs -/

/-- Other activity leaves the objects of the pipeline alone. -/
def Elsewhere (base : PipelineFactory) (s t : World) : Prop :=
  ∀ k, IsRbac k → ∀ x : scheme.Obj k, base.userSelector x.metadata.labels = true →
    (x ∈ t.cluster.objects k ↔ x ∈ s.cluster.objects k)

/-- The objects of the pipeline are left by calls, the last one for this variant. -/
inductive History (env : Externals) (base : PipelineFactory) (namespaces : Set String) :
    PipelineFactory → World → Prop
  | first {f : PipelineFactory} {s t : World}
      (hs : ∀ k, IsRbac k → ∀ x ∈ s.cluster.objects k, ¬ base.userSelector x.metadata.labels = true)
      (hcall : Call env base namespaces f s t) : History env base namespaces f t
  | next {f g : PipelineFactory} {s t : World} (h : History env base namespaces f s)
      (hcall : Call env base namespaces g s t) : History env base namespaces g t
  | other {f : PipelineFactory} {s t : World} (h : History env base namespaces f s)
      (hother : Elsewhere base s t) : History env base namespaces f t

theorem Current.elsewhere (h : Current env base f s) (hf : Variant base f)
    (hother : Elsewhere base s t) : Current env base f t where
  finalizers := fun k hk x hx hsel => h.finalizers k hk x ((hother k hk x hsel).mp hx) hsel
  alike := fun k hk x hx hsel => h.alike k hk x ((hother k hk x hsel).mp hx) hsel
  bindings := fun k hk x hx hsel => h.bindings k hk x ((hother k hk.isRbac x hsel).mp hx) hsel
  stored := by
    rintro ns ⟨k, o⟩ ho
    obtain ⟨x, hx⟩ := h.stored ns _ ho
    have hsel := selected_of_written hf ho hx.written
    exact ⟨x, (hother k ho.isRbac x hsel).mpr hx.mem, hx.written, hx.live⟩

/-- After every call the objects are those for its permissions. -/
theorem History.current {namespaces : Set String} (hnames : NamesApart env base namespaces)
    (h : History env base namespaces f s) :
    Variant base f ∧ (∀ ns ∈ f.permissionNamespaces, ns ∈ namespaces) ∧ Current env base f s := by
  induction h with
  | first hs hcall =>
    have hprior : Prior env base namespaces _ :=
      ⟨fun k hk x hx hsel => absurd hsel (hs k hk x hx),
        fun k hk x hx hsel => absurd hsel (hs k hk.isRbac x hx)⟩
    exact ⟨hcall.variant, hcall.namespaces, hcall.current hnames hprior⟩
  | next _ hcall ih =>
    obtain ⟨hf, hns, hcurrent⟩ := ih
    exact ⟨hcall.variant, hcall.namespaces, hcall.current hnames (hcurrent.prior hf hns)⟩
  | other _ hother ih =>
    obtain ⟨hf, hns, hcurrent⟩ := ih
    exact ⟨hf, hns, hcurrent.elsewhere hf hother⟩

/-- If neither the permissions nor the account change, nothing is deleted. -/
theorem Call.kept {namespaces : Set String} (h : Call env base namespaces g s t)
    (hf : Variant base f) (hcurrent : Current env base f s)
    (hpermissions : g.pipeline.permissions = f.pipeline.permissions)
    (haccount : g.account = f.account) (hk : IsRbac k) {o : scheme.Obj k}
    (ho : o ∈ s.cluster.objects k) (hlive : o.metadata.deleting = false) : Kept o t := by
  obtain ⟨p, opts, i, isLast, uuid, res, r, hres, -, hproceeds, he, herr⟩ := h.starts
  rcases exec_createConfigurePipeline_starts faulty_of_faultFree he with ⟨-, hstop⟩ | ⟨u, hstart⟩
  · exact absurd herr (hstop hproceeds)
  have hstale : ¬ Stale res s ⟨k, o⟩ := by
    rintro ⟨hlisted, hmatch⟩
    obtain ⟨-, -, hselected⟩ := Cluster.mem_listed.mp hlisted
    rw [selector_eq hres h.selects, h.variant.userSelector_eq] at hselected
    obtain ⟨e, o', ho', halike⟩ := hcurrent.alike k hk o ho hselected
    have hg := h.variant.generated hf hpermissions.symm haccount.symm ho'
    have hmatch' := (matchesDesired_iff hres hk).mpr ⟨e, o', hg, halike⟩
    cases hmatch.symm.trans hmatch'
  obtain ⟨x, hx, hsucc⟩ := hstart.outlives faulty_of_faultFree (hk.ne_parent p) ho hlive hstale
  exact ⟨x, hx, hsucc.key, hsucc.created⟩

/-! ### The main statement -/

/-- A configure pipeline with these labels, permissions and service account. -/
def labelled (labels : Labels) (permissions : List Permission) (account : String) :
    PipelineFactory :=
  { provisioner "run" .configure getSecrets "new" with
    pipeline := {
      name := "run"
      labels := labels
      permissions := permissions
      serviceAccount := account } }

/-- The grant for the other namespace, with this account. -/
def secretsGrant : Grant PolicyRule :=
  (labelled ∅ [⟨"team-a", getSecrets⟩] "").userGrant plainExternals "team-a"

theorem exists_labelled (labels : Labels) (permissions : List Permission) (account uuid : String) :
    ∃ res, (labelled labels permissions account).resourcesNamed plainExternals true uuid = .ok res :=
  exists_resources_iff.mpr fun _ => rfl

set_option maxRecDepth 4096 in
/-- If the pipeline has a label for another Promise's name, its objects are not found,
and the account keeps the access of a removed permission. -/
theorem removed_permission_stays :
    ∃ labels first second r r' s t,
      (labelled labels [⟨"team-a", getSecrets⟩] "").resourcesNamed plainExternals true "u" =
        .ok first ∧
      (labelled labels [] "").resourcesNamed plainExternals true "v" = .ok second ∧
      Exec (faultFree plainExternals) (createConfigurePipeline (provisionerOpts "new") 0 first)
        emptyWorld r s ∧ r.err = none ∧
      Exec (faultFree plainExternals) (createConfigurePipeline (provisionerOpts "new") 0 second)
        s r' t ∧ r'.err = none ∧
      (userAccess (labelled labels [] "") t).Allowed (labelled labels [] "").account "team-a"
        getSecrets ∧
      ¬ (labelled labels [] "").Requested "team-a" getSecrets := by
  obtain ⟨first, hfirst⟩ := exists_labelled (Labels.ofList [(Label.promiseName, "other")])
    [⟨"team-a", getSecrets⟩] "" "u"
  obtain ⟨second, hsecond⟩ := exists_labelled (Labels.ofList [(Label.promiseName, "other")])
    [] "" "v"
  have heval : (eval (serveCall plainExternals)
      (createConfigurePipeline (provisionerOpts "new") 0 first) emptyWorld).any (fun out =>
        out.1.err.isNone && (eval (serveCall plainExternals)
          (createConfigurePipeline (provisionerOpts "new") 0 second) out.2).any fun next =>
            next.1.err.isNone &&
              decide ((userAccess (labelled ∅ [] "") next.2).binding secretsGrant.bindingKey =
                some (secretsGrant.toBinding (labelled ∅ [] "").account)) &&
              decide ((userAccess (labelled ∅ [] "") next.2).role secretsGrant.roleKey =
                some [getSecrets])) = true := by
    cases hfirst
    cases hsecond
    decide +kernel
  obtain ⟨r, s, he, hr⟩ :=
    exists_exec_of_eval (h := faultFree plainExternals) faultFree_of_serveCall heval
  obtain ⟨herr, heval⟩ := Bool.and_eq_true_iff.mp hr
  obtain ⟨r', t, he', hr'⟩ :=
    exists_exec_of_eval (h := faultFree plainExternals) faultFree_of_serveCall heval
  obtain ⟨hr', hrole⟩ := Bool.and_eq_true_iff.mp hr'
  obtain ⟨herr', hbinding⟩ := Bool.and_eq_true_iff.mp hr'
  refine ⟨_, first, second, r, r', s, t, hfirst, hsecond, he, Option.isNone_iff_eq_none.mp herr, he',
    Option.isNone_iff_eq_none.mp herr', ?_, fun ⟨_, hperm, _⟩ => by cases hperm⟩
  exact ⟨some "team-a", secretsGrant.bindingName, _, secretsGrant.roleKey, [getSecrets],
    of_decide_eq_true hbinding, Or.inr rfl, List.mem_singleton_self _, rfl,
    of_decide_eq_true hrole, List.mem_singleton_self _⟩

/-- Whatever the permissions and accounts were before, the account of the last call
has through the objects of the pipeline the access that its permissions ask for, and
every other account has none. If nothing has changed, nothing is deleted. -/
theorem access_follows_permissions (env : Externals) (base : PipelineFactory)
    {namespaces : Set String} (hnames : NamesApart env base namespaces)
    {old new : PipelineFactory} {s t : World} (hold : History env base namespaces old s)
    (hnew : Call env base namespaces new s t) :
    (∀ ns rule, (userAccess base t).Allowed new.account ns rule ↔ new.Requested ns rule) ∧
      (∀ who, who ≠ new.account → ∀ ns rule, ¬ (userAccess base t).Allowed who ns rule) ∧
      (new.pipeline.permissions = old.pipeline.permissions → new.account = old.account →
        ∀ k, IsRbac k → ∀ o ∈ s.cluster.objects k, o.metadata.deleting = false → Kept o t) := by
  obtain ⟨hvariant, hns, hcurrent⟩ := hold.current hnames
  have hgives := (hnew.current hnames (hcurrent.prior hvariant hns)).gives hnew.variant
  have hlabel : userPermissionResourceNamespaceLabelAll ∉ new.permissionNamespaces :=
    fun h => hnames.notLabel (hnew.namespaces _ h)
  refine ⟨fun ns rule => ?_, fun who hwho ns rule hallowed => ?_, ?_⟩
  · rw [hgives.allowed_iff, covered_iff_requested hlabel]
    exact and_iff_right rfl
  · exact hwho (hgives.allowed_iff.mp hallowed).1
  · intro hpermissions haccount k hk o ho hlive
    exact hnew.kept hvariant hcurrent hpermissions haccount hk ho hlive

theorem namesApart_labelled : NamesApart plainExternals (labelled ∅ [] "") {"", "team-a"} := by
  have hnames : ∀ a ∈ (labelled ∅ [] "").namesFor {"", "team-a"},
      a ∈ (labelled ∅ [⟨"team-a", getSecrets⟩] "").generatedNames := by
    rintro a (rfl | rfl | ⟨ns, rfl | rfl, hne, rfl⟩)
    · decide
    · decide
    · exact absurd rfl hne
    · decide
  have hinj : ∀ a ∈ (labelled ∅ [⟨"team-a", getSecrets⟩] "").generatedNames,
      ∀ b ∈ (labelled ∅ [⟨"team-a", getSecrets⟩] "").generatedNames,
        generateDeterministicObjectName plainExternals a =
          generateDeterministicObjectName plainExternals b → a = b := by
    decide +kernel
  have hid : ∀ a ∈ (labelled ∅ [⟨"team-a", getSecrets⟩] "").generatedNames,
      generateDeterministicObjectName plainExternals a ≠ (labelled ∅ [] "").id := by
    decide +kernel
  exact ⟨fun a ha b hb => hinj a (hnames a ha) b (hnames b hb), fun a ha => hid a (hnames a ha),
    by decide, by decide⟩

theorem call_labelled {permissions : List Permission} {account uuid : String}
    (hns : ∀ perm ∈ permissions, perm.resourceNamespace ∈ ["", "team-a"])
    {res : PipelineJobResources}
    (hres : (labelled ∅ permissions account).resourcesNamed plainExternals true uuid = .ok res)
    {s t : World} (hok : (res.applied.all fun o => decide (Acceptable o ∧ LiveAt s o.2)) = true)
    {r : Result (.resource "redis")}
    (he : Exec (faultFree plainExternals) (createConfigurePipeline (provisionerOpts "new") 0 res)
      s r t) (herr : r.err = none) :
    Call plainExternals (labelled ∅ [] "") {"", "team-a"} (labelled ∅ permissions account) s t where
  variant := ⟨rfl, rfl, rfl, rfl, rfl, rfl, rfl, rfl, rfl⟩
  namespaces := by
    intro ns hmem
    obtain ⟨perm, hperm, rfl⟩ := List.mem_map.mp hmem
    simpa using hns perm hperm
  selects := selects_self plainExternals rfl rfl rfl
  starts := by
    refine ⟨_, provisionerOpts "new", 0, true, uuid, res, r, hres, fun o ho => ?_, Or.inr rfl, he, herr⟩
    exact of_decide_eq_true (List.all_eq_true.mp hok o ho)

/-- A permission for another namespace is replaced by one for the namespace of the
pipeline, with another account. -/
theorem access_follows_permissions_sample :
    ∃ s t, History plainExternals (labelled ∅ [] "") {"", "team-a"}
        (labelled ∅ [⟨"team-a", getSecrets⟩] "first") s ∧
      Call plainExternals (labelled ∅ [] "") {"", "team-a"}
        (labelled ∅ [⟨"", listPods⟩] "second") s t ∧
      (userAccess (labelled ∅ [] "") t).Allowed ⟨"second", "default"⟩ "default" listPods ∧
      ¬ (userAccess (labelled ∅ [] "") t).Allowed ⟨"first", "default"⟩ "team-a" getSecrets := by
  obtain ⟨first, hfirst⟩ := exists_labelled ∅ [⟨"team-a", getSecrets⟩] "first" "u"
  obtain ⟨second, hsecond⟩ := exists_labelled ∅ [⟨"", listPods⟩] "second" "v"
  have heval : (eval (serveCall plainExternals)
      (createConfigurePipeline (provisionerOpts "new") 0 first) emptyWorld).any (fun out =>
        out.1.err.isNone &&
          (first.applied.all fun o => decide (Acceptable o ∧ LiveAt emptyWorld o.2)) &&
          (second.applied.all fun o => decide (Acceptable o ∧ LiveAt out.2 o.2)) &&
          (eval (serveCall plainExternals)
            (createConfigurePipeline (provisionerOpts "new") 0 second) out.2).any fun next =>
              next.1.err.isNone) = true := by
    cases hfirst
    cases hsecond
    decide +kernel
  obtain ⟨r, s, he, hr⟩ :=
    exists_exec_of_eval (h := faultFree plainExternals) faultFree_of_serveCall heval
  simp only [Bool.and_eq_true] at hr
  obtain ⟨⟨⟨herr, hok⟩, hok'⟩, heval⟩ := hr
  obtain ⟨r', t, he', herr'⟩ :=
    exists_exec_of_eval (h := faultFree plainExternals) faultFree_of_serveCall heval
  have hcall := call_labelled (by decide) hfirst hok he (Option.isNone_iff_eq_none.mp herr)
  have hcall' := call_labelled (by decide) hsecond hok' he' (Option.isNone_iff_eq_none.mp herr')
  have hhistory : History plainExternals (labelled ∅ [] "") {"", "team-a"} _ s :=
    .first (fun k _ x hx => absurd hx List.not_mem_nil) hcall
  obtain ⟨hexact, hothers, -⟩ :=
    access_follows_permissions plainExternals _ namesApart_labelled hhistory hcall'
  refine ⟨s, t, hhistory, hcall', (hexact "default" listPods).mpr ?_, hothers _ (by decide) _ _⟩
  exact ⟨⟨"", listPods⟩, List.mem_singleton_self _, rfl, Or.inl ⟨rfl, rfl⟩⟩

end PipelineFactory

end Kratix
