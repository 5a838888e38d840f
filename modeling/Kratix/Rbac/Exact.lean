import Kratix.Rbac.Grants

/-!
# When a pipeline has exactly the access it asks for
-/

namespace Kratix

open Apiserver Rbac

/-- A permission of a pipeline in this namespace holds in `ns`. -/
def Permission.HoldsIn (perm : Permission) (jobNamespace ns : String) : Prop :=
  (perm.resourceNamespace = "" ∧ ns = jobNamespace) ∨ perm.resourceNamespace = "*" ∨
    (perm.resourceNamespace ≠ "" ∧ perm.resourceNamespace ≠ "*" ∧ ns = perm.resourceNamespace)

namespace PipelineFactory

variable (env : Externals) (p : PipelineFactory)

/-- The rules of a resource workflow hold in its namespace, those of a Promise
workflow everywhere. -/
def Intended (ns : String) (rule : PolicyRule) : Prop :=
  (rule ∈ p.defaultRules ∧ (p.resourceRequest.isSome → ns = p.ns)) ∨
    ∃ perm ∈ p.pipeline.permissions, perm.rule = rule ∧ perm.HoldsIn p.ns ns

/-- The user's permissions ask for this. -/
def Requested (ns : String) (rule : PolicyRule) : Prop :=
  ∃ perm ∈ p.pipeline.permissions, perm.rule = rule ∧ perm.HoldsIn p.ns ns

/-- The service account may do what is intended and nothing else. -/
def Exact (o : Objects PolicyRule Subject) : Prop :=
  ∀ ns rule, o.Allowed p.account ns rule ↔ p.Intended ns rule

def withPermissions (permissions : List Permission) : PipelineFactory :=
  { p with pipeline := { p.pipeline with permissions := permissions } }

/-! ### Where grants come from -/

/-- The grant of the workflow, or of a namespace of the permissions. -/
def grantOf : Option String → Grant PolicyRule
  | none => p.ownGrant
  | some ns => p.userGrant env ns

def sources : Set (Option String) := {e | ∀ ns ∈ e, ns ∈ p.permissionNamespaces}

/-- The generated objects of each kind have different keys, and no permission names
the namespace that means all namespaces in a label. -/
structure Distinguished : Prop where
  roles : Set.InjOn (fun e => (p.grantOf env e).roleKey) p.sources
  bindings : Set.InjOn (fun e => (p.grantOf env e).bindingKey) p.sources
  label : userPermissionResourceNamespaceLabelAll ∉ p.permissionNamespaces

variable {env p}

theorem mem_grants_iff {g : Grant PolicyRule} :
    g ∈ p.grants env ↔ ∃ e ∈ p.sources, g = p.grantOf env e := by
  rw [mem_grants]
  constructor
  · rintro (rfl | ⟨ns, hns, rfl⟩)
    · exact ⟨none, fun _ h => (by cases h), rfl⟩
    · exact ⟨some ns, fun _ h => (by cases h; exact hns), rfl⟩
  · rintro ⟨_ | ns, he, rfl⟩
    · exact Or.inl rfl
    · exact Or.inr ⟨ns, he ns rfl, rfl⟩

theorem Distinguished.apart (h : Distinguished env p) : Apart (p.grants env) := by
  constructor
  · intro g hg g' hg' hkey
    obtain ⟨e, he, rfl⟩ := mem_grants_iff.mp hg
    obtain ⟨e', he', rfl⟩ := mem_grants_iff.mp hg'
    rw [h.roles he he' hkey]
  · intro g hg g' hg' hkey
    obtain ⟨e, he, rfl⟩ := mem_grants_iff.mp hg
    obtain ⟨e', he', rfl⟩ := mem_grants_iff.mp hg'
    rw [h.bindings he he' hkey]

theorem rules_userGrant (ns : String) : (p.userGrant env ns).rules = p.userRules ns := by
  unfold userGrant
  split_ifs <;> rfl

theorem covers_userGrant {resourceNamespace : String}
    (hlabel : resourceNamespace ≠ userPermissionResourceNamespaceLabelAll) {ns : String}
    {rule : PolicyRule} :
    (p.userGrant env resourceNamespace).place.Covers ns ↔
      Permission.HoldsIn ⟨resourceNamespace, rule⟩ p.ns ns := by
  unfold Place.Covers Permission.HoldsIn userGrant
  by_cases hempty : resourceNamespace = ""
  · rw [if_pos hempty]
    simp only [Place.scope, hempty, Option.some.injEq, reduceCtorEq, ne_eq, not_true, false_and,
      or_false, false_or, true_and]
    simpa using eq_comm
  · by_cases hstar : resourceNamespace = "*"
    · simp [hstar, isForAll, Place.scope]
    · simp [hempty, hstar, hlabel, isForAll, Place.scope, @eq_comm _ ns]

theorem mem_userGrants {g : Grant PolicyRule} :
    g ∈ p.userGrants env ↔ ∃ ns ∈ p.permissionNamespaces, g = p.userGrant env ns := by
  simp [userGrants, permissionNamespaces, eq_comm]

/-- Without the special namespace the user's grants are for what is requested. -/
theorem covered_iff_requested
    (hlabel : userPermissionResourceNamespaceLabelAll ∉ p.permissionNamespaces) {ns : String}
    {rule : PolicyRule} :
    (∃ g ∈ p.userGrants env, g.place.Covers ns ∧ rule ∈ g.rules) ↔ p.Requested ns rule := by
  constructor
  · rintro ⟨g, hg, hcovers, hrule⟩
    obtain ⟨m, hm, rfl⟩ := mem_userGrants.mp hg
    rw [rules_userGrant, mem_userRules] at hrule
    refine ⟨_, hrule, rfl, (covers_userGrant ?_).mp hcovers⟩
    rintro rfl
    exact hlabel hm
  · rintro ⟨⟨m, _⟩, hperm, rfl, hholds⟩
    have hm : m ∈ p.permissionNamespaces := List.mem_map.mpr ⟨_, hperm, rfl⟩
    refine ⟨_, mem_userGrants.mpr ⟨m, hm, rfl⟩, (covers_userGrant ?_).mpr hholds, ?_⟩
    · rintro rfl
      exact hlabel hm
    · rw [rules_userGrant, mem_userRules]
      exact hperm

theorem covered_iff_intended
    (hlabel : userPermissionResourceNamespaceLabelAll ∉ p.permissionNamespaces) {ns : String}
    {rule : PolicyRule} :
    (∃ g ∈ p.grants env, g.place.Covers ns ∧ rule ∈ g.rules) ↔ p.Intended ns rule := by
  have hown : p.ownGrant.place.Covers ns ↔ (p.resourceRequest.isSome → ns = p.ns) := by
    unfold Place.Covers
    rw [scope_ownGrant]
    cases p.resourceRequest.isSome <;> simp [@eq_comm _ ns]
  constructor
  · rintro ⟨g, hg, hcovers, hrule⟩
    rcases List.mem_cons.mp hg with rfl | hg
    · exact Or.inl ⟨hrule, hown.mp hcovers⟩
    · exact Or.inr ((covered_iff_requested hlabel).mp ⟨g, hg, hcovers, hrule⟩)
  · rintro (⟨hrule, hns⟩ | hrequested)
    · exact ⟨_, List.mem_cons_self, hown.mpr hns, hrule⟩
    · obtain ⟨g, hg, hcovers, hrule⟩ := (covered_iff_requested hlabel).mpr hrequested
      exact ⟨g, List.mem_cons_of_mem _ hg, hcovers, hrule⟩

theorem Distinguished.exact (h : Distinguished env p) {isLast : Bool} {uuid : String}
    {res : PipelineJobResources} (hres : p.resourcesNamed env isLast uuid = .ok res)
    {o : Objects PolicyRule Subject} (ho : Applied res.shared o) : p.Exact o := by
  intro ns rule
  rw [(holds_of_applied hres ho).allowed_iff_of_apart h.apart, covered_iff_intended h.label]

/-! ### Permissions with other rules -/

theorem keys_withPermissions (permissions : List Permission) (e : Option String) :
    ((p.withPermissions permissions).grantOf env e).roleKey = (p.grantOf env e).roleKey ∧
      ((p.withPermissions permissions).grantOf env e).bindingKey =
        (p.grantOf env e).bindingKey := by
  cases e with
  | none => exact ⟨rfl, rfl⟩
  | some ns =>
    change ((p.withPermissions permissions).userGrant env ns).roleKey = _ ∧
      ((p.withPermissions permissions).userGrant env ns).bindingKey = _
    unfold grantOf userGrant
    by_cases hempty : ns = ""
    · simp only [if_pos hempty]
      exact ⟨rfl, rfl⟩
    · simp only [if_neg hempty]
      exact ⟨rfl, rfl⟩

theorem distinguished_withPermissions {permissions : List Permission}
    (h : permissions.map Permission.resourceNamespace = p.permissionNamespaces) :
    Distinguished env (p.withPermissions permissions) ↔ Distinguished env p := by
  have hns : (p.withPermissions permissions).permissionNamespaces = p.permissionNamespaces := h
  have hsources : (p.withPermissions permissions).sources = p.sources := by
    unfold sources
    rw [hns]
  constructor
  · rintro ⟨hroles, hbindings, hlabel⟩
    simp only [keys_withPermissions, hsources, hns] at hroles hbindings hlabel
    exact ⟨hroles, hbindings, hlabel⟩
  · rintro ⟨hroles, hbindings, hlabel⟩
    constructor <;> simpa only [keys_withPermissions, hsources, hns]

/-! ### Rules that tell the namespaces apart -/

/-- A rule that no other namespace has and no workflow has by default. -/
def markerRule (ns : String) : PolicyRule := { apiGroups := [], resources := [ns], verbs := [] }

variable (p) in
/-- Permissions for the same namespaces with such rules. -/
def marked : PipelineFactory :=
  p.withPermissions (p.permissionNamespaces.map fun ns => ⟨ns, markerRule ns⟩)

theorem permissionNamespaces_marked : p.marked.permissionNamespaces = p.permissionNamespaces := by
  simp [permissionNamespaces, marked, withPermissions, Function.comp_def]

theorem mem_userRules_marked {ns : String} {rule : PolicyRule} :
    rule ∈ p.marked.userRules ns ↔ ns ∈ p.permissionNamespaces ∧ rule = markerRule ns := by
  rw [mem_userRules]
  simp only [marked, withPermissions, List.mem_map, Permission.mk.injEq]
  constructor
  · rintro ⟨m, hm, rfl, rfl⟩
    exact ⟨hm, rfl⟩
  · rintro ⟨hns, rfl⟩
    exact ⟨ns, hns, rfl, rfl⟩

theorem markerRule_notMem_defaultRules (ns : String) : markerRule ns ∉ p.defaultRules := by
  unfold defaultRules markerRule
  split <;> simp

theorem defaultRules_ne_nil {roles : List Role} (h : p.role env = .ok roles) :
    p.defaultRules ≠ [] := by
  unfold role at h
  unfold defaultRules
  cases hrr : p.resourceRequest with
  | none => simp
  | some rr =>
    cases hapi : p.promise.spec.api with
    | none =>
      rw [hrr, hapi] at h
      cases h
    | some crd => simp

/-- With these rules the sources of a rule are told apart. -/
theorem source_unique {e e' : Option String} {rule : PolicyRule}
    (h : rule ∈ (p.marked.grantOf env e).rules) (h' : rule ∈ (p.marked.grantOf env e').rules) :
    e = e' := by
  cases e with
  | none =>
    cases e' with
    | none => rfl
    | some ns =>
      change rule ∈ (p.marked.userGrant env ns).rules at h'
      rw [rules_userGrant, mem_userRules_marked] at h'
      rw [h'.2] at h
      exact absurd h (markerRule_notMem_defaultRules ns)
  | some ns =>
    change rule ∈ (p.marked.userGrant env ns).rules at h
    rw [rules_userGrant, mem_userRules_marked] at h
    cases e' with
    | none =>
      rw [h.2] at h'
      exact absurd h' (markerRule_notMem_defaultRules ns)
    | some ns' =>
      change rule ∈ (p.marked.userGrant env ns').rules at h'
      rw [rules_userGrant, mem_userRules_marked] at h'
      have hrule := h.2.symm.trans h'.2
      simp only [markerRule, PolicyRule.mk.injEq, List.cons.injEq, and_true, true_and] at hrule
      rw [hrule]

/-- If access is exact with these rules, the objects have different keys. -/
theorem Exact.distinguished {o : Objects PolicyRule Subject} {isLast : Bool} {uuid : String}
    {res : PipelineJobResources} (hres : p.marked.resourcesNamed env isLast uuid = .ok res)
    (ho : Applied res.shared o) (hexact : p.marked.Exact o) : Distinguished env p.marked := by
  have hholds := holds_of_applied hres ho
  have hnamespaces : ∀ e ∈ p.marked.sources, ∀ ns ∈ e, ns ∈ p.permissionNamespaces :=
    fun e he ns hns => permissionNamespaces_marked ▸ he ns hns
  -- every source has a rule, and it is intended somewhere
  have hrule : ∀ e ∈ p.marked.sources, ∃ rule ∈ (p.marked.grantOf env e).rules, ∃ ns,
      p.marked.Intended ns rule := by
    rintro (_ | ns) he
    · obtain ⟨rule, hrule⟩ := List.exists_mem_of_ne_nil _
        (defaultRules_ne_nil (resourcesNamed_ok hres).1)
      exact ⟨rule, hrule, p.ns, Or.inl ⟨hrule, fun _ => rfl⟩⟩
    · have hns := hnamespaces _ he ns rfl
      refine ⟨markerRule ns, ?_, if ns = "" then p.ns else ns, Or.inr ⟨⟨ns, markerRule ns⟩,
        List.mem_map.mpr ⟨ns, hns, rfl⟩, rfl, ?_⟩⟩
      · change markerRule ns ∈ (p.marked.userGrant env ns).rules
        rw [rules_userGrant, mem_userRules_marked]
        exact ⟨hns, rfl⟩
      · unfold Permission.HoldsIn
        by_cases hempty : ns = ""
        · exact Or.inl ⟨hempty, by rw [if_pos hempty]; rfl⟩
        · by_cases hstar : ns = "*"
          · exact Or.inr (Or.inl hstar)
          · exact Or.inr (Or.inr ⟨hempty, hstar, by rw [if_neg hempty]⟩)
  have happart : Apart (p.marked.grants env) := by
    refine hholds.apart (fun g hg g' hg' rule hr hr' => ?_) fun g hg => ?_
    · obtain ⟨e, -, rfl⟩ := mem_grants_iff.mp hg
      obtain ⟨e', -, rfl⟩ := mem_grants_iff.mp hg'
      rw [source_unique hr hr']
    · obtain ⟨e, he, rfl⟩ := mem_grants_iff.mp hg
      obtain ⟨rule, hmem, ns, hintended⟩ := hrule e he
      exact ⟨rule, hmem, ns, (hexact ns rule).mpr hintended⟩
  have hinj : ∀ {key : Grant PolicyRule → Key}, Set.InjOn key {g | g ∈ p.marked.grants env} →
      Set.InjOn (fun e => key (p.marked.grantOf env e)) p.marked.sources := by
    intro key hkey e he e' he' heq
    obtain ⟨rule, hr, -⟩ := hrule e he
    have hgrants := hkey (mem_grants_iff.mpr ⟨e, he, rfl⟩) (mem_grants_iff.mpr ⟨e', he', rfl⟩) heq
    exact source_unique hr (hgrants ▸ hr)
  refine ⟨hinj happart.roles, hinj happart.bindings, fun hlabel => ?_⟩
  -- the permissions for the special namespace hold in every namespace
  have hallowed : o.Allowed p.marked.account ""
      (markerRule userPermissionResourceNamespaceLabelAll) := by
    refine (hholds.allowed_iff_of_apart happart).mpr ⟨p.marked.userGrant env _,
      mem_grants.mpr (Or.inr ⟨_, hlabel, rfl⟩), Or.inl (scope_userGrant.mpr rfl), ?_⟩
    rw [rules_userGrant, mem_userRules_marked]
    exact ⟨permissionNamespaces_marked ▸ hlabel, rfl⟩
  rcases (hexact _ _).mp hallowed with ⟨hdefault, -⟩ | ⟨perm, hperm, hrule, hholds⟩
  · exact markerRule_notMem_defaultRules _ hdefault
  · obtain ⟨ns, -, rfl⟩ := List.mem_map.mp hperm
    simp only [markerRule, PolicyRule.mk.injEq, List.cons.injEq, and_true, true_and] at hrule
    subst hrule
    rcases hholds with ⟨h, -⟩ | h | ⟨-, -, h⟩ <;> exact absurd h (by decide)

/-! ### The keys, when generated names differ -/

variable (p) in
/-- The names that are made unique by a hash. -/
def generatedNames : List String :=
  p.id :: (p.id ++ "-" ++ p.ns) :: p.resourceNamespaces.map fun ns => p.id ++ "-" ++ nameSuffix ns

theorem keys_userGrant_empty :
    (p.userGrant env "").roleKey = (some p.ns, generateDeterministicObjectName env p.id) ∧
      (p.userGrant env "").bindingKey = (some p.ns, generateDeterministicObjectName env p.id) :=
  ⟨rfl, rfl⟩

theorem keys_userGrant {ns : String} (h : ns ≠ "") :
    (p.userGrant env ns).roleKey =
        (none, generateDeterministicObjectName env (p.id ++ "-" ++ nameSuffix ns)) ∧
      (p.userGrant env ns).bindingKey = (if isForAll ns then none else some ns,
        generateDeterministicObjectName env (p.id ++ "-" ++ p.ns)) := by
  unfold userGrant
  rw [if_neg h]
  cases isForAll ns <;> exact ⟨rfl, rfl⟩

/-- If generated names are different from each other and from that of the workflow's
objects, only the special namespaces are confused. -/
theorem distinguished_of_injective
    (hinj : ∀ a ∈ p.generatedNames, ∀ b ∈ p.generatedNames,
      generateDeterministicObjectName env a = generateDeterministicObjectName env b → a = b)
    (hid : ∀ a ∈ p.generatedNames, generateDeterministicObjectName env a ≠ p.id)
    (hlabel : userPermissionResourceNamespaceLabelAll ∉ p.permissionNamespaces)
    (hall : ¬ ("*" ∈ p.permissionNamespaces ∧ "kratix-all-namespaces" ∈ p.permissionNamespaces)) :
    Distinguished env p := by
  have hself : p.id ∈ p.generatedNames := List.mem_cons_self
  have hjob : p.id ++ "-" ++ p.ns ∈ p.generatedNames := by simp [generatedNames]
  have hname : ∀ ns ∈ p.permissionNamespaces, ns ≠ "" →
      p.id ++ "-" ++ nameSuffix ns ∈ p.generatedNames := by
    intro ns hns hne
    refine List.mem_cons_of_mem _ (List.mem_cons_of_mem _ (List.mem_map.mpr ⟨ns, ?_, rfl⟩))
    exact mem_resourceNamespaces.mpr ⟨hns, hne⟩
  have hsuffix : ∀ ns ∈ p.permissionNamespaces, ∀ ns' ∈ p.permissionNamespaces,
      nameSuffix ns = nameSuffix ns' → ns = ns' := by
    intro ns hns ns' hns' h
    unfold nameSuffix at h
    split_ifs at h with h₁ h₂ h₂
    · rw [h₁, h₂]
    · exact absurd ⟨h₁ ▸ hns, h ▸ hns'⟩ hall
    · exact absurd ⟨h₂ ▸ hns', h ▸ hns⟩ hall
    · exact h
  -- no generated object is named like the objects of the workflow itself
  have hroleId : ∀ ns ∈ p.permissionNamespaces, (p.userGrant env ns).roleName ≠ p.id := by
    intro ns hns
    by_cases hne : ns = ""
    · subst hne
      exact hid _ hself
    · have hkey : (p.userGrant env ns).roleName = _ := congrArg Prod.snd (keys_userGrant hne).1
      rw [hkey]
      exact hid _ (hname ns hns hne)
  have hbindingId : ∀ ns, (p.userGrant env ns).bindingName ≠ p.id := by
    intro ns
    by_cases hne : ns = ""
    · subst hne
      exact hid _ hself
    · have hkey : (p.userGrant env ns).bindingName = _ := congrArg Prod.snd (keys_userGrant hne).2
      rw [hkey]
      exact hid _ hjob
  have hroles : ∀ ns ∈ p.permissionNamespaces, ∀ ns' ∈ p.permissionNamespaces,
      (p.userGrant env ns).roleKey = (p.userGrant env ns').roleKey → ns = ns' := by
    intro ns hns ns' hns' h
    by_cases hne : ns = "" <;> by_cases hne' : ns' = ""
    · rw [hne, hne']
    · rw [hne, keys_userGrant_empty.1, (keys_userGrant hne').1] at h
      cases (Prod.mk.inj h).1
    · rw [hne', keys_userGrant_empty.1, (keys_userGrant hne).1] at h
      cases (Prod.mk.inj h).1
    · rw [(keys_userGrant hne).1, (keys_userGrant hne').1] at h
      have heq := hinj _ (hname ns hns hne) _ (hname ns' hns' hne') (Prod.mk.inj h).2
      exact hsuffix ns hns ns' hns' (String.append_right_inj _ |>.mp heq)
  have hbindings : ∀ ns ∈ p.permissionNamespaces, ∀ ns' ∈ p.permissionNamespaces,
      (p.userGrant env ns).bindingKey = (p.userGrant env ns').bindingKey → ns = ns' := by
    intro ns hns ns' hns' h
    have hlonger : generateDeterministicObjectName env p.id ≠
        generateDeterministicObjectName env (p.id ++ "-" ++ p.ns) := by
      intro heq
      have hlength := congrArg String.length (hinj _ hself _ hjob heq)
      simp only [String.length_append] at hlength
      have hdash : "-".length = 1 := rfl
      omega
    by_cases hne : ns = "" <;> by_cases hne' : ns' = ""
    · rw [hne, hne']
    · rw [hne, keys_userGrant_empty.2, (keys_userGrant hne').2] at h
      exact absurd (Prod.mk.inj h).2 hlonger
    · rw [hne', keys_userGrant_empty.2, (keys_userGrant hne).2] at h
      exact absurd (Prod.mk.inj h).2.symm hlonger
    · rw [(keys_userGrant hne).2, (keys_userGrant hne').2] at h
      have hstar : ∀ m ∈ p.permissionNamespaces, isForAll m = true → m = "*" := by
        intro m hm hforall
        refine (isForAll_eq_true.mp hforall).resolve_right ?_
        rintro rfl
        exact hlabel hm
      have hscope := (Prod.mk.inj h).1
      cases hf : isForAll ns <;> cases hf' : isForAll ns' <;> simp [hf, hf'] at hscope
      · exact hscope
      · rw [hstar ns hns hf, hstar ns' hns' hf']
  constructor
  · rintro (_ | ns) he (_ | ns') he' h
    · rfl
    · exact absurd (congrArg Prod.snd h).symm (hroleId ns' (he' ns' rfl))
    · exact absurd (congrArg Prod.snd h) (hroleId ns (he ns rfl))
    · rw [hroles ns (he ns rfl) ns' (he' ns' rfl) h]
  · rintro (_ | ns) he (_ | ns') he' h
    · rfl
    · exact absurd (congrArg Prod.snd h).symm (hbindingId ns')
    · exact absurd (congrArg Prod.snd h) (hbindingId ns)
    · rw [hbindings ns (he ns rfl) ns' (he' ns' rfl) h]
  · exact hlabel

/-! ### The main statement -/

/-- A pipeline of a Promise workflow with permissions for these namespaces. -/
def installer (permissions : List Permission) : PipelineFactory :=
  Pipeline.forPromise { name := "install", permissions := permissions }
    { metadata := { name := "redis" }, spec := {}, status := {} } .configure

def getSecrets : PolicyRule := { apiGroups := [""], resources := ["secrets"], verbs := ["get"] }

def listPods : PolicyRule := { apiGroups := [""], resources := ["pods"], verbs := ["list"] }

/-- The role for all namespaces and the one for a namespace of a certain name have the
same name: reading secrets, meant for that namespace, is allowed everywhere. -/
theorem all_namespaces_confused :
    ∃ res o, (installer [⟨"*", listPods⟩, ⟨"kratix-all-namespaces", getSecrets⟩]).resourcesNamed
        plainExternals true "u" = .ok res ∧ Applied res.shared o ∧
      o.Allowed (installer []).account "default" getSecrets ∧
      ¬ (installer [⟨"*", listPods⟩, ⟨"kratix-all-namespaces", getSecrets⟩]).Intended "default"
        getSecrets := by
  have hgenerated : ∃ res, (installer [⟨"*", listPods⟩, ⟨"kratix-all-namespaces",
      getSecrets⟩]).resourcesNamed plainExternals true "u" = .ok res :=
    exists_resources_iff.mpr fun h => by cases h
  obtain ⟨res, hres⟩ := hgenerated
  refine ⟨res, _, hres, applied_self res.shared, ?_, ?_⟩
  · cases hres
    refine ⟨none, generateDeterministicObjectName plainExternals
      "redis-promise-configure-install-kratix-platform-system", _, _, _, rfl, Or.inl rfl, ?_, rfl,
      rfl, ?_⟩
    · decide +kernel
    · decide +kernel
  · rintro (⟨h, -⟩ | ⟨perm, hperm, hrule, hholds⟩)
    · exact absurd h (by decide)
    · rcases List.mem_pair.mp hperm with rfl | rfl
      · exact absurd hrule (by decide)
      · rcases hholds with ⟨h, -⟩ | h | ⟨-, -, h⟩ <;> exact absurd h (by decide)

/-- Whatever the rules of the permissions are and in whatever order the objects are
applied, the access is exact: if and only if the generated objects have different
keys and no permission names the special namespace. -/
theorem access_exact_iff (env : Externals) (p : PipelineFactory) (isLast : Bool) (uuid : String)
    (hgenerated : ∃ res, p.resourcesNamed env isLast uuid = .ok res) :
    (∀ permissions, permissions.map Permission.resourceNamespace = p.permissionNamespaces →
      ∀ res, (p.withPermissions permissions).resourcesNamed env isLast uuid = .ok res →
        ∀ o, Applied res.shared o → (p.withPermissions permissions).Exact o) ↔
      Distinguished env p := by
  constructor
  · intro hexact
    have hapi := exists_resources_iff.mp hgenerated
    obtain ⟨res, hres⟩ : ∃ res, p.marked.resourcesNamed env isLast uuid = .ok res :=
      exists_resources_iff.mpr hapi
    have hmarked := hexact _ permissionNamespaces_marked res hres _ (applied_self res.shared)
    exact (distinguished_withPermissions permissionNamespaces_marked).mp
      (Exact.distinguished hres (applied_self res.shared) hmarked)
  · intro h permissions hns res hres o ho
    exact ((distinguished_withPermissions hns).mpr h).exact hres ho

/-- Permissions in the namespace of the Job, in another one and in all of them. -/
theorem access_exact_iff_sample :
    ∃ res o, (installer [⟨"", listPods⟩, ⟨"team-a", getSecrets⟩, ⟨"*", listPods⟩]).resourcesNamed
        plainExternals true "u" = .ok res ∧ Applied res.shared o ∧
      (installer [⟨"", listPods⟩, ⟨"team-a", getSecrets⟩, ⟨"*", listPods⟩]).Exact o := by
  have hgenerated : ∃ res, (installer [⟨"", listPods⟩, ⟨"team-a", getSecrets⟩,
      ⟨"*", listPods⟩]).resourcesNamed plainExternals true "u" = .ok res :=
    exists_resources_iff.mpr fun h => by cases h
  have hdistinguished : Distinguished plainExternals
      (installer [⟨"", listPods⟩, ⟨"team-a", getSecrets⟩, ⟨"*", listPods⟩]) :=
    distinguished_of_injective (by decide +kernel) (by decide +kernel) (by decide) (by decide)
  obtain ⟨res, hres⟩ := hgenerated
  have hexact := (access_exact_iff plainExternals _ true "u" ⟨res, hres⟩).mpr hdistinguished
  exact ⟨res, _, hres, applied_self res.shared, hexact [⟨"", listPods⟩, ⟨"team-a", getSecrets⟩,
    ⟨"*", listPods⟩] rfl res hres _ (applied_self res.shared)⟩

end PipelineFactory

end Kratix
