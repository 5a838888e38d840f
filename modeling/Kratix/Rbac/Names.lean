import Kratix.Rbac.Revocation

/-!
# The names of different pipelines

The names of roles and bindings are made of texts that are joined by dashes, some
of them with a hash at the end. When different texts get different hashes, two
pipelines share an object exactly when two such texts are the same, or when the
identifier of one pipeline is a generated name of the other.
-/

namespace Kratix

open Apiserver Effect Rbac Workflow

/-! ### Texts of names -/

/-- A name is a text, or a text with its hash. -/
inductive NameText
  | plain (text : String)
  | hashed (text : String)
  deriving DecidableEq

namespace NameText

variable (env : Externals)

def name : NameText → String
  | plain text => text
  | hashed text => generateDeterministicObjectName env text

/-- The names differ if different texts have different hashes. -/
def Differs : NameText → NameText → Prop
  | plain a, plain b => a ≠ b
  | hashed a, hashed b => a ≠ b
  | plain a, hashed b => a ≠ generateDeterministicObjectName env b
  | hashed a, plain b => generateDeterministicObjectName env a ≠ b

variable {env}

theorem name_ne_iff {x y : NameText} (hinj : ∀ a b, x = hashed a → y = hashed b →
      generateDeterministicObjectName env a = generateDeterministicObjectName env b → a = b) :
    x.name env ≠ y.name env ↔ Differs env x y := by
  cases x with
  | plain a => cases y <;> exact Iff.rfl
  | hashed a =>
    cases y with
    | plain b => exact Iff.rfl
    | hashed b =>
      exact not_congr ⟨hinj a b rfl rfl, congrArg (generateDeterministicObjectName env)⟩

end NameText

namespace PipelineFactory

variable {env : Externals} {first second : PipelineFactory}

/-- The place and the name of the role from this source. -/
def roleText (f : PipelineFactory) : Option String → Option String × NameText
  | none => (if f.resourceRequest.isSome then some f.ns else none, .plain f.id)
  | some ns =>
    if ns = "" then (some f.ns, .hashed f.id)
    else (none, .hashed (f.id ++ "-" ++ nameSuffix ns))

/-- The place and the name of the binding from this source. -/
def bindingText (f : PipelineFactory) : Option String → Option String × NameText
  | none => (if f.resourceRequest.isSome then some f.ns else none, .plain f.id)
  | some ns =>
    if ns = "" then (some f.ns, .hashed f.id)
    else (if isForAll ns then none else some ns, .hashed (f.id ++ "-" ++ f.ns))

theorem roleText_some {f : PipelineFactory} {ns : String} (h : ns ≠ "") :
    f.roleText (some ns) = (none, .hashed (f.id ++ "-" ++ nameSuffix ns)) := if_neg h

theorem bindingText_some {f : PipelineFactory} {ns : String} (h : ns ≠ "") :
    f.bindingText (some ns) =
      (if isForAll ns then none else some ns, .hashed (f.id ++ "-" ++ f.ns)) := if_neg h

theorem exists_hashed_role (f : PipelineFactory) (ns : String) :
    ∃ text, (f.roleText (some ns)).2 = .hashed text := by
  by_cases hempty : ns = ""
  · subst hempty
    exact ⟨_, rfl⟩
  · exact ⟨_, by rw [roleText_some hempty]⟩

theorem exists_hashed_binding (f : PipelineFactory) (ns : String) :
    ∃ text, (f.bindingText (some ns)).2 = .hashed text := by
  by_cases hempty : ns = ""
  · subst hempty
    exact ⟨_, rfl⟩
  · exact ⟨_, by rw [bindingText_some hempty]⟩

theorem roleKey_eq (f : PipelineFactory) (e : Option String) :
    (f.grantOf env e).roleKey = ((f.roleText e).1, (f.roleText e).2.name env) := by
  cases e with
  | none => exact Prod.ext roleScope_ownGrant rfl
  | some ns =>
    by_cases hempty : ns = ""
    · subst hempty
      exact keys_userGrant_empty.1
    · rw [roleText_some hempty]
      exact (keys_userGrant hempty).1

theorem bindingKey_eq (f : PipelineFactory) (e : Option String) :
    (f.grantOf env e).bindingKey = ((f.bindingText e).1, (f.bindingText e).2.name env) := by
  cases e with
  | none => exact Prod.ext scope_ownGrant rfl
  | some ns =>
    by_cases hempty : ns = ""
    · subst hempty
      exact keys_userGrant_empty.2
    · rw [bindingText_some hempty]
      exact (keys_userGrant hempty).2

theorem mem_generatedNames_of_roleText {f : PipelineFactory} {e : Option String}
    (he : e ∈ f.sources) {text : String} (h : (f.roleText e).2 = .hashed text) :
    text ∈ f.generatedNames := by
  cases e with
  | none => cases h
  | some ns =>
    by_cases hempty : ns = ""
    · subst hempty
      cases h
      exact List.mem_cons_self
    · rw [roleText_some hempty] at h
      cases h
      refine List.mem_cons_of_mem _ (List.mem_cons_of_mem _ (List.mem_map.mpr ⟨ns, ?_, rfl⟩))
      exact mem_resourceNamespaces.mpr ⟨some_mem_sources.mp he, hempty⟩

theorem mem_generatedNames_of_bindingText {f : PipelineFactory} {e : Option String} {text : String}
    (h : (f.bindingText e).2 = .hashed text) : text ∈ f.generatedNames := by
  cases e with
  | none => cases h
  | some ns =>
    by_cases hempty : ns = ""
    · subst hempty
      cases h
      exact List.mem_cons_self
    · rw [bindingText_some hempty] at h
      cases h
      exact List.mem_cons_of_mem _ List.mem_cons_self

/-! ### Objects of two pipelines -/

/-- In the same place the two names differ. -/
def Apart (env : Externals) (x y : Option String × NameText) : Prop :=
  x.1 = y.1 → x.2.Differs env y.2

/-- The texts of the names of the two pipelines differ. -/
structure TextsApart (env : Externals) (first second : PipelineFactory) : Prop where
  roles : ∀ e ∈ first.sources, ∀ e' ∈ second.sources,
    Apart env (first.roleText e) (second.roleText e')
  bindings : ∀ e ∈ first.sources, ∀ e' ∈ second.sources,
    Apart env (first.bindingText e) (second.bindingText e')
  accounts : first.pipeline.serviceAccount = "" → second.pipeline.serviceAccount = "" →
    ¬ (first.ns = second.ns ∧ first.id = second.id)

/-- The roles and bindings of a pipeline and its default service account. -/
def ForAccess (f : PipelineFactory) (res : PipelineJobResources) (o : AnyObject) : Prop :=
  o ∈ res.applied ∧
    (IsRbac o.1 ∨ o.1 = .serviceAccount ∧ f.pipeline.serviceAccount = "")

/-- Different texts that occur in names have different hashes. -/
def Hashes (env : Externals) (first second : PipelineFactory) : Prop :=
  ∀ a ∈ first.generatedNames, ∀ b ∈ second.generatedNames,
    generateDeterministicObjectName env a = generateDeterministicObjectName env b → a = b

theorem roleKey_ne_iff (hinj : Hashes env first second) {e e' : Option String}
    (he : e ∈ first.sources) (he' : e' ∈ second.sources) :
    (first.grantOf env e).roleKey ≠ (second.grantOf env e').roleKey ↔
      Apart env (first.roleText e) (second.roleText e') := by
  rw [roleKey_eq, roleKey_eq, ne_eq, Prod.mk.injEq, not_and]
  refine imp_congr_right fun _ => NameText.name_ne_iff fun a b ha hb => hinj a ?_ b ?_
  · exact mem_generatedNames_of_roleText he ha
  · exact mem_generatedNames_of_roleText he' hb

theorem bindingKey_ne_iff (hinj : Hashes env first second) (e e' : Option String) :
    (first.grantOf env e).bindingKey ≠ (second.grantOf env e').bindingKey ↔
      Apart env (first.bindingText e) (second.bindingText e') := by
  rw [bindingKey_eq, bindingKey_eq, ne_eq, Prod.mk.injEq, not_and]
  refine imp_congr_right fun _ => NameText.name_ne_iff fun a b ha hb => hinj a ?_ b ?_
  · exact mem_generatedNames_of_bindingText ha
  · exact mem_generatedNames_of_bindingText hb

theorem objectKey_roleOf (f : PipelineFactory) (e : Option String) :
    (f.roleOf env e).key = ((f.grantOf env e).roleKey.1.getD "", (f.grantOf env e).roleKey.2) := by
  cases e <;> rfl

theorem objectKey_bindingOf (f : PipelineFactory) (e : Option String) : (f.bindingOf env e).key =
    ((f.grantOf env e).bindingKey.1.getD "", (f.grantOf env e).bindingKey.2) := by
  cases e <;> rfl

theorem key_eq_of_isSome {x y : Rbac.Key} (hx : x.1.isSome) (hy : y.1.isSome)
    (h : (x.1.getD "", x.2) = (y.1.getD "", y.2)) : x = y := by
  obtain ⟨_ | a, _⟩ := x
  · cases hx
  · obtain ⟨_ | b, _⟩ := y
    · cases hy
    · simpa using h

theorem key_eq_of_none {x y : Rbac.Key} (hx : x.1 = none) (hy : y.1 = none)
    (h : (x.1.getD "", x.2) = (y.1.getD "", y.2)) : x = y :=
  Prod.ext (hx.trans hy.symm) (Prod.mk.inj h).2

theorem TextsApart.key_ne (hinj : Hashes env first second) (h : TextsApart env first second)
    {k : Kind} {o o' : scheme.Obj k} {e e' : Option String} (ho : Generated env first e ⟨k, o⟩)
    (ho' : Generated env second e' ⟨k, o'⟩) : o.key ≠ o'.key := by
  cases ho with
  | role he hscope =>
    cases ho' with
    | role he' hscope' =>
    rw [objectKey_roleOf, objectKey_roleOf]
    exact fun hkey => (roleKey_ne_iff hinj he he').mpr (h.roles e he e' he')
      (key_eq_of_isSome hscope hscope' hkey)
  | clusterRole he hscope =>
    cases ho' with
    | clusterRole he' hscope' =>
    rw [objectKey_roleOf, objectKey_roleOf]
    exact fun hkey => (roleKey_ne_iff hinj he he').mpr (h.roles e he e' he')
      (key_eq_of_none hscope hscope' hkey)
  | roleBinding he hscope =>
    cases ho' with
    | roleBinding he' hscope' =>
    rw [objectKey_bindingOf, objectKey_bindingOf]
    exact fun hkey => (bindingKey_ne_iff hinj e e').mpr (h.bindings e he e' he')
      (key_eq_of_isSome hscope hscope' hkey)
  | clusterRoleBinding he hscope =>
    cases ho' with
    | clusterRoleBinding he' hscope' =>
    rw [objectKey_bindingOf, objectKey_bindingOf]
    exact fun hkey => (bindingKey_ne_iff hinj e e').mpr (h.bindings e he e' he')
      (key_eq_of_none hscope hscope' hkey)

theorem mem_applied_serviceAccount {f : PipelineFactory} {isLast : Bool} {uuid : String}
    {res : PipelineJobResources} (hres : f.resourcesNamed env isLast uuid = .ok res)
    {o : ServiceAccount} :
    (⟨.serviceAccount, o⟩ : AnyObject) ∈ res.applied ↔ o = f.serviceAccount := by
  have hshared : res.shared.serviceAccount = f.serviceAccount := by
    unfold resourcesNamed at hres
    cases hroles : f.role env with
    | error e =>
      rw [hroles] at hres
      cases hres
    | ok roles =>
      rw [hroles] at hres
      cases hres
      rfl
  simp [PipelineJobResources.applied, PipelineJobResources.getObjects, hshared]

theorem key_serviceAccount {f : PipelineFactory} (h : f.pipeline.serviceAccount = "") :
    f.serviceAccount.key = (f.ns, f.id) := by
  simp [serviceAccount, Object.key, h]

theorem exists_collision_of_roleKey {e e' : Option String} (he : e ∈ first.sources)
    (he' : e' ∈ second.sources)
    (hkey : (first.grantOf env e).roleKey = (second.grantOf env e').roleKey) :
    ∃ (k : Kind) (o o' : scheme.Obj k), IsRbac k ∧ Generated env first e ⟨k, o⟩ ∧
      Generated env second e' ⟨k, o'⟩ ∧ o.key = o'.key := by
  have hobjects : (first.roleOf env e).key = (second.roleOf env e').key := by
    rw [objectKey_roleOf, objectKey_roleOf, hkey]
  have hplace : (first.grantOf env e).place.roleScope =
      (second.grantOf env e').place.roleScope := congrArg Prod.fst hkey
  cases hscope : (first.grantOf env e).place.roleScope.isSome with
  | true =>
    exact ⟨.role, _, _, trivial, .role e he hscope, .role e' he' (hplace ▸ hscope), hobjects⟩
  | false =>
    have hnone := Option.isSome_eq_false_iff.mp hscope
    rw [Option.isNone_iff_eq_none] at hnone
    exact ⟨.clusterRole, _, _, trivial, .clusterRole e he hnone,
      .clusterRole e' he' (hplace ▸ hnone), hobjects⟩

theorem exists_collision_of_bindingKey {e e' : Option String} (he : e ∈ first.sources)
    (he' : e' ∈ second.sources)
    (hkey : (first.grantOf env e).bindingKey = (second.grantOf env e').bindingKey) :
    ∃ (k : Kind) (o o' : scheme.Obj k), IsRbac k ∧ Generated env first e ⟨k, o⟩ ∧
      Generated env second e' ⟨k, o'⟩ ∧ o.key = o'.key := by
  have hobjects : (first.bindingOf env e).key = (second.bindingOf env e').key := by
    rw [objectKey_bindingOf, objectKey_bindingOf, hkey]
  have hplace : (first.grantOf env e).place.scope =
      (second.grantOf env e').place.scope := congrArg Prod.fst hkey
  cases hscope : (first.grantOf env e).place.scope.isSome with
  | true =>
    exact ⟨.roleBinding, _, _, trivial, .roleBinding e he hscope,
      .roleBinding e' he' (hplace ▸ hscope), hobjects⟩
  | false =>
    have hnone := Option.isSome_eq_false_iff.mp hscope
    rw [Option.isNone_iff_eq_none] at hnone
    exact ⟨.clusterRoleBinding, _, _, trivial, .clusterRoleBinding e he hnone,
      .clusterRoleBinding e' he' (hplace ▸ hnone), hobjects⟩

/-! ### Writing over objects -/

theorem exec_createObject_find {s t : World} {k : Kind} {o : scheme.Obj k}
    {r : Except ApiError (scheme.Obj k)} {key : String × String} (hne : o.key ≠ key)
    (he : Exec (faulty env) (createObject k o) s r t) :
    t.cluster.find k key = s.cluster.find k key := by
  rcases exec_createObject he with ⟨rfl, -⟩ | ⟨c, hadds, rfl, -⟩
  · rfl
  · exact (Sets.of_adds hadds).other key hne.symm

theorem exec_updateObject_find {s t : World} {k : Kind} {o : scheme.Obj k}
    {r : Except ApiError (scheme.Obj k)} {key : String × String} (hne : o.key ≠ key)
    (he : Exec (faulty env) (updateObject k o) s r t) :
    t.cluster.find k key = s.cluster.find k key := by
  rcases exec_updateObject he with ⟨rfl, -⟩ | ⟨stored, c, hfind, hrep, rfl, -⟩
  · rfl
  · refine hrep.find_of_ne ?_
    rw [(s.cluster.find_eq_some.mp hfind).2]
    exact hne.symm

theorem exec_applyResource_find {s t : World} {k : Kind} {o : scheme.Obj k}
    {key : String × String} (hne : o.key ≠ key)
    (he : Exec (faulty env) (applyResource ⟨k, o⟩) s () t) :
    t.cluster.find k key = s.cluster.find k key := by
  obtain ⟨r, u, hcreate, he⟩ := exec_bind.mp he
  rw [← exec_createObject_find hne hcreate]
  have hupdate {u : World} (he : Exec (faulty env) (updateObject k o >>= fun _ => pure ()) u () t) :
      t.cluster.find k key = u.cluster.find k key := by
    obtain ⟨r, v, hup, -, rfl⟩ := exec_bind.mp he
    exact exec_updateObject_find hne hup
  rcases r with e | x
  · cases e with
    | alreadyExists =>
      dsimp only at he
      split at he
      · obtain ⟨r, v, hget, he⟩ := exec_bind.mp he
        obtain ⟨rfl, -⟩ := exec_getObject hget
        cases r with
        | error e =>
          obtain ⟨-, rfl⟩ := he
          rfl
        | ok account =>
          dsimp only at he
          split at he
          · obtain ⟨-, rfl⟩ := he
            rfl
          · exact hupdate he
      · exact hupdate he
    | _ =>
      obtain ⟨-, rfl⟩ := he
      rfl
  · obtain ⟨-, rfl⟩ := he
    rfl

theorem exec_applyResources_find {s t : World} {k : Kind} {objs : List AnyObject}
    {key : String × String} (hne : ∀ o : scheme.Obj k, (⟨k, o⟩ : AnyObject) ∈ objs → o.key ≠ key)
    (he : Exec (faulty env) (applyResources objs) s () t) :
    t.cluster.find k key = s.cluster.find k key := by
  induction objs generalizing s with
  | nil =>
    obtain ⟨-, rfl⟩ := he
    rfl
  | cons o objs ih =>
    obtain ⟨⟨⟩, u, hfirst, hrest⟩ := exec_bind.mp he
    rw [ih (fun o' ho' => hne o' (List.mem_cons_of_mem o ho')) hrest]
    obtain ⟨k', o⟩ := o
    by_cases hkind : k' = k
    · subst hkind
      exact exec_applyResource_find (hne o List.mem_cons_self) hfirst
    · unfold Cluster.find
      rw [exec_spared (obeys_applyResource (show (sparing k).write ⟨k', o⟩ from hkind)) hfirst]

/-! ### Names without dashes -/

/-- The text is one part of a name. -/
def Dashless (text : String) : Prop := '-' ∉ text.toList

instance (text : String) : Decidable (Dashless text) := inferInstanceAs (Decidable (_ ∉ _))

/-- What follows the last dash and what comes before it are determined. -/
theorem append_dash_inj {a b c d : String} (h : a ++ "-" ++ b = c ++ "-" ++ d) (hb : Dashless b)
    (hd : Dashless d) : a = c ∧ b = d := by
  have hlist : a.toList ++ '-' :: b.toList = c.toList ++ '-' :: d.toList := by
    simpa using congrArg String.toList h
  rcases List.append_eq_append_iff.mp hlist with ⟨between, hc, htail⟩ | ⟨between, ha, htail⟩
  · cases between with
    | nil =>
      rw [List.append_nil] at hc
      exact ⟨String.toList_inj.mp hc.symm, String.toList_inj.mp (List.cons.inj htail).2⟩
    | cons x between =>
      obtain ⟨-, htail⟩ := List.cons.inj htail
      exact absurd (htail ▸ by simp) hb
  · cases between with
    | nil =>
      rw [List.append_nil] at ha
      exact ⟨String.toList_inj.mp ha, String.toList_inj.mp (List.cons.inj htail).2.symm⟩
    | cons x between =>
      obtain ⟨-, htail⟩ := List.cons.inj htail
      exact absurd (htail ▸ by simp) hd

theorem dashless_type (type : WorkflowType) : Dashless type.text := by
  cases type <;> decide

theorem dashless_action (action : Action) : Dashless action.text := by
  cases action <;> decide

/-- One part, or three of which the first is no action. -/
def IsSuffix (text : String) : Prop :=
  Dashless text ∨ ∃ v w, Dashless v ∧ Dashless w ∧ text = "kratix" ++ "-" ++ v ++ "-" ++ w

/-- The names of the pipeline consist of single parts, as far as they are chosen freely. -/
structure HasParts (f : PipelineFactory) : Prop where
  id_eq : f.id = f.promiseName ++ "-" ++ f.workflowType.text ++ "-" ++ f.workflowAction.text ++
    "-" ++ f.pipeline.name
  name : Dashless f.pipeline.name
  ns : IsSuffix f.ns
  namespaces : ∀ ns ∈ f.permissionNamespaces, IsSuffix (nameSuffix ns)

namespace HasParts

/-- The last parts of an identifier are an action and the name of the pipeline. -/
theorem id_ne_kratix (hf : HasParts first) (text : String) {v : String} (hv : Dashless v) :
    text ++ "-" ++ "kratix" ++ "-" ++ v ≠ first.id := by
  intro h
  rw [hf.id_eq] at h
  obtain ⟨h, -⟩ := append_dash_inj h hv hf.name
  obtain ⟨-, haction⟩ := append_dash_inj h (by decide) (dashless_action _)
  revert haction
  cases first.workflowAction <;> decide

variable (hf : HasParts first) (hg : HasParts second)

include hf hg

theorem of_id_eq (h : first.id = second.id) : first.promiseName = second.promiseName ∧
    first.workflowType = second.workflowType ∧ first.workflowAction = second.workflowAction ∧
    first.pipeline.name = second.pipeline.name := by
  rw [hf.id_eq, hg.id_eq] at h
  obtain ⟨h, hname⟩ := append_dash_inj h hf.name hg.name
  obtain ⟨h, haction⟩ := append_dash_inj h (dashless_action _) (dashless_action _)
  obtain ⟨hpromise, htype⟩ := append_dash_inj h (dashless_type _) (dashless_type _)
  refine ⟨hpromise, ?_, ?_, hname⟩
  · revert htype
    cases first.workflowType <;> cases second.workflowType <;> decide
  · revert haction
    cases first.workflowAction <;> cases second.workflowAction <;> decide

theorem id_eq_of_suffix {x y : String} (hx : IsSuffix x) (hy : IsSuffix y)
    (h : first.id ++ "-" ++ x = second.id ++ "-" ++ y) : first.id = second.id := by
  rcases hx with hx | ⟨v, w, hv, hw, rfl⟩
  · rcases hy with hy | ⟨v, w, hv, hw, rfl⟩
    · exact (append_dash_inj h hx hy).1
    · simp only [← String.append_assoc] at h
      obtain ⟨h, -⟩ := append_dash_inj h hx hw
      exact absurd h.symm (hf.id_ne_kratix _ hv)
  · rcases hy with hy | ⟨v', w', hv', hw', rfl⟩
    · simp only [← String.append_assoc] at h
      obtain ⟨h, -⟩ := append_dash_inj h hw hy
      exact absurd h (hg.id_ne_kratix _ hv)
    · simp only [← String.append_assoc] at h
      obtain ⟨h, -⟩ := append_dash_inj h hw hw'
      obtain ⟨h, -⟩ := append_dash_inj h hv hv'
      exact (append_dash_inj h (by decide) (by decide)).1

theorem id_ne_suffix {x : String} (hx : IsSuffix x) : first.id ≠ second.id ++ "-" ++ x := by
  intro h
  rcases hx with hx | ⟨v, w, hv, hw, rfl⟩
  · rw [hf.id_eq] at h
    obtain ⟨h, -⟩ := append_dash_inj h hf.name hx
    rw [hg.id_eq] at h
    obtain ⟨h, -⟩ := append_dash_inj h (dashless_action _) hg.name
    obtain ⟨-, htype⟩ := append_dash_inj h (dashless_type _) (dashless_action _)
    revert htype
    cases first.workflowType <;> cases second.workflowAction <;> decide
  · simp only [← String.append_assoc] at h
    rw [hf.id_eq] at h
    obtain ⟨h, -⟩ := append_dash_inj h hf.name hw
    obtain ⟨h, haction⟩ := append_dash_inj h (dashless_action _) hv
    obtain ⟨-, htype⟩ := append_dash_inj h (dashless_type _) (by decide)
    revert htype
    cases first.workflowType <;> decide

/-- Different pipelines whose names consist of parts share no names, unless the
identifier of one is a generated name of the other. -/
theorem textsApart (hdiffers : ¬ (first.promiseName = second.promiseName ∧
      first.workflowType = second.workflowType ∧ first.workflowAction = second.workflowAction ∧
      first.pipeline.name = second.pipeline.name))
    (hfirst : ∀ a ∈ second.generatedNames, first.id ≠ generateDeterministicObjectName env a)
    (hsecond : ∀ a ∈ first.generatedNames, generateDeterministicObjectName env a ≠ second.id) :
    TextsApart env first second := by
  have hne : first.id ≠ second.id := fun h => hdiffers (of_id_eq hf hg h)
  refine ⟨?_, ?_, fun _ _ h => hne h.2⟩
  · rintro (_ | ns) he (_ | ns') he' hplace
    · exact hne
    · obtain ⟨text, htext⟩ := second.exists_hashed_role ns'
      rw [htext]
      exact hfirst text (mem_generatedNames_of_roleText he' htext)
    · obtain ⟨text, htext⟩ := first.exists_hashed_role ns
      rw [htext]
      exact hsecond text (mem_generatedNames_of_roleText he htext)
    · by_cases hempty : ns = ""
      · by_cases hempty' : ns' = ""
        · subst hempty hempty'
          exact hne
        · subst hempty
          rw [roleText_some hempty'] at hplace
          cases hplace
      · by_cases hempty' : ns' = ""
        · subst hempty'
          rw [roleText_some hempty] at hplace
          cases hplace
        · rw [roleText_some hempty, roleText_some hempty']
          exact fun h => hne (id_eq_of_suffix hf hg (hf.namespaces ns (some_mem_sources.mp he))
            (hg.namespaces ns' (some_mem_sources.mp he')) h)
  · rintro (_ | ns) he (_ | ns') he' hplace
    · exact hne
    · obtain ⟨text, htext⟩ := second.exists_hashed_binding ns'
      rw [htext]
      exact hfirst text (mem_generatedNames_of_bindingText htext)
    · obtain ⟨text, htext⟩ := first.exists_hashed_binding ns
      rw [htext]
      exact hsecond text (mem_generatedNames_of_bindingText htext)
    · by_cases hempty : ns = ""
      · by_cases hempty' : ns' = ""
        · subst hempty hempty'
          exact hne
        · subst hempty
          rw [bindingText_some hempty']
          exact id_ne_suffix hf hg hg.ns
      · by_cases hempty' : ns' = ""
        · subst hempty'
          rw [bindingText_some hempty]
          exact (id_ne_suffix hg hf hf.ns).symm
        · rw [bindingText_some hempty, bindingText_some hempty']
          exact fun h => hne (id_eq_of_suffix hf hg hf.ns hg.ns h)

end HasParts

/-! ### Pipelines with the same names -/

/-- A configure pipeline of a Promise, for a request in the namespace default. -/
def configurer (name : String) (permissions : List Permission) : PipelineFactory :=
  Pipeline.forResource { name := name, permissions := permissions }
    { metadata := { name := "redis" }
      spec := { api := some {
        group := "marketplace.kratix.io", plural := "redis", clusterScoped := false } }
      status := {} } .configure (runningRequest "request")

/-- The name of the role for the namespace of a pipeline's only permission. -/
def clusterRoleName (name ns : String) : String :=
  generateDeterministicObjectName plainExternals ((configurer name []).id ++ "-" ++ ns)

set_option maxRecDepth 4096 in
/-- Two pipelines of one workflow: the account of the first one gets the rules that the
second one asks for. -/
theorem pipelines_share_role :
    ∃ res res' s t,
      (configurer "run" [⟨"team-a", listPods⟩]).resourcesNamed plainExternals false "u" = .ok res ∧
      (configurer "run-team" [⟨"a", getSecrets⟩]).resourcesNamed plainExternals true "v" =
        .ok res' ∧
      (configurer "run" []).id.length ≤ 60 ∧ (configurer "run-team" []).id.length ≤ 60 ∧
      Exec (faultFree plainExternals) (applyResources res.applied) emptyWorld () s ∧
      Exec (faultFree plainExternals) (applyResources res'.applied) s () t ∧
      clusterRoleName "run" "team-a" = clusterRoleName "run-team" "a" ∧
      (∃ r ∈ t.cluster.objects .clusterRole, r.key = ("", clusterRoleName "run" "team-a") ∧
        r.spec = [getSecrets]) ∧
      ∃ b ∈ t.cluster.objects .roleBinding, b.metadata.ns = "team-a" ∧
        b.spec = ⟨⟨"ClusterRole", clusterRoleName "run" "team-a"⟩, [(configurer "run" []).account]⟩ := by
  obtain ⟨res, hres⟩ : ∃ res, (configurer "run" [⟨"team-a", listPods⟩]).resourcesNamed
      plainExternals false "u" = .ok res := exists_resources_iff.mpr fun _ => rfl
  obtain ⟨res', hres'⟩ : ∃ res', (configurer "run-team" [⟨"a", getSecrets⟩]).resourcesNamed
      plainExternals true "v" = .ok res' := exists_resources_iff.mpr fun _ => rfl
  have heval : (eval (serveCall plainExternals) (applyResources res.applied) emptyWorld).any
      (fun out => (eval (serveCall plainExternals) (applyResources res'.applied) out.2).any
        fun next => ((next.2.cluster.objects .clusterRole).any fun r =>
            r.key = ("", clusterRoleName "run" "team-a") && r.spec = [getSecrets]) &&
          (next.2.cluster.objects .roleBinding).any fun b => b.metadata.ns = "team-a" &&
            b.spec = ⟨⟨"ClusterRole", clusterRoleName "run" "team-a"⟩,
              [(configurer "run" []).account]⟩) = true := by
    cases hres
    cases hres'
    decide +kernel
  obtain ⟨⟨⟩, s, hfirst, hnext⟩ :=
    exists_exec_of_eval (h := faultFree plainExternals) faultFree_of_serveCall heval
  obtain ⟨⟨⟩, t, hsecond, hout⟩ :=
    exists_exec_of_eval (h := faultFree plainExternals) faultFree_of_serveCall hnext
  obtain ⟨hrole, hbinding⟩ := Bool.and_eq_true_iff.mp hout
  obtain ⟨r, hr, hrole⟩ := List.any_eq_true.mp hrole
  obtain ⟨b, hb, hbinding⟩ := List.any_eq_true.mp hbinding
  obtain ⟨hkey, hrules⟩ := Bool.and_eq_true_iff.mp hrole
  obtain ⟨hns, hspec⟩ := Bool.and_eq_true_iff.mp hbinding
  exact ⟨res, res', s, t, hres, hres', by decide, by decide, hfirst, hsecond, by decide +kernel,
    ⟨r, hr, of_decide_eq_true hkey, of_decide_eq_true hrules⟩,
    ⟨b, hb, of_decide_eq_true hns, of_decide_eq_true hspec⟩⟩

/-- No role, binding or default account of two pipelines has the same kind, namespace
and name, if and only if the texts of their names differ. Then starting one pipeline
leaves the roles and bindings of the other alone. -/
theorem rbac_names_apart_iff (hinj : Hashes env first second) {isLast isLast' : Bool}
    {uuid uuid' : String} {res res' : PipelineJobResources}
    (hfirst : first.resourcesNamed env isLast uuid = .ok res)
    (hsecond : second.resourcesNamed env isLast' uuid' = .ok res') :
    ((∀ (k : Kind) (o o' : scheme.Obj k), first.ForAccess res ⟨k, o⟩ →
        second.ForAccess res' ⟨k, o'⟩ → o.key ≠ o'.key) ↔ TextsApart env first second) ∧
      (TextsApart env first second → ∀ s t, Exec (faulty env) (applyResources res.applied) s () t →
        ∀ (k : Kind) (o' : scheme.Obj k), IsRbac k → (⟨k, o'⟩ : AnyObject) ∈ res'.applied →
          t.cluster.find k o'.key = s.cluster.find k o'.key) := by
  have hne (h : TextsApart env first second) (k : Kind) (o o' : scheme.Obj k) (hk : IsRbac k)
      (ho : (⟨k, o⟩ : AnyObject) ∈ res.applied) (ho' : (⟨k, o'⟩ : AnyObject) ∈ res'.applied) :
      o.key ≠ o'.key := by
    obtain ⟨e, hgen⟩ := (mem_applied_iff hfirst hk).mp ho
    obtain ⟨e', hgen'⟩ := (mem_applied_iff hsecond hk).mp ho'
    exact h.key_ne hinj hgen hgen'
  refine ⟨⟨fun h => ⟨?_, ?_, ?_⟩, fun h k o o' ho ho' => ?_⟩, fun h s t he k o' hk ho' => ?_⟩
  · intro e hmem e' hmem'
    rw [← roleKey_ne_iff hinj hmem hmem']
    intro hkey
    obtain ⟨k, o, o', hk, hgen, hgen', hsame⟩ := exists_collision_of_roleKey hmem hmem' hkey
    exact h k o o' ⟨(mem_applied_iff hfirst hk).mpr ⟨e, hgen⟩, Or.inl hk⟩
      ⟨(mem_applied_iff hsecond hk).mpr ⟨e', hgen'⟩, Or.inl hk⟩ hsame
  · intro e hmem e' hmem'
    rw [← bindingKey_ne_iff hinj]
    intro hkey
    obtain ⟨k, o, o', hk, hgen, hgen', hsame⟩ := exists_collision_of_bindingKey hmem hmem' hkey
    exact h k o o' ⟨(mem_applied_iff hfirst hk).mpr ⟨e, hgen⟩, Or.inl hk⟩
      ⟨(mem_applied_iff hsecond hk).mpr ⟨e', hgen'⟩, Or.inl hk⟩ hsame
  · rintro hdefault hdefault' ⟨hns, hid⟩
    refine h .serviceAccount first.serviceAccount second.serviceAccount
      ⟨(mem_applied_serviceAccount hfirst).mpr rfl, Or.inr ⟨rfl, hdefault⟩⟩
      ⟨(mem_applied_serviceAccount hsecond).mpr rfl, Or.inr ⟨rfl, hdefault'⟩⟩ ?_
    rw [key_serviceAccount hdefault, key_serviceAccount hdefault', hns, hid]
  · rcases ho.2 with hk | ⟨hk, hdefault⟩
    · exact hne h k o o' hk ho.1 ho'.1
    · obtain rfl : k = .serviceAccount := hk
      obtain rfl := (mem_applied_serviceAccount hfirst).mp ho.1
      obtain rfl := (mem_applied_serviceAccount hsecond).mp ho'.1
      have hdefault' : second.pipeline.serviceAccount = "" := by
        rcases ho'.2 with hk | ⟨-, hdefault'⟩
        · exact hk.elim
        · exact hdefault'
      rw [key_serviceAccount hdefault, key_serviceAccount hdefault', ne_eq, Prod.mk.injEq]
      exact h.accounts hdefault hdefault'
  · exact exec_applyResources_find (fun o ho => hne h k o o' hk ho ho') he

theorem hasParts_configurer {name : String} (hname : Dashless name) {permissions : List Permission}
    (hns : ∀ ns ∈ permissions.map Permission.resourceNamespace, IsSuffix (nameSuffix ns)) :
    HasParts (configurer name permissions) where
  id_eq := by simp [configurer, Pipeline.forResource, promiseName, WorkflowType.text, Action.text]
  name := hname
  ns := Or.inl (show Dashless "default" by decide)
  namespaces := hns

set_option maxRecDepth 4096 in
/-- Two pipelines with permissions in one namespace and in all of them. -/
theorem rbac_names_apart_iff_sample :
    ∃ res res',
      (configurer "run" [⟨"team", listPods⟩, ⟨"*", listPods⟩]).resourcesNamed plainExternals false
        "u" = .ok res ∧
      (configurer "stop" [⟨"team", getSecrets⟩, ⟨"", getSecrets⟩]).resourcesNamed plainExternals
        true "v" = .ok res' ∧
      ∀ (k : Kind) (o o' : scheme.Obj k),
        (configurer "run" [⟨"team", listPods⟩, ⟨"*", listPods⟩]).ForAccess res ⟨k, o⟩ →
        (configurer "stop" [⟨"team", getSecrets⟩, ⟨"", getSecrets⟩]).ForAccess res' ⟨k, o'⟩ →
        o.key ≠ o'.key := by
  obtain ⟨res, hres⟩ : ∃ res, (configurer "run" [⟨"team", listPods⟩, ⟨"*", listPods⟩]).resourcesNamed
      plainExternals false "u" = .ok res := exists_resources_iff.mpr fun _ => rfl
  obtain ⟨res', hres'⟩ : ∃ res', (configurer "stop"
      [⟨"team", getSecrets⟩, ⟨"", getSecrets⟩]).resourcesNamed plainExternals true "v" = .ok res' :=
    exists_resources_iff.mpr fun _ => rfl
  have hrun : HasParts (configurer "run" [⟨"team", listPods⟩, ⟨"*", listPods⟩]) := by
    refine hasParts_configurer (by decide) fun ns hns => ?_
    simp only [List.map_cons, List.map_nil, List.mem_cons, List.not_mem_nil, or_false] at hns
    rcases hns with rfl | rfl
    · exact Or.inl (by decide)
    · exact Or.inr ⟨"all", "namespaces", by decide, by decide, by decide⟩
  have hstop : HasParts (configurer "stop" [⟨"team", getSecrets⟩, ⟨"", getSecrets⟩]) := by
    refine hasParts_configurer (by decide) fun ns hns => ?_
    simp only [List.map_cons, List.map_nil, List.mem_cons, List.not_mem_nil, or_false] at hns
    rcases hns with rfl | rfl <;> exact Or.inl (by decide)
  have happart := hrun.textsApart hstop (by decide)
    (show ∀ a ∈ _, _ ≠ generateDeterministicObjectName plainExternals a by decide +kernel)
    (show ∀ a ∈ _, generateDeterministicObjectName plainExternals a ≠ _ by decide +kernel)
  refine ⟨res, res', hres, hres', (rbac_names_apart_iff ?_ hres hres').1.mpr happart⟩
  show ∀ a ∈ _, ∀ b ∈ _, generateDeterministicObjectName plainExternals a =
    generateDeterministicObjectName plainExternals b → a = b
  decide +kernel

end PipelineFactory

end Kratix
