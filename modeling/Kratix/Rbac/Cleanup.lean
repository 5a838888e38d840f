import Kratix.Rbac.Grants
import Kratix.Workflow.Effect

/-!
# Which roles and bindings a starting pipeline deletes

A configure pipeline first deletes the objects that its label selector finds and
that match none of the objects it needs, and then applies the objects it needs.
-/

namespace Kratix.Workflow

open Apiserver Effect

variable {env : Externals} {p : ParentKind} {opts : Opts p} {i : ℕ} {s t : World} {k : Kind}
  {res : PipelineJobResources}

/-! ### Stale objects -/

/-- The object is one of those the pipeline needs, up to its name and labels. -/
def matchesDesired (res : PipelineJobResources) : (k : Kind) → scheme.Obj k → Bool
  | .role, o => res.shared.roles.any (rolesMatch o)
  | .clusterRole, o => res.shared.clusterRoles.any (rolesMatch o)
  | .roleBinding, o => res.shared.roleBindings.any (roleBindingsMatch o)
  | .clusterRoleBinding, o => res.shared.clusterRoleBindings.any (roleBindingsMatch o)
  | _, _ => true

/-- The objects that are deleted. -/
def Stale (res : PipelineJobResources) (s : World) (o : AnyObject) : Prop :=
  o.2 ∈ s.cluster.listed o.1 "" (Selector.fromSet (getPipelineResourcesLabels res)) ∧
    matchesDesired res o.1 o.2 = false

theorem exec_getStale_eq {same : scheme.Obj k → scheme.Obj k → Bool} {desired : List (scheme.Obj k)}
    {selector : Selector} {r : Except Failure (List AnyObject)}
    (he : Exec (faulty env) (getStale k same desired selector) s r t) :
    t = s ∧ ∀ objs, r = .ok objs → ∀ o : AnyObject, o ∈ objs ↔
      ∃ x, o = ⟨k, x⟩ ∧ x ∈ s.cluster.listed k "" selector ∧ desired.any (same x) = false := by
  obtain ⟨a, u, hlist, he₁⟩ := exec_bind.mp he
  obtain ⟨rfl, hl⟩ := exec_listObjects hlist
  rcases a with (_ | _ | _ | _ | _) | l
  case error.notFound =>
    -- the server does not answer a list call so
    obtain ⟨c, hc, -⟩ := exec_perform.mp hlist
    have hserve := hc.of_notFound
    cases congrArg Prod.fst hserve
  case ok =>
    obtain ⟨rfl, rfl⟩ := he₁
    refine ⟨rfl, ?_⟩
    rintro objs h o
    cases h
    rw [hl l rfl]
    simp only [List.mem_map, List.mem_filter, Bool.not_eq_eq_eq_not, Bool.not_true]
    constructor
    · rintro ⟨x, ⟨hx, hsame⟩, rfl⟩
      exact ⟨x, rfl, hx, hsame⟩
    · rintro ⟨x, rfl, hx, hsame⟩
      exact ⟨x, ⟨hx, hsame⟩, rfl⟩
  all_goals
    obtain ⟨rfl, rfl⟩ := he₁
    exact ⟨rfl, fun objs h => by cases h⟩

theorem exec_getObjectsToDelete_iff {r : Except Failure (List AnyObject)}
    (he : Exec (faulty env) (getObjectsToDelete res) s r t) :
    t = s ∧ ∀ objs, r = .ok objs → ∀ o, o ∈ objs ↔ Stale res s o := by
  obtain ⟨a, u, h₁, he₁⟩ := exec_bind.mp he
  obtain ⟨rfl, hroles⟩ := exec_getStale_eq h₁
  cases a with
  | error e =>
    obtain ⟨rfl, rfl⟩ := he₁
    exact ⟨rfl, fun objs h => by cases h⟩
  | ok roles =>
  obtain ⟨b, u, h₂, he₂⟩ := exec_bind.mp he₁
  obtain ⟨rfl, hclusterRoles⟩ := exec_getStale_eq h₂
  cases b with
  | error e =>
    obtain ⟨rfl, rfl⟩ := he₂
    exact ⟨rfl, fun objs h => by cases h⟩
  | ok clusterRoles =>
  obtain ⟨c, u, h₃, he₃⟩ := exec_bind.mp he₂
  obtain ⟨rfl, hroleBindings⟩ := exec_getStale_eq h₃
  cases c with
  | error e =>
    obtain ⟨rfl, rfl⟩ := he₃
    exact ⟨rfl, fun objs h => by cases h⟩
  | ok roleBindings =>
  obtain ⟨d, u, h₄, he₄⟩ := exec_bind.mp he₃
  obtain ⟨rfl, hclusterRoleBindings⟩ := exec_getStale_eq h₄
  cases d with
  | error e =>
    obtain ⟨rfl, rfl⟩ := he₄
    exact ⟨rfl, fun objs h => by cases h⟩
  | ok clusterRoleBindings =>
  obtain ⟨rfl, rfl⟩ := he₄
  refine ⟨rfl, ?_⟩
  rintro objs h ⟨k, o⟩
  cases h
  simp only [List.mem_append, hroles _ rfl, hclusterRoles _ rfl, hroleBindings _ rfl,
    hclusterRoleBindings _ rfl]
  constructor
  · rintro (((⟨x, hx, hstale⟩ | ⟨x, hx, hstale⟩) | ⟨x, hx, hstale⟩) | ⟨x, hx, hstale⟩) <;>
      (cases hx; exact hstale)
  · rintro ⟨hlisted, hmatch⟩
    cases k with
    | role => exact Or.inl (Or.inl (Or.inl ⟨o, rfl, hlisted, hmatch⟩))
    | clusterRole => exact Or.inl (Or.inl (Or.inr ⟨o, rfl, hlisted, hmatch⟩))
    | roleBinding => exact Or.inl (Or.inr ⟨o, rfl, hlisted, hmatch⟩)
    | clusterRoleBinding => exact Or.inr ⟨o, rfl, hlisted, hmatch⟩
    | _ => cases hmatch

/-! ### Deleting and applying -/

/-- An object whose key is not among those of the objects to delete stays. -/
theorem exec_deleteResources_mem {objs : List AnyObject}
    (he : Exec (faulty env) (deleteResources objs) s () t) {y : scheme.Obj k}
    (hy : y ∈ s.cluster.objects k)
    (hkeys : ∀ o : scheme.Obj k, (⟨k, o⟩ : AnyObject) ∈ objs → o.key ≠ y.key) :
    y ∈ t.cluster.objects k := by
  induction objs generalizing s with
  | nil =>
    obtain ⟨-, rfl⟩ := he
    exact hy
  | cons o objs ih =>
    obtain ⟨_, u, hdel, he⟩ := exec_bind.mp he
    refine ih he ?_ fun o' ho' => hkeys o' (List.mem_cons_of_mem _ ho')
    obtain ⟨k', o⟩ := o
    by_cases hk : k' = k
    · subst hk
      rcases exec_deleteObject hdel with ⟨rfl, -⟩ | ⟨stored, c, hfind, hrep, rfl, -⟩
      · exact hy
      · refine (hrep.mem y).mpr (Or.inl ⟨hy, fun hkey => ?_⟩)
        exact hkeys o List.mem_cons_self ((s.cluster.find_eq_some.mp hfind).2.symm.trans hkey.symm)
    · rw [exec_objects (spares_deleteObject hk _ _) hdel]
      exact hy

/-- No object of this creation time. -/
def Gone (k : Kind) (created : ℕ) (s : World) : Prop := ∀ x ∈ s.cluster.objects k, x.created ≠ created

theorem Gone.deleteResources {objs : List AnyObject} {created : ℕ} (h : Gone k created s)
    (he : Exec (faulty env) (deleteResources objs) s () t) : Gone k created t := by
  have hdev := exec_develops (k := k) (p := { delete := fun _ => True }) (A := fun _ => False)
    (obeys_deleteResources fun _ _ => trivial) (fun h => h) (fun _ h => h) he
  intro x hx hcreated
  rcases hdev.stems x hx with ⟨y, hy, hsame⟩ | ⟨o, hfalse, -⟩
  · exact h y hy (hsame.created.symm.trans hcreated)
  · exact hfalse

theorem exec_deleteObject_gone {ns name : String} {r : Except ApiError Unit}
    (he : Exec (faultFree env) (deleteObject k ns name) s r t) {y : scheme.Obj k}
    (hy : y ∈ s.cluster.objects k) (hkey : y.key = (ns, name))
    (hfin : y.metadata.finalizers = []) : Gone k y.created t := by
  obtain ⟨-, rfl⟩ := exec_api he
  obtain ⟨-, hrep⟩ := serve_delete_stored (hkey ▸ Cluster.find_key hy)
  have hsettle : y.markDeleting.settle = none := by
    simp [Object.settle, Object.markDeleting, hfin]
  rw [hsettle] at hrep
  intro z hz hcreated
  rcases (hrep.mem z).mp hz with ⟨hz, hne⟩ | h
  · exact hne (congrArg Object.key (s.cluster.eq_of_created hz hy hcreated))
  · cases h

/-- Without faults an object without finalizers is deleted. -/
theorem exec_deleteResources_gone {objs : List AnyObject}
    (he : Exec (faultFree env) (deleteResources objs) s () t) {y : scheme.Obj k}
    (hy : y ∈ s.cluster.objects k) (hmem : (⟨k, y⟩ : AnyObject) ∈ objs)
    (hfin : y.metadata.finalizers = []) : Gone k y.created t := by
  induction objs generalizing s with
  | nil => cases hmem
  | cons o objs ih =>
    obtain ⟨_, u, hdel, he₁⟩ := exec_bind.mp he
    obtain ⟨k', o⟩ := o
    by_cases hk : k' = k
    · subst hk
      by_cases hkey : y.key = o.key
      · exact (exec_deleteObject_gone hdel hy hkey hfin).deleteResources
          (he₁.mono faulty_of_faultFree)
      · have hu : y ∈ u.cluster.objects k' := by
          rcases exec_deleteObject (hdel.mono faulty_of_faultFree) with
            ⟨rfl, -⟩ | ⟨stored, c, hfind, hrep, rfl, -⟩
          · exact hy
          · refine (hrep.mem y).mpr (Or.inl ⟨hy, fun h => hkey ?_⟩)
            exact h.trans (s.cluster.find_eq_some.mp hfind).2
        refine ih he₁ hu ((List.mem_cons.mp hmem).resolve_left fun h => ?_)
        cases h
        exact hkey rfl
    · refine ih he₁ ?_ ((List.mem_cons.mp hmem).resolve_left fun h => ?_)
      · rw [exec_objects (spares_deleteObject hk _ _) (hdel.mono faulty_of_faultFree)]
        exact hy
      · cases h
        exact hk rfl

/-- Applied objects are new or later versions of stored ones. -/
theorem Gone.applyResources {objs : List AnyObject} {created : ℕ} (h : Gone k created s)
    (hclock : created < s.cluster.clock) (he : Exec (faulty env) (applyResources objs) s () t) :
    Gone k created t := by
  have hdev := exec_develops (k := k) (p := { write := fun _ => True }) (A := fun _ => True)
    (obeys_applyResources fun _ _ => trivial) (fun h => h) (fun _ _ => trivial) he
  intro x hx hcreated
  rcases hdev.stems x hx with ⟨y, hy, hsame⟩ | ⟨o, -, -, -, ⟨y, hy, hsucc⟩ | hlater⟩
  · exact h y hy (hsame.created.symm.trans hcreated)
  · exact h y hy (hsucc.created.symm.trans hcreated)
  · omega

/-! ### What deleting and applying leave without faults -/

/-- Of stored objects without finalizers, the given ones are gone. -/
theorem exec_deleteResources_remain {objs : List AnyObject}
    (he : Exec (faultFree env) (deleteResources objs) s () t)
    (hobjs : ∀ o : scheme.Obj k, (⟨k, o⟩ : AnyObject) ∈ objs → o.metadata.finalizers = [] ∧
      ∀ x ∈ s.cluster.objects k, x.key = o.key → x = o) :
    ∀ x ∈ t.cluster.objects k, x ∈ s.cluster.objects k ∧ (⟨k, x⟩ : AnyObject) ∉ objs := by
  induction objs generalizing s with
  | nil =>
    obtain ⟨-, rfl⟩ := he
    exact fun x hx => ⟨hx, List.not_mem_nil⟩
  | cons o objs ih =>
    obtain ⟨_, u, hdel, he₁⟩ := exec_bind.mp he
    obtain ⟨k', o⟩ := o
    -- what the first deletion leaves
    have hu : ∀ x ∈ u.cluster.objects k, x ∈ s.cluster.objects k ∧
        (⟨k, x⟩ : AnyObject) ≠ ⟨k', o⟩ := by
      intro x hx
      by_cases hk : k' = k
      · subst hk
        obtain ⟨hfin, honly⟩ := hobjs o List.mem_cons_self
        obtain ⟨-, rfl⟩ := exec_api hdel
        cases hfind : s.cluster.find k' o.key with
        | none =>
          have hserve := (serve_of_missing hfind).2.2
          change x ∈ (serve (.delete k' o.key.1 o.key.2) s.cluster).2.objects k' at hx
          rw [hserve] at hx
          refine ⟨hx, fun h => ?_⟩
          cases h
          exact s.cluster.find_eq_none.mp hfind o hx rfl
        | some stored =>
          obtain ⟨hmem, hkey⟩ := s.cluster.find_eq_some.mp hfind
          obtain rfl := honly stored hmem hkey
          obtain ⟨-, hrep⟩ := serve_delete_stored hfind
          have hsettle : stored.markDeleting.settle = none := by
            simp [Object.settle, Object.markDeleting, hfin]
          rw [hsettle] at hrep
          rcases (hrep.mem x).mp hx with ⟨hx, hne⟩ | h
          · refine ⟨hx, fun h => ?_⟩
            cases h
            exact hne rfl
          · cases h
      · rw [exec_objects (spares_deleteObject hk _ _) (hdel.mono faulty_of_faultFree)] at hx
        refine ⟨hx, fun h => ?_⟩
        cases h
        exact hk rfl
    intro x hx
    have hrest := ih he₁ (fun y hy => ⟨(hobjs y (List.mem_cons_of_mem _ hy)).1, fun z hz =>
      (hobjs y (List.mem_cons_of_mem _ hy)).2 z (hu z hz).1⟩) x hx
    refine ⟨(hu x hrest.1).1, fun hmem => ?_⟩
    rcases List.mem_cons.mp hmem with h | h
    · exact (hu x hrest.1).2 h
    · exact hrest.2 h

/-- The server takes the object. -/
structure Acceptable (o : AnyObject) : Prop where
  labels : o.2.metadata.labels.Valid
  ns : scheme.namespaced o.1 = true → o.2.metadata.ns ≠ ""

instance (o : AnyObject) : Decidable (Acceptable o) :=
  decidable_of_iff (o.2.metadata.labels.Valid ∧
    (scheme.namespaced o.1 = true → o.2.metadata.ns ≠ "")) ⟨fun h => ⟨h.1, h.2⟩, fun h => ⟨h.1, h.2⟩⟩

/-- No object of this key is being deleted. -/
def LiveAt (s : World) (o : scheme.Obj k) : Prop :=
  ∀ x ∈ s.cluster.objects k, x.key = o.key → x.metadata.deleting = false

instance (s : World) (o : scheme.Obj k) : Decidable (LiveAt s o) :=
  inferInstanceAs (Decidable (∀ x ∈ s.cluster.objects k, x.key = o.key → x.metadata.deleting = false))

theorem exec_applyResource_sets {o : scheme.Obj k} (hk : k ≠ .serviceAccount)
    (hok : Acceptable ⟨k, o⟩) (hlive : LiveAt s o)
    (he : Exec (faultFree env) (applyResource ⟨k, o⟩) s () t) :
    ∃ x, Sets k o.key (some x) s.cluster t.cluster ∧ WrittenAs o x ∧
      x.metadata.deleting = false := by
  obtain ⟨r, u, hcreate, he₁⟩ := exec_bind.mp he
  obtain ⟨rfl, rfl⟩ := exec_api hcreate
  rcases serve_create_valid (S := scheme) hok.labels hok.ns s.cluster with
    ⟨stored, hfind, hserve⟩ | ⟨hserve, hadds⟩
  · rw [hserve] at he₁
    dsimp only at he₁
    rw [if_neg hk] at he₁
    obtain ⟨_, v, hupdate, he₂⟩ := exec_bind.mp he₁
    obtain ⟨-, rfl⟩ := he₂
    obtain ⟨-, rfl⟩ := exec_api hupdate
    obtain ⟨hmem, hkey⟩ := s.cluster.find_eq_some.mp hfind
    have hstored := hlive stored hmem hkey
    have hrep := serve_update_live hfind hstored hok.labels
    refine ⟨stored.accept o, ?_, ⟨hkey, rfl, rfl, rfl, rfl, rfl, rfl⟩, hstored⟩
    have hkey' : stored.key = o.key := hkey
    rw [← hkey']
    exact .of_replaces hrep
  · rw [hserve] at he₁
    obtain ⟨-, rfl⟩ := he₁
    exact ⟨_, .of_adds hadds, ⟨rfl, rfl, rfl, rfl, rfl, rfl, rfl⟩, rfl⟩

/-- The objects of the list are stored, and the objects under other keys are as before. -/
structure Stores (k : Kind) (objs : List AnyObject) (s t : World) : Prop where
  mem : ∀ x ∈ t.cluster.objects k,
    (x ∈ s.cluster.objects k ∧ ∀ o : scheme.Obj k, (⟨k, o⟩ : AnyObject) ∈ objs → o.key ≠ x.key) ∨
      ∃ o : scheme.Obj k, (⟨k, o⟩ : AnyObject) ∈ objs ∧ WrittenAs o x ∧ x.metadata.deleting = false
  stored : ∀ o : scheme.Obj k, (⟨k, o⟩ : AnyObject) ∈ objs → ∃ x ∈ t.cluster.objects k, x.key = o.key
  kept : ∀ x ∈ s.cluster.objects k, (∀ o : scheme.Obj k, (⟨k, o⟩ : AnyObject) ∈ objs →
    o.key ≠ x.key) → x ∈ t.cluster.objects k

theorem stores_singleton {o : AnyObject} (hk : k ≠ .serviceAccount) (hok : o.1 = k → Acceptable o)
    (hlive : o.1 = k → LiveAt s o.2) (he : Exec (faultFree env) (applyResource o) s () t) :
    Stores k [o] s t := by
  obtain ⟨k', o⟩ := o
  by_cases hkind : k' = k
  · subst hkind
    obtain ⟨x, hsets, hwritten, hdeleting⟩ := exec_applyResource_sets hk (hok rfl) (hlive rfl) he
    obtain ⟨hx, hkey⟩ := t.cluster.find_eq_some.mp hsets.self
    constructor
    · intro y hy
      by_cases hykey : y.key = o.key
      · obtain rfl := t.cluster.eq_of_key hy hx (hykey.trans hkey.symm)
        exact Or.inr ⟨o, List.mem_singleton_self _, hwritten, hdeleting⟩
      · refine Or.inl ⟨?_, fun o' ho' h => ?_⟩
        · have hfind := hsets.other y.key hykey
          rw [Cluster.find_key hy] at hfind
          exact (s.cluster.find_eq_some.mp hfind.symm).1
        · cases List.mem_singleton.mp ho'
          exact hykey h.symm
    · intro o' ho'
      cases List.mem_singleton.mp ho'
      exact ⟨x, hx, hkey⟩
    · intro y hy hne
      have hfind := hsets.other y.key (hne o (List.mem_singleton_self _)).symm
      rw [Cluster.find_key hy] at hfind
      exact (t.cluster.find_eq_some.mp hfind).1
  · have hsame : t.cluster.objects k = s.cluster.objects k :=
      exec_spared (obeys_applyResource (show (sparing k).write ⟨k', o⟩ from hkind))
        (he.mono faulty_of_faultFree)
    constructor
    · intro x hx
      refine Or.inl ⟨hsame ▸ hx, fun o' ho' => ?_⟩
      cases List.mem_singleton.mp ho'
      exact absurd rfl hkind
    · intro o' ho'
      cases List.mem_singleton.mp ho'
      exact absurd rfl hkind
    · exact fun x hx _ => hsame ▸ hx

theorem exec_applyResources_stores {objs : List AnyObject} (hk : k ≠ .serviceAccount)
    (hok : ∀ o ∈ objs, o.1 = k → Acceptable o)
    (hlive : ∀ o : scheme.Obj k, (⟨k, o⟩ : AnyObject) ∈ objs → LiveAt s o)
    (he : Exec (faultFree env) (applyResources objs) s () t) : Stores k objs s t := by
  induction objs generalizing s with
  | nil =>
    obtain ⟨-, rfl⟩ := he
    exact ⟨fun x hx => Or.inl ⟨hx, fun o ho => (by cases ho)⟩, fun o ho => (by cases ho),
      fun x hx _ => hx⟩
  | cons o objs ih =>
    obtain ⟨⟨⟩, u, hfirst, he₁⟩ := exec_bind.mp he
    obtain ⟨k', o⟩ := o
    have hhead := stores_singleton hk (hok _ List.mem_cons_self)
      (fun h => by subst h; exact hlive o List.mem_cons_self) hfirst
    have hlater : ∀ o' : scheme.Obj k, (⟨k, o'⟩ : AnyObject) ∈ objs → LiveAt u o' := by
      intro o' ho' x hx hkey
      rcases hhead.mem x hx with ⟨hx, -⟩ | ⟨-, -, -, hlive⟩
      · exact hlive o' (List.mem_cons_of_mem _ ho') x hx hkey
      · exact hlive
    have htail := ih (fun o' ho' => hok o' (List.mem_cons_of_mem _ ho')) hlater he₁
    constructor
    · intro x hx
      rcases htail.mem x hx with ⟨hx, hne⟩ | ⟨o', ho', hwritten⟩
      · rcases hhead.mem x hx with ⟨hx, hne'⟩ | ⟨o', ho', hwritten⟩
        · refine Or.inl ⟨hx, fun o' ho' => ?_⟩
          rcases List.mem_cons.mp ho' with h | h
          · exact hne' o' (h ▸ List.mem_cons_self)
          · exact hne o' h
        · exact Or.inr ⟨o', List.mem_cons.mpr (Or.inl (List.mem_singleton.mp ho')), hwritten⟩
      · exact Or.inr ⟨o', List.mem_cons_of_mem _ ho', hwritten⟩
    · intro o' ho'
      rcases List.mem_cons.mp ho' with h | h
      · obtain ⟨x, hx, hkey⟩ := hhead.stored o' (h ▸ List.mem_cons_self)
        -- the object stays, or a later one of the list has the same key
        by_cases hagain : ∃ d : scheme.Obj k, (⟨k, d⟩ : AnyObject) ∈ objs ∧ d.key = x.key
        · obtain ⟨d, hd, hdkey⟩ := hagain
          obtain ⟨y, hy, hykey⟩ := htail.stored d hd
          exact ⟨y, hy, hykey.trans (hdkey.trans hkey)⟩
        · exact ⟨x, htail.kept x hx fun d hd h => hagain ⟨d, hd, h⟩, hkey⟩
      · exact htail.stored o' h
    · intro x hx hne
      refine htail.kept x (hhead.kept x hx fun o' ho' => ?_) fun o' ho' =>
        hne o' (List.mem_cons_of_mem _ ho')
      exact hne o' (List.mem_cons.mpr (Or.inl (List.mem_singleton.mp ho')))

/-! ### The start of a pipeline -/

/-- The workflow is known to be running already, so that the call goes on. -/
def Opts.Proceeds (opts : Opts p) : Prop :=
  opts.skipConditions = true ∨
    opts.parentObject.status.configureWorkflowCompletedConditionStatus = .conditionFalse

/-- Stale objects are deleted and the desired ones applied, from a state `u` in which
only parent objects may be others than in `s`. -/
structure Starts (h : Handler signature World) (p : ParentKind) (res : PipelineJobResources)
    (s u t : World) : Prop where
  objects : ∀ k, Kind.parent p ≠ k → u.cluster.objects k = s.cluster.objects k
  clock : s.cluster.clock ≤ u.cluster.clock
  steps : ∃ objs v, (∀ o, o ∈ objs ↔ Stale res s o) ∧ Exec h (deleteResources objs) u () v ∧
    Exec h (applyResources (res.getObjects ++ [⟨.job, res.job⟩])) v () t

theorem stale_congr {u : World} (h : ∀ k, Kind.parent p ≠ k →
    u.cluster.objects k = s.cluster.objects k) {o : AnyObject} : Stale res u o ↔ Stale res s o := by
  obtain ⟨k, o⟩ := o
  unfold Stale
  refine and_congr_left fun hmatch => ?_
  have hk : Kind.parent p ≠ k := by
    rintro rfl
    cases hmatch
  simp only [Cluster.mem_listed, h k hk]

theorem exec_createConfigurePipeline_starts {h : Handler signature World}
    (hh : ∀ c s r t, h c s r t → faulty env c s r t) {r : Result p}
    (he : Exec h (createConfigurePipeline opts i res) s r t) :
    ((∀ k, Kind.parent p ≠ k → t.cluster.objects k = s.cluster.objects k) ∧
        (opts.Proceeds → r.err ≠ none)) ∨ ∃ u, Starts h p res s u t := by
  obtain ⟨updated, u, h₁, he₁⟩ := exec_bind.mp he
  have hu : ∀ k, Kind.parent p ≠ k → u.cluster.objects k = s.cluster.objects k := fun k hk =>
    exec_spared (obeys_setConfigureWorkflowCompletedConditionStatus hk _) (h₁.mono hh)
  split at he₁
  · next hstop =>
    obtain ⟨rfl, rfl⟩ := he₁
    refine Or.inl ⟨hu, fun hproceeds => ?_⟩
    -- a call that proceeds has nothing to update
    unfold setConfigureWorkflowCompletedConditionStatus at h₁
    split at h₁
    · obtain ⟨rfl, rfl⟩ := h₁
      cases hstop
    · next hskip =>
      rw [hproceeds.resolve_left hskip] at h₁
      obtain ⟨rfl, rfl⟩ := h₁
      cases hstop
  · obtain ⟨stale, v, h₂, he₂⟩ := exec_bind.mp he₁
    obtain ⟨rfl, hstale⟩ := exec_getObjectsToDelete_iff (h₂.mono hh)
    cases stale with
    | error e =>
      obtain ⟨rfl, rfl⟩ := he₂
      exact Or.inl ⟨hu, fun _ => by simp⟩
    | ok stale =>
      obtain ⟨obj, w, h₃, he₃⟩ := exec_bind.mp he₂
      have hw : ∀ k, Kind.parent p ≠ k → w.cluster.objects k = s.cluster.objects k := fun k hk =>
        (exec_spared (obeys_consumeManualReconciliation fun _ => hk) (h₃.mono hh)).trans (hu k hk)
      cases obj with
      | error e =>
        obtain ⟨rfl, rfl⟩ := he₃
        exact Or.inl ⟨hw, fun _ => by simp⟩
      | ok obj =>
        obtain ⟨_, x, h₄, he₄⟩ := exec_bind.mp he₃
        obtain ⟨_, y, h₅, he₅⟩ := exec_bind.mp he₄
        obtain ⟨-, rfl⟩ := he₅
        refine Or.inr ⟨w, hw, ?_, stale, x, fun o => ?_, h₄, h₅⟩
        · exact (exec_clock (h₁.mono hh)).trans (exec_clock (h₃.mono hh))
        · rw [hstale stale rfl, stale_congr hu]

theorem Starts.outlives {h : Handler signature World}
    (hh : ∀ c s r t, h c s r t → faulty env c s r t) {u : World} (hstart : Starts h p res s u t)
    (hk : Kind.parent p ≠ k) {y : scheme.Obj k} (hy : y ∈ s.cluster.objects k)
    (hlive : y.metadata.deleting = false) (hstale : ¬ Stale res s ⟨k, y⟩) :
    ∃ x ∈ t.cluster.objects k, Succeeds y x := by
  obtain ⟨objs, v, hobjs, hdel, happly⟩ := hstart.steps
  have hu : y ∈ u.cluster.objects k := hstart.objects k hk ▸ hy
  have hv : y ∈ v.cluster.objects k := by
    refine exec_deleteResources_mem (hdel.mono hh) hu fun o ho hkey => hstale ?_
    have hlisted := (hobjs _).mp ho
    obtain rfl : o = y := s.cluster.eq_of_key (Cluster.mem_listed.mp hlisted.1).1 hy hkey
    exact hlisted
  obtain ⟨x, hx, hsucc, -⟩ := exec_outlives (p := { write := fun _ => True })
    (obeys_applyResources fun _ _ => trivial) (fun h => h) (fun h => h) (happly.mono hh) y hv hlive
  exact ⟨x, hx, hsucc⟩

/-- Without faults a stale object is deleted; an object of its key is another one. -/
theorem Starts.gone {u : World} (hstart : Starts (faultFree env) p res s u t)
    (hk : Kind.parent p ≠ k) {y : scheme.Obj k} (hstale : Stale res s ⟨k, y⟩)
    (hfin : y.metadata.finalizers = []) : Gone k y.created t := by
  obtain ⟨objs, v, hobjs, hdel, happly⟩ := hstart.steps
  have hy : y ∈ s.cluster.objects k := (Cluster.mem_listed.mp hstale.1).1
  have hgone := exec_deleteResources_gone hdel (hstart.objects k hk ▸ hy) ((hobjs _).mpr hstale) hfin
  refine hgone.applyResources ?_ (happly.mono faulty_of_faultFree)
  have hlt := s.cluster.created_lt k y hy
  have hclock := exec_clock (hdel.mono faulty_of_faultFree)
  have hclock' := hstart.clock
  omega

end Kratix.Workflow
