import Kratix.Scheduling.Complete

/-!
# What a call leaves settled

When no request fails, a call leaves each WorkPlacement of a group as the
scheduler would write it again: with the workloads of the group, the mark that
tells whether its Destination is still selected, and a status that says so. All
of this is said here of single groups, and then of a group within a whole call.
-/

namespace Kratix

open Apiserver Effect

variable {env : Externals} {h : Handler signature World} {s t u : World} {work : Work}
  {g : WorkloadGroup}

/-! ### Conditions that are set already -/

/-- Setting the conditions again changes nothing. -/
def AlreadySet (conditions : List Condition) (pair : Condition × Condition) : Prop :=
  setStatusConditions conditions pair.1 pair.2 = (false, conditions)

theorem setStatusCondition_unchanged {conditions : List Condition} {new : Condition} :
    setStatusCondition conditions new = (false, conditions) ↔
      ∃ c, findCondition conditions new.type = some c ∧ c.hasSameState new = true := by
  unfold setStatusCondition
  split
  · next hnone => simp [hnone]
  · next old hold =>
    split
    · next hsame => simp [hold, hsame]
    · next hsame => simp [hold, hsame]

theorem alreadySet_iff {conditions : List Condition} {pair : Condition × Condition} :
    AlreadySet conditions pair ↔
      ∃ c, findCondition conditions pair.1.type = some c ∧ c.hasSameState pair.1 = true := by
  rw [← setStatusCondition_unchanged]
  unfold AlreadySet setStatusConditions
  split
  · next conditions' hset => simp [hset]
  · next conditions' hset => simp [hset]

theorem alreadySet_of_unchanged {conditions : List Condition} {pair : Condition × Condition}
    (hsame : (setStatusConditions conditions pair.1 pair.2).1 = false) :
    AlreadySet conditions pair := by
  unfold AlreadySet
  unfold setStatusConditions setStatusCondition at hsame ⊢
  grind

/-- The condition that is found after setting it is the same as the new one. -/
theorem findCondition_set_same (conditions : List Condition) (new : Condition) :
    ∃ c, findCondition (setStatusCondition conditions new).2 new.type = some c ∧
      c.hasSameState new = true := by
  unfold setStatusCondition
  split
  · next hnone =>
    refine ⟨new, ?_, by simp [Condition.hasSameState]⟩
    unfold findCondition at hnone ⊢
    rw [List.find?_append, hnone]
    simp
  · next old hold =>
    split
    · next hsame => exact ⟨old, hold, hsame⟩
    · exact ⟨new, findCondition_modify conditions new hold, by simp [Condition.hasSameState]⟩

theorem alreadySet_set {pair : Condition × Condition} (hne : pair.1.type ≠ pair.2.type)
    (conditions : List Condition) :
    AlreadySet (setStatusConditions conditions pair.1 pair.2).2 pair := by
  rw [alreadySet_iff]
  have hfirst := findCondition_set_same conditions pair.1
  unfold setStatusConditions
  split
  · next conditions' hset =>
    rw [hset] at hfirst
    exact hfirst
  · next conditions' hset =>
    rw [hset] at hfirst
    rw [findCondition_setStatusCondition_of_ne _ _ hne]
    exact hfirst

theorem workPlacementConditions_ne (misplaced : Bool) :
    (workPlacementConditions misplaced).1.type ≠ (workPlacementConditions misplaced).2.type := by
  cases misplaced <;> decide

theorem AlreadySet.reports {misplaced : Bool} {status : WorkPlacementStatus}
    (hset : AlreadySet status.conditions (workPlacementConditions misplaced)) :
    Reports misplaced status := by
  obtain ⟨c, hfind, hsame⟩ := alreadySet_iff.mp hset
  simp only [Condition.hasSameState, Bool.and_eq_true, beq_iff_eq] at hsame
  cases misplaced
  · exact ⟨c, hfind, hsame.1.1.2⟩
  · exact ⟨c, hfind, hsame.1.1.2⟩

/-! ### Single WorkPlacements -/

/-- A status update that comes through leaves the conditions set. -/
theorem exec_updateWorkPlacementStatus_set {ns name : String} {misplaced : Bool}
    {x : WorkPlacement} (hx : s.placement (ns, name) = some x)
    (he : Exec (faulty env) (updateWorkPlacementStatus ns name misplaced) s none t) :
    ∃ conditions, SetsPlacement (ns, name)
        (some { x with status := { x.status with conditions := conditions } }) s t ∧
      AlreadySet conditions (workPlacementConditions misplaced) := by
  obtain ⟨a, u, hget, hrest⟩ := exec_bind.mp he
  obtain ⟨rfl, hfound, -⟩ := exec_getObject hget
  cases a with
  | error e => cases hrest.1
  | ok stored =>
    obtain rfl : x = stored := Option.some.inj (hx.symm.trans (hfound stored rfl))
    have hset := alreadySet_set (workPlacementConditions_ne misplaced) x.status.conditions
    dsimp only at hrest
    split at hrest
    · next conditions hconditions =>
      obtain ⟨-, rfl⟩ := hrest
      exact ⟨x.status.conditions, setsPlacement_same hx,
        alreadySet_of_unchanged (congrArg Prod.fst hconditions)⟩
    · next conditions hconditions =>
      rw [hconditions] at hset
      obtain ⟨b, v, hupdate, hret⟩ := exec_bind.mp hrest
      cases b with
      | error e => cases hret.1
      | ok y =>
        obtain rfl : t = v := hret.2
        rcases exec_updateStatus hupdate with ⟨-, hno⟩ | ⟨stored, c, hf, hrep, rfl, -⟩
        · exact absurd rfl (hno y)
        · have hkey : x.key = (ns, name) := (u.cluster.find_eq_some.mp hx).2
          obtain rfl : stored = x := Option.some.inj (hf.symm.trans (hkey ▸ hx))
          exact ⟨conditions, hkey ▸ Sets.of_replaces hrep, hset⟩

/-- The WorkPlacement of a group and a Destination as the scheduler writes it. -/
structure Fixed (work : Work) (g : WorkloadGroup) (d : String) (misplaced : Bool)
    (x : WorkPlacement) : Prop where
  isPlacement : IsPlacement work g d misplaced x
  annotations : x.metadata.annotations = work.metadata.annotations
  told : AlreadySet x.status.conditions (workPlacementConditions misplaced)

theorem Fixed.mutated {d : String} {misplaced : Bool} {x : WorkPlacement}
    (hx : Fixed work g d misplaced x) : mutateWorkPlacement g work d misplaced x = .ok x := by
  obtain ⟨⟨-, hlabels, hspec, hfinalizer, howner, hname⟩, hannotations, -⟩ := hx
  obtain ⟨o, ho⟩ : ∃ o, mutateWorkPlacement g work d misplaced x = .ok o :=
    exists_mutateWorkPlacement fun _ => hname
  rw [ho]
  obtain ⟨-, rfl⟩ := setControllerReference_eq_ok ho
  obtain ⟨⟨ns, name, labels, annotations, finalizers, owner, ownerName, generation, created,
    deleting⟩, spec, status⟩ := x
  dsimp only at hlabels hspec hfinalizer howner hname hannotations
  subst hlabels hspec howner hname hannotations
  cases misplaced <;>
    simp [addFinalizer_eq, withFinalizers, labelWorkplacementAsMisplaced, withLabels, hfinalizer,
      Object.created]

theorem exec_createOrUpdate_annotations {d : String} {misplaced : Bool} {x : WorkPlacement}
    (he : Exec (faulty env) (createOrUpdate .workPlacement
      ⟨{ ns := work.metadata.ns, name := workPlacementName work d g }, {}, {}⟩
      (mutateWorkPlacement g work d misplaced)) s none t)
    (hx : t.placement (placementKey work g d) = some x) :
    x.metadata.annotations = work.metadata.annotations := by
  have hmutated {base o : WorkPlacement} (ho : mutateWorkPlacement g work d misplaced base = .ok o) :
      o.metadata.annotations = work.metadata.annotations := by
    obtain ⟨-, rfl⟩ := setControllerReference_eq_ok ho
    simp only [addFinalizer_eq]
    cases misplaced <;> rfl
  obtain ⟨a, u, hget, hrest⟩ := exec_bind.mp he
  obtain ⟨rfl, hfound, -⟩ := exec_getObject hget
  rcases a with (_ | _ | _ | _ | _) | stored
  case error.notFound =>
    dsimp only at hrest
    split at hrest
    · cases hrest.1
    · next o ho =>
      obtain ⟨b, v, hcreate, hret⟩ := exec_bind.mp hrest
      cases b with
      | error e => cases hret.1
      | ok y =>
        obtain rfl : t = v := hret.2
        rcases exec_createObject hcreate with ⟨-, hno⟩ | ⟨c, hadds, rfl, -⟩
        · exact absurd rfl (hno y)
        · have hkey : o.key = placementKey work g d := (mutateWorkPlacement_eq_ok rfl ho).1.key
          have hself := (Sets.of_adds hadds).self
          rw [hkey] at hself
          obtain rfl := Option.some.inj (hself.symm.trans hx)
          exact (hmutated ho : o.metadata.annotations = _)
  case ok =>
    have hf : u.placement (placementKey work g d) = some stored := hfound stored rfl
    have hkey : stored.key = placementKey work g d := (u.cluster.find_eq_some.mp hf).2
    dsimp only at hrest
    split at hrest
    · cases hrest.1
    · next o ho =>
      split at hrest
      · next heq =>
        obtain ⟨-, rfl⟩ := hrest
        subst heq
        obtain rfl := Option.some.inj (hf.symm.trans hx)
        exact hmutated ho
      · obtain ⟨b, v, hupdate, hret⟩ := exec_bind.mp hrest
        cases b with
        | error e => cases hret.1
        | ok y =>
          obtain rfl : t = v := hret.2
          rcases exec_updateObject hupdate with ⟨-, hno⟩ | ⟨stored', c, hf', hrep, rfl, -⟩
          · exact absurd rfl (hno y)
          · have hself := (Sets.of_replaces hrep).self
            have hkey' := (mutateWorkPlacement_eq_ok hkey ho).1.key
            obtain rfl : stored' = stored := Option.some.inj (hf'.symm.trans (hkey' ▸ hf))
            rw [hkey] at hself
            rw [Object.settle_eq_some (hself.symm.trans hx)]
            exact (hmutated ho : o.metadata.annotations = _)
  all_goals cases hrest.1

theorem exec_applyWorkplacement_fixed {d : String} {misplaced : Bool}
    (he : Exec (faulty env) (applyWorkplacement g work d misplaced) s none t) :
    ∃ x, SetsPlacement (placementKey work g d) (some x) s t ∧ Fixed work g d misplaced x := by
  obtain ⟨a, u, hcreate, hstatus⟩ := exec_bind.mp he
  cases a with
  | some e => cases hstatus.1
  | none =>
    rcases exec_createOrUpdate hcreate with ⟨-, hno⟩ | ⟨x, hset, hplaced⟩
    · exact absurd rfl hno
    · obtain ⟨conditions, hset', htold⟩ := exec_updateWorkPlacementStatus_set hset.self hstatus
      have hannotations := exec_createOrUpdate_annotations hcreate hset.self
      exact ⟨_, hset.trans hset',
        (hplaced.withStatus { x.status with conditions := conditions }).isPlacement,
        hannotations, htold⟩

/-! ### All Destinations of a group -/

theorem exec_applyWorkplacements_fixed {targets : StringMap Bool} {names : List String}
    (hnames : names.Nodup)
    (he : Exec (faulty env) (applyWorkplacements g work targets names) s none t) :
    ∀ d ∈ names, ∃ x, t.placement (placementKey work g d) = some x ∧
      Fixed work g d ((targets.lookup d).getD false) x := by
  induction names generalizing s with
  | nil => simp
  | cons d names ih =>
    obtain ⟨hd, hlater⟩ := List.nodup_cons.mp hnames
    obtain ⟨a, u, happly, hrest⟩ := exec_bind.mp he
    cases a with
    | some e => cases hrest.1
    | none =>
      intro d' hd'
      rcases List.mem_cons.mp hd' with rfl | hd'
      · obtain ⟨x, hset, hfixed⟩ := exec_applyWorkplacement_fixed happly
        -- the later ones have other names
        rcases (exec_applyWorkplacements hlater hrest).1.entry (placementKey work g d') with
          hsame | ⟨d, hd', hk, -⟩
        · exact ⟨x, hsame.trans hset.self, hfixed⟩
        · exact absurd (placementKey_inj hk ▸ hd') hd
      · exact ih hlater hrest d' hd'

section

variable (names : List String) (existing : List WorkPlacement)

theorem mem_keys_targetDestinationMap {d : String} :
    d ∈ (targetDestinationMap names existing).keys ↔
      d ∈ names ∨ ∃ x ∈ existing, x.spec.targetDestinationName = d := by
  rw [← AList.mem_keys, ← AList.lookup_isSome, lookup_targetDestinationMap]
  by_cases hd : d ∈ names
  · simp [hd]
  · by_cases hx : ∃ x ∈ existing, x.spec.targetDestinationName = d <;> simp [hd, hx]

theorem getD_lookup_targetDestinationMap {d : String}
    (hd : d ∈ (targetDestinationMap names existing).keys) :
    ((targetDestinationMap names existing).lookup d).getD false = !names.contains d := by
  rw [lookup_targetDestinationMap]
  by_cases hn : d ∈ names
  · simp [hn]
  · simp [hn, ((mem_keys_targetDestinationMap names existing).mp hd).resolve_left hn]

theorem isEmpty_targetDestinationMap :
    (targetDestinationMap names existing).entries.isEmpty = true ↔ names = [] ∧ existing = [] := by
  rw [entries_isEmpty_iff]
  constructor
  · intro hempty
    have hnone (d : String) : ¬ (d ∈ names ∨ ∃ x ∈ existing, x.spec.targetDestinationName = d) := by
      rw [← mem_keys_targetDestinationMap, hempty]
      exact List.not_mem_nil
    refine ⟨List.eq_nil_iff_forall_not_mem.mpr fun d hd => hnone d (Or.inl hd),
      List.eq_nil_iff_forall_not_mem.mpr fun x hx => hnone _ (Or.inr ⟨x, hx, rfl⟩)⟩
  · rintro ⟨rfl, rfl⟩
    rfl

theorem any_targetDestinationMap :
    ((targetDestinationMap names existing).entries.any fun e => e.2) = true ↔
      ∃ x ∈ existing, x.spec.targetDestinationName ∉ names := by
  rw [List.any_eq_true]
  constructor
  · rintro ⟨⟨d, b⟩, hmem, rfl⟩
    have hlookup := lookup_targetDestinationMap names existing d
    rw [AList.mem_lookup_iff.mpr hmem] at hlookup
    split_ifs at hlookup with hd hx
    · cases hlookup
    · obtain ⟨x, hx, rfl⟩ := hx
      exact ⟨x, hx, hd⟩
  · rintro ⟨x, hx, hd⟩
    refine ⟨⟨x.spec.targetDestinationName, true⟩, AList.mem_lookup_iff.mp ?_, rfl⟩
    rw [lookup_targetDestinationMap, if_neg hd, if_pos ⟨x, hx, rfl⟩]
    rfl

end

/-- The status of a group that was placed. -/
structure PlacedStatus (names : List String) (existing : List WorkPlacement)
    (st : SchedulingStatus) : Prop where
  unscheduled : st = .unscheduled ↔ names = [] ∧ existing = []
  misplaced : st = .misplaced ↔ ∃ x ∈ existing, x.spec.targetDestinationName ∉ names

theorem exec_placeWorkloadGroup_fixed (hh : Refines env h) {existing : List WorkPlacement}
    {st : SchedulingStatus} (he : Exec h (placeWorkloadGroup env g work existing) s (.ok st) t) :
    ∃ names, Exec h (getTargetDestinationNames env (resolveDestinationSelectorsForWorkloadGroup g)
        work) s names s ∧ PlacedStatus names existing st ∧
      (∀ d, (d ∈ names ∨ ∃ x ∈ existing, x.spec.targetDestinationName = d) →
        ∃ x, t.placement (placementKey work g d) = some x ∧
          Fixed work g d (!names.contains d) x) ∧
      ∀ key, t.placement key = s.placement key ∨ ∃ d, key = placementKey work g d ∧
        (d ∈ names ∨ ∃ x ∈ existing, x.spec.targetDestinationName = d) := by
  obtain ⟨names, u, hnames, hrest⟩ := exec_bind.mp he
  obtain ⟨rfl, -⟩ := exec_getTargetDestinationNames (hnames.mono hh)
  refine ⟨names, hnames, ?_⟩
  dsimp only at hrest
  split at hrest
  · next hempty =>
    rw [isEmpty_targetDestinationMap] at hempty
    obtain ⟨hst, rfl⟩ := hrest
    cases hst
    refine ⟨⟨by simp [hempty], by simp [hempty.2]⟩, fun d hd => ?_, fun key => Or.inl rfl⟩
    rw [hempty.1, hempty.2] at hd
    simp at hd
  · next hsome =>
    rw [isEmpty_targetDestinationMap] at hsome
    obtain ⟨a, v, happly, hret⟩ := exec_bind.mp hrest
    obtain ⟨order, w, horder, horder'⟩ := exec_bind.mp happly
    obtain ⟨b, w', hloop, hret'⟩ := exec_bind.mp horder'
    obtain ⟨hperm, rfl⟩ := hh _ _ _ _ (exec_perform.mp horder)
    cases b with
    | some e =>
      obtain ⟨rfl, rfl⟩ := hret'
      cases hret.1
    | none =>
      obtain ⟨rfl, rfl⟩ := hret'
      obtain ⟨hst, rfl⟩ := hret
      have hnodup : order.Nodup := hperm.nodup_iff.mpr (AList.keys_nodup _)
      refine ⟨?_, fun d hd => ?_, fun key => ?_⟩
      · have hany := any_targetDestinationMap names existing
        cases hst
        split
        · next hmis => exact ⟨by simp [hsome], by simp [hany.mp hmis]⟩
        · next hmis => exact ⟨by simp [hsome], by simp [← hany, hmis]⟩
      · have hkey := (mem_keys_targetDestinationMap names existing).mpr hd
        have hall := exec_applyWorkplacements_fixed hnodup (hloop.mono hh) d
          (hperm.mem_iff.mpr hkey)
        rwa [getD_lookup_targetDestinationMap names existing hkey] at hall
      · rcases (exec_applyWorkplacements hnodup (hloop.mono hh)).1.entry key with
          hsame | ⟨d, hd, hk, -⟩
        · exact Or.inl hsame
        · exact Or.inr ⟨d, hk,
            (mem_keys_targetDestinationMap names existing).mp (hperm.mem_iff.mp hd)⟩

/-! ### Updating the WorkPlacement of a resource request -/

/-- None of the selected Destinations is the one of the WorkPlacement. -/
def isMisplaced (env : Externals) (g : WorkloadGroup) (s : World) (x : WorkPlacement) : Bool :=
  !(chosenDestinations env (resolveDestinationSelectorsForWorkloadGroup g) s).any fun dest =>
    dest.metadata.name == x.spec.targetDestinationName

theorem exec_getDestinationsForWorkloadGroup_unfailing {m : Labels} {r : List Destination}
    (he : Exec (unfailing env) (getDestinationsForWorkloadGroup env m) s r t) :
    t = s ∧ r = chosenDestinations env m s := by
  obtain ⟨l, v, hlist, hret⟩ := exec_bind.mp he
  obtain ⟨rfl, rfl⟩ := exec_listObjects_unfailing hlist
  exact ⟨hret.2, hret.1⟩

theorem exec_updateWorkPlacement_exact {x : WorkPlacement} {mis : Bool}
    (hx : s.placement x.key = some x)
    (he : Exec (unfailing env) (updateWorkPlacement env g x) s (.ok mis) t) :
    mis = isMisplaced env g s x ∧ ∃ x', SetsPlacement x.key (some x') s t ∧ Updated g mis x x' ∧
      x'.metadata.annotations = x.metadata.annotations ∧
      AlreadySet x'.status.conditions (workPlacementConditions mis) := by
  obtain ⟨ds, u, hdest, hrest⟩ := exec_bind.mp he
  obtain ⟨rfl, rfl⟩ := exec_getDestinationsForWorkloadGroup_unfailing hdest
  dsimp only at hrest
  generalize hmis : (!(chosenDestinations env (resolveDestinationSelectorsForWorkloadGroup g) u).any
    fun dest => dest.metadata.name == x.spec.targetDestinationName) = mis' at hrest
  generalize ho : (if mis' then labelWorkplacementAsMisplaced x else x) = o at hrest
  have hkey : o.key = x.key := by
    subst ho
    cases mis' <;> rfl
  obtain ⟨a, v, hupdate, hrest'⟩ := exec_bind.mp hrest
  have hf : u.cluster.find .workPlacement
      ({ o with spec := { o.spec with workloads := g.workloads } } : WorkPlacement).key = some x :=
    (congrArg u.placement hkey).trans hx
  obtain ⟨rfl, c, hrep, rfl⟩ := exec_updateObject_stored hf hupdate
  obtain ⟨b, w, hstatus, hret⟩ := exec_bind.mp hrest'
  cases b with
  | some e => cases hret.1
  | none =>
    obtain ⟨hr, rfl⟩ := hret
    cases hr
    refine ⟨hmis.symm, ?_⟩
    have hset := Sets.of_replaces hrep
    cases hsettle : (x.accept { o with spec := { o.spec with workloads := g.workloads } }).settle with
    | none =>
      -- without the WorkPlacement its status could not be read
      rw [hsettle] at hset
      obtain ⟨st, -, hdone⟩ := exec_updateWorkPlacementStatus (hstatus.mono faulty_of_unfailing)
      have hmissing : (u.withCluster c).placement (o.metadata.ns, o.metadata.name) = none :=
        (congrArg (u.withCluster c).placement hkey).trans hset.self
      rw [hmissing] at hdone
      cases (hdone rfl).1
    | some y =>
      obtain rfl := Object.settle_eq_some hsettle
      rw [hsettle] at hset
      have hfound : (u.withCluster c).placement (o.metadata.ns, o.metadata.name) =
          some (x.accept { o with spec := { o.spec with workloads := g.workloads } }) :=
        (congrArg (u.withCluster c).placement hkey).trans hset.self
      obtain ⟨conditions, hset', htold⟩ :=
        exec_updateWorkPlacementStatus_set hfound (hstatus.mono faulty_of_unfailing)
      rw [show (o.metadata.ns, o.metadata.name) = x.key from hkey] at hset'
      refine ⟨_, hset.trans hset', ?_, ?_, htold⟩
      · subst ho
        cases mis <;> exact ⟨rfl, rfl, rfl, rfl, rfl, rfl, rfl, rfl⟩
      · subst ho
        cases mis <;> rfl

theorem isMisplaced_congr {x y : WorkPlacement}
    (hsame : t.cluster.objects .destination = s.cluster.objects .destination)
    (htarget : x.spec.targetDestinationName = y.spec.targetDestinationName) :
    isMisplaced env g t x = isMisplaced env g s y := by
  unfold isMisplaced chosenDestinations Cluster.listed
  rw [hsame, htarget]

/-- Each of the WorkPlacements is brought up to date, and those that no longer
are where they belong are counted. -/
theorem exec_updateWorkPlacements_exact {listed : List WorkPlacement} {r : ℕ × ℕ}
    (hkeys : (listed.map Object.key).Nodup) (hstored : ∀ x ∈ listed, s.placement x.key = some x)
    (he : Exec (unfailing env) (updateWorkPlacements env g listed) s r t) (hr : r.1 = 0) :
    (∀ x ∈ listed, ∃ x', t.placement x.key = some x' ∧ Updated g (isMisplaced env g s x) x x' ∧
      AlreadySet x'.status.conditions (workPlacementConditions (isMisplaced env g s x))) ∧
      (0 < r.2 ↔ ∃ x ∈ listed, isMisplaced env g s x = true) := by
  induction listed generalizing s r with
  | nil =>
    obtain ⟨rfl, rfl⟩ := he
    simp
  | cons x listed ih =>
    obtain ⟨hx, hlater⟩ := List.nodup_cons.mp hkeys
    obtain ⟨a, u, hfirst, hrest⟩ := exec_bind.mp he
    obtain ⟨b, w, hloop, hret⟩ := exec_bind.mp hrest
    have ht : t = w := by rcases a with e | (_ | _) <;> exact hret.2
    subst ht
    cases a with
    | error e =>
      rw [hret.1] at hr
      cases hr
    | ok mis =>
      have hcounts : r.1 = b.1 ∧ r.2 = b.2 + if mis = true then 1 else 0 := by
        cases mis <;> simp [hret.1]
      obtain ⟨hmis, x', hset, hupdated, -, htold⟩ :=
        exec_updateWorkPlacement_exact (hstored x List.mem_cons_self) hfirst
      have hne (y : WorkPlacement) (hy : y ∈ listed) : y.key ≠ x.key :=
        fun heq => hx (heq ▸ List.mem_map_of_mem hy)
      have hstored' : ∀ y ∈ listed, u.placement y.key = some y := fun y hy =>
        (hset.other _ (hne y hy)).trans (hstored y (List.mem_cons_of_mem x hy))
      obtain ⟨hall, hcount⟩ := ih hlater hstored' hloop (hcounts.1.symm.trans hr)
      have hsame (y : WorkPlacement) : isMisplaced env g u y = isMisplaced env g s y :=
        isMisplaced_congr (hset.others _ (by decide)) rfl
      simp only [hsame] at hall hcount
      constructor
      · intro y hy
        rcases List.mem_cons.mp hy with rfl | hy
        · have hkept : t.placement y.key = u.placement y.key := by
            rcases (exec_updateWorkPlacements hlater hstored'
              (hloop.mono faulty_of_unfailing)).1.entry y.key with hkept | ⟨z, hz, hk, -⟩
            · exact hkept
            · exact absurd hk (hne z hz)
          exact ⟨x', hkept.trans hset.self, hmis ▸ hupdated, hmis ▸ htold⟩
        · exact hall y hy
      · rw [hcounts.2, hmis]
        simp only [List.mem_cons, exists_eq_or_imp, ← hcount]
        split_ifs with hm <;> simp [hm]

/-! ### A group -/

open Classical in
/-- The status of a group, read off where it is in `t` and what is selected in `s`. -/
noncomputable def settledStatus (env : Externals) (work : Work) (g : WorkloadGroup) (s t : World) :
    SchedulingStatus :=
  if ∃ key x, Holds t work g.id key x ∧ isMisplaced env g s x = true then .misplaced
  else if ∃ key x, Holds t work g.id key x then .scheduled else .unscheduled

/-- What a call without faults, made in `s`, leaves of a group in `t`. -/
structure GroupSettled (env : Externals) (work : Work) (g : WorkloadGroup) (s t : World) :
    Prop where
  kept : ∀ key y, Holds s work g.id key y → ∃ x, Holds t work g.id key x
  workloads : ∀ key x, Holds t work g.id key x → x.spec.workloads = g.workloads
  told : ∀ key x, Holds t work g.id key x →
    AlreadySet x.status.conditions (workPlacementConditions (isMisplaced env g s x))
  /-- The mark is never taken off a WorkPlacement that is only updated. -/
  marked : ∀ key x, Holds t work g.id key x → (isMarkedMisplaced x ↔
    isMisplaced env g s x = true ∨
      work.isResourceRequest = true ∧ ∃ y, Holds s work g.id key y ∧ isMarkedMisplaced y)
  /-- Marking it again changes nothing. -/
  labelled : ∀ key x, Holds t work g.id key x → isMisplaced env g s x = true →
    labelWorkplacementAsMisplaced x = x
  fixed : work.isResourceRequest = false → ∀ key x, Holds t work g.id key x →
    Fixed work g x.spec.targetDestinationName (isMisplaced env g s x) x
  covered : work.isResourceRequest = false →
    ∀ dest ∈ chosenDestinations env (resolveDestinationSelectorsForWorkloadGroup g) s,
      ∃ x, Holds t work g.id (placementKey work g dest.metadata.name) x
  placed : chosenDestinations env (resolveDestinationSelectorsForWorkloadGroup g) s ≠ [] →
    ∃ key x, Holds t work g.id key x

theorem isMisplaced_eq_false {x : WorkPlacement} :
    isMisplaced env g s x = false ↔
      ∃ dest ∈ chosenDestinations env (resolveDestinationSelectorsForWorkloadGroup g) s,
        dest.metadata.name = x.spec.targetDestinationName := by
  simp [isMisplaced, List.any_eq_true]

theorem Fixed.marked_iff {d : String} {misplaced : Bool} {x : WorkPlacement}
    (hx : Fixed work g d misplaced x) : isMarkedMisplaced x ↔ misplaced = true :=
  hx.isPlacement.isMarkedMisplaced_iff

theorem labelWorkplacementAsMisplaced_eq_self {x : WorkPlacement} {l : Labels}
    (hx : x.metadata.labels = l.insert Label.misscheduled "true") :
    labelWorkplacementAsMisplaced x = x := by
  unfold labelWorkplacementAsMisplaced withLabels
  rw [hx, AList.insert_insert, ← hx]

theorem settledStatus_of {st : SchedulingStatus}
    (hunscheduled : st = .unscheduled ↔ ¬ ∃ key x, Holds t work g.id key x)
    (hmisplaced : st = .misplaced ↔
      ∃ key x, Holds t work g.id key x ∧ isMisplaced env g s x = true) :
    st = settledStatus env work g s t := by
  unfold settledStatus
  split_ifs with hm hp
  · exact hmisplaced.mpr hm
  · cases st with
    | scheduled => rfl
    | unscheduled => exact absurd hp (hunscheduled.mp rfl)
    | misplaced => exact absurd (hmisplaced.mp rfl) hm
  · exact hunscheduled.mpr hp

section

variable {st : SchedulingStatus} (hns : work.metadata.ns ≠ "")
  (hname : isValidLabelValue work.metadata.name = true) (hid : isValidLabelValue g.id = true)
include hns hname hid

theorem exec_placeWorkloadGroup_settled (hs : Tidy work s)
    (hnone : work.isResourceRequest = true → existingPlacements env s work g = [])
    (he : Exec (unfailing env) (placeWorkloadGroup env g work (existingPlacements env s work g))
      s (.ok st) t) : GroupSettled env work g s t ∧ st = settledStatus env work g s t := by
  have hmem (x : WorkPlacement) : x ∈ existingPlacements env s work g ↔ Holds s work g.id x.key x :=
    mem_existingPlacements_iff hns hname hid
  obtain ⟨names, hnames, hstatus, hfixed, hentry⟩ :=
    exec_placeWorkloadGroup_fixed refines_unfailing he
  have hchosen := (exec_getTargetDestinationNames (hnames.mono faulty_of_unfailing)).2
  obtain ⟨hall, -, hnil⟩ := exec_getTargetDestinationNames_unfailing hnames
  -- a name that is not selected is one of an existing WorkPlacement of a dependency
  have hmisplaced (d : String) (x : WorkPlacement) (hx : x.spec.targetDestinationName = d)
      (hd : d ∈ names ∨ ∃ y ∈ existingPlacements env s work g, y.spec.targetDestinationName = d) :
      (!names.contains d) = isMisplaced env g s x := by
    by_cases hin : d ∈ names
    · obtain ⟨dest, hdest, hname', hselected⟩ := hchosen d hin
      rw [isMisplaced_eq_false.mpr ⟨dest, mem_chosenDestinations.mpr ⟨hdest, hselected⟩,
        hname'.trans hx.symm⟩]
      simp [hin]
    · obtain ⟨y, hy, -⟩ := hd.resolve_left hin
      have hdep : work.isResourceRequest = false := by
        cases hr : work.isResourceRequest with
        | false => rfl
        | true => simp [hnone hr] at hy
      cases hm : isMisplaced env g s x with
      | true => simp [hin]
      | false =>
        obtain ⟨dest, hdest, hname'⟩ := isMisplaced_eq_false.mp hm
        rw [hall hdep] at hin
        exact absurd (List.mem_map.mpr ⟨dest, hdest, hname'.trans hx⟩) hin
  -- the WorkPlacements of the group are those of the Destinations
  have hholds (key : String × String) (x : WorkPlacement) (hx : Holds t work g.id key x) :
      ∃ d, key = placementKey work g d ∧ (d ∈ names ∨
        ∃ y ∈ existingPlacements env s work g, y.spec.targetDestinationName = d) ∧
        x.spec.targetDestinationName = d ∧ Fixed work g d (isMisplaced env g s x) x := by
    obtain ⟨d, rfl, hd⟩ : ∃ d, key = placementKey work g d ∧ (d ∈ names ∨
        ∃ y ∈ existingPlacements env s work g, y.spec.targetDestinationName = d) := by
      rcases hentry key with hsame | hd
      · have hold : Holds s work g.id key x := ⟨hsame ▸ hx.stored, hx.belongsTo, hx.groupID_eq⟩
        exact ⟨_, hs.key_of_holds hold, Or.inr ⟨x, (hmem x).mpr (hold.key_eq ▸ hold), rfl⟩⟩
      · exact hd
    obtain ⟨y, hy, hyfixed⟩ := hfixed d hd
    obtain rfl : y = x := Option.some.inj (hy.symm.trans hx.stored)
    have htarget := hyfixed.isPlacement.target
    rw [hmisplaced d y htarget hd] at hyfixed
    exact ⟨d, rfl, hd, htarget, hyfixed⟩
  have hplaced (d : String) (hd : d ∈ names ∨
      ∃ y ∈ existingPlacements env s work g, y.spec.targetDestinationName = d) :
      ∃ x, Holds t work g.id (placementKey work g d) x ∧ x.spec.targetDestinationName = d := by
    obtain ⟨x, hx, hxfixed⟩ := hfixed d hd
    exact ⟨x, .of_isPlacement hx hxfixed.isPlacement, hxfixed.isPlacement.target⟩
  refine ⟨⟨?_, ?_, ?_, ?_, ?_, ?_, ?_, ?_⟩, settledStatus_of ?_ ?_⟩
  · intro key y hy
    obtain ⟨x, hx, -⟩ := hplaced y.spec.targetDestinationName
      (Or.inr ⟨y, (hmem y).mpr (hy.key_eq ▸ hy), rfl⟩)
    exact ⟨x, hs.key_of_holds hy ▸ hx⟩
  · intro key x hx
    obtain ⟨d, -, -, -, hxfixed⟩ := hholds key x hx
    rw [hxfixed.isPlacement.spec]
  · intro key x hx
    obtain ⟨d, -, -, -, hxfixed⟩ := hholds key x hx
    exact hxfixed.told
  · intro key x hx
    obtain ⟨d, rfl, -, -, hxfixed⟩ := hholds key x hx
    rw [hxfixed.marked_iff]
    refine ⟨Or.inl, ?_⟩
    rintro (hm | ⟨hr, y, hy, -⟩)
    · exact hm
    · have hin := (hmem y).mpr (hy.key_eq ▸ hy)
      rw [hnone hr] at hin
      cases hin
  · intro key x hx hm
    obtain ⟨d, -, -, -, hxfixed⟩ := hholds key x hx
    have hlabels := hxfixed.isPlacement.labels
    rw [if_pos hm] at hlabels
    exact labelWorkplacementAsMisplaced_eq_self hlabels
  · intro _ key x hx
    obtain ⟨d, -, -, rfl, hxfixed⟩ := hholds key x hx
    exact hxfixed
  · intro hdep dest hdest
    obtain ⟨x, hx, -⟩ := hplaced dest.metadata.name
      (Or.inl (hall hdep ▸ List.mem_map.mpr ⟨dest, hdest, rfl⟩))
    exact ⟨x, hx⟩
  · intro hsome
    obtain ⟨d, hd⟩ := List.exists_mem_of_ne_nil names fun hempty => hsome (hnil hempty)
    obtain ⟨x, hx, -⟩ := hplaced d (Or.inl hd)
    exact ⟨_, x, hx⟩
  · rw [hstatus.unscheduled]
    constructor
    · rintro ⟨rfl, hempty⟩ ⟨key, x, hx⟩
      obtain ⟨d, -, hd, -⟩ := hholds key x hx
      rw [hempty] at hd
      simp at hd
    · intro hno
      refine ⟨List.eq_nil_iff_forall_not_mem.mpr fun d hd => ?_,
        List.eq_nil_iff_forall_not_mem.mpr fun x hx => ?_⟩
      · obtain ⟨x, hx, -⟩ := hplaced d (Or.inl hd)
        exact hno ⟨_, x, hx⟩
      · obtain ⟨y, hy, -⟩ := hplaced _ (Or.inr ⟨x, hx, rfl⟩)
        exact hno ⟨_, y, hy⟩
  · rw [hstatus.misplaced]
    constructor
    · rintro ⟨x, hx, hin⟩
      obtain ⟨y, hy, htarget⟩ := hplaced _ (Or.inr ⟨x, hx, rfl⟩)
      refine ⟨_, y, hy, ?_⟩
      rw [← hmisplaced _ y htarget (Or.inr ⟨x, hx, rfl⟩)]
      simpa using hin
    · rintro ⟨key, x, hx, hm⟩
      obtain ⟨d, -, hd, htarget, -⟩ := hholds key x hx
      rw [← hmisplaced d x htarget hd] at hm
      obtain ⟨y, hy, rfl⟩ := hd.resolve_left (by simpa using hm)
      exact ⟨y, hy, by simpa using hm⟩

theorem exec_updateWorkPlacements_settled {r : ℕ × ℕ} (hrequest : work.isResourceRequest = true)
    (hsome : existingPlacements env s work g ≠ [])
    (he : Exec (unfailing env)
      (updateWorkPlacements env g (existingPlacements env s work g)) s r t) (hr : r.1 = 0) :
    GroupSettled env work g s t ∧
      (if 0 < r.2 then SchedulingStatus.misplaced else .scheduled) =
        settledStatus env work g s t := by
  have hmem (x : WorkPlacement) : x ∈ existingPlacements env s work g ↔ Holds s work g.id x.key x :=
    mem_existingPlacements_iff hns hname hid
  have hstored (x : WorkPlacement) (hx : x ∈ existingPlacements env s work g) :
      s.placement x.key = some x := existingPlacements_mem hx
  obtain ⟨hall, hcount⟩ := exec_updateWorkPlacements_exact existingPlacements_nodup hstored he hr
  have hupdates := (exec_updateWorkPlacements existingPlacements_nodup hstored
    (he.mono faulty_of_unfailing)).1
  have hholds (key : String × String) (x : WorkPlacement) (hx : Holds t work g.id key x) :
      ∃ y, Holds s work g.id key y ∧ Updated g (isMisplaced env g s x) y x ∧
        isMisplaced env g s y = isMisplaced env g s x ∧
        AlreadySet x.status.conditions (workPlacementConditions (isMisplaced env g s x)) := by
    obtain ⟨y, hy, rfl⟩ : ∃ y ∈ existingPlacements env s work g, y.key = key := by
      rcases hupdates.entry key with hsame | ⟨y, hy, hk, -⟩
      · have hold : Holds s work g.id key x := ⟨hsame ▸ hx.stored, hx.belongsTo, hx.groupID_eq⟩
        exact ⟨x, (hmem x).mpr (hold.key_eq ▸ hold), hold.key_eq⟩
      · exact ⟨y, hy, hk⟩
    obtain ⟨x', hx', hupdated, htold⟩ := hall y hy
    obtain rfl : x' = x := Option.some.inj (hx'.symm.trans hx.stored)
    have hsame : isMisplaced env g s x' = isMisplaced env g s y :=
      isMisplaced_congr rfl hupdated.target
    rw [← hsame] at hupdated htold
    exact ⟨y, (hmem y).mp hy, hupdated, hsame.symm, htold⟩
  have hkept (y : WorkPlacement) (hy : y ∈ existingPlacements env s work g) :
      ∃ x, Holds t work g.id y.key x ∧ isMisplaced env g s x = isMisplaced env g s y := by
    obtain ⟨x, hx, hupdated, -⟩ := hall y hy
    have hy' := (hmem y).mp hy
    exact ⟨x, ⟨hx, hupdated.belongsTo_iff.mpr hy'.belongsTo,
      hupdated.groupID_eq.trans hy'.groupID_eq⟩, isMisplaced_congr rfl hupdated.target⟩
  obtain ⟨y₀, hy₀⟩ := List.exists_mem_of_ne_nil _ hsome
  obtain ⟨x₀, hx₀, -⟩ := hkept y₀ hy₀
  have hdep (hd : work.isResourceRequest = false) : False := by simp [hd] at hrequest
  refine ⟨⟨?_, ?_, ?_, ?_, ?_, fun hd => (hdep hd).elim, fun hd => (hdep hd).elim,
    fun _ => ⟨_, x₀, hx₀⟩⟩, settledStatus_of ?_ ?_⟩
  · intro key y hy
    obtain ⟨x, hx, -⟩ := hkept y ((hmem y).mpr (hy.key_eq ▸ hy))
    exact ⟨x, hy.key_eq ▸ hx⟩
  · intro key x hx
    obtain ⟨y, -, hupdated, -⟩ := hholds key x hx
    rw [hupdated.spec]
  · intro key x hx
    obtain ⟨y, -, -, -, htold⟩ := hholds key x hx
    exact htold
  · intro key x hx
    obtain ⟨y, hy, hupdated, -⟩ := hholds key x hx
    have hmark : isMarkedMisplaced x ↔ isMisplaced env g s x = true ∨ isMarkedMisplaced y := by
      unfold isMarkedMisplaced
      rw [hupdated.labels]
      cases isMisplaced env g s x <;> simp
    rw [hmark]
    refine or_congr_right ⟨fun hm => ⟨hrequest, y, hy, hm⟩, ?_⟩
    rintro ⟨-, z, hz, hm⟩
    obtain rfl : z = y := Option.some.inj (hz.stored.symm.trans hy.stored)
    exact hm
  · intro key x hx hm
    obtain ⟨y, -, hupdated, -⟩ := hholds key x hx
    have hlabels := hupdated.labels
    rw [if_pos hm] at hlabels
    exact labelWorkplacementAsMisplaced_eq_self hlabels
  · have hnot : (if 0 < r.2 then SchedulingStatus.misplaced else .scheduled) ≠ .unscheduled := by
      split <;> simp
    exact ⟨fun hst => absurd hst hnot, fun hno => absurd ⟨_, x₀, hx₀⟩ hno⟩
  · have hst : (if 0 < r.2 then SchedulingStatus.misplaced else .scheduled) = .misplaced ↔
        0 < r.2 := by
      split_ifs with hpos <;> simp [hpos]
    rw [hst, hcount]
    constructor
    · rintro ⟨y, hy, hm⟩
      obtain ⟨x, hx, hsame⟩ := hkept y hy
      exact ⟨_, x, hx, hsame.trans hm⟩
    · rintro ⟨key, x, hx, hm⟩
      obtain ⟨y, hy, -, hsame, -⟩ := hholds key x hx
      exact ⟨y, (hmem y).mpr (hy.key_eq ▸ hy), hsame.trans hm⟩

theorem exec_reconcileWorkloadGroup_settled (hs : Tidy work s)
    (he : Exec (unfailing env) (reconcileWorkloadGroup env g work) s (.ok st) t) :
    GroupSettled env work g s t ∧ st = settledStatus env work g s t := by
  obtain ⟨a, u, hlist, hrest⟩ := exec_bind.mp he
  obtain ⟨b, v, hlist', hret⟩ := exec_bind.mp hlist
  obtain ⟨rfl, rfl⟩ := exec_listObjects_unfailing hlist'
  obtain ⟨rfl, rfl⟩ := hret
  change Exec (unfailing env) (if work.isResourceRequest &&
    !(existingPlacements env u work g).isEmpty then _ else placeWorkloadGroup env g work
      (existingPlacements env u work g)) u (.ok st) t at hrest
  split at hrest
  · next hcase =>
    simp only [Bool.and_eq_true, Bool.not_eq_true', List.isEmpty_eq_false_iff] at hcase
    obtain ⟨counts, w, hloop, hret⟩ := exec_bind.mp hrest
    dsimp only at hret
    split at hret
    · cases hret.1
    · next hzero =>
      obtain ⟨hst, rfl⟩ := hret
      obtain ⟨hsettled, hstatus⟩ := exec_updateWorkPlacements_settled hns hname hid hcase.1
        hcase.2 hloop (by simpa using hzero)
      exact ⟨hsettled, (Except.ok.inj hst).trans hstatus⟩
  · next hcase =>
    refine exec_placeWorkloadGroup_settled hns hname hid hs (fun hr => ?_) hrest
    simpa [hr] using hcase

end

/-! ### All groups -/

section

variable {s' t' : World}
  (hdest : s'.cluster.objects .destination = s.cluster.objects .destination)
  (hafter : ∀ key x, Holds t work g.id key x ↔ Holds t' work g.id key x)
include hdest hafter

theorem settledStatus_congr : settledStatus env work g s' t' = settledStatus env work g s t := by
  have hmis (x : WorkPlacement) : isMisplaced env g s' x = isMisplaced env g s x :=
    isMisplaced_congr hdest rfl
  classical
  refine if_congr ?_ rfl (if_congr ?_ rfl rfl)
  · exact exists₂_congr fun key x => and_congr (hafter key x).symm (by rw [hmis])
  · exact exists₂_congr fun key x => (hafter key x).symm

/-- A group is settled in the whole call as in its own part of it. -/
theorem GroupSettled.congr (hsettled : GroupSettled env work g s' t')
    (hbefore : ∀ key x, Holds s' work g.id key x ↔ Holds s work g.id key x) :
    GroupSettled env work g s t := by
  have hmis (x : WorkPlacement) : isMisplaced env g s' x = isMisplaced env g s x :=
    isMisplaced_congr hdest rfl
  have hchosen (m : Labels) : chosenDestinations env m s' = chosenDestinations env m s := by
    unfold chosenDestinations Cluster.listed
    rw [hdest]
  obtain ⟨hkept, hworkloads, htold, hmarked, hlabelled, hfixed, hcovered, hplaced⟩ := hsettled
  simp only [← hafter, hmis, hbefore] at hkept hworkloads htold hmarked hlabelled hfixed
  simp only [← hafter, hchosen] at hcovered hplaced
  exact ⟨hkept, hworkloads, htold, hmarked, hlabelled, hfixed, hcovered, hplaced⟩

end

/-- The IDs of the groups with this status. -/
noncomputable def idsWith (env : Externals) (work : Work) (s t : World) (st : SchedulingStatus)
    (groups : List WorkloadGroup) : List String :=
  (groups.filter fun g => settledStatus env work g s t = st).map WorkloadGroup.id

/-- Every group is settled, and the lists name those that are not where they belong. -/
theorem exec_reconcileWorkloadGroups_settled {groups : List WorkloadGroup}
    {unschedulable misplaced : List String} {r : Except WorkloadGroup (List String × List String)}
    (hns : work.metadata.ns ≠ "") (hname : isValidLabelValue work.metadata.name = true)
    (hid : ∀ g ∈ groups, isValidLabelValue g.id = true) (hd : DistinctPrefixes groups)
    (hs : Tidy work s) (hlast : Lasting work s)
    (he : Exec (unfailing env) (reconcileWorkloadGroups env work groups unschedulable misplaced)
      s r t) :
    (∀ g ∈ groups, GroupSettled env work g s t) ∧
      r = .ok (unschedulable ++ idsWith env work s t .unscheduled groups,
        misplaced ++ idsWith env work s t .misplaced groups) := by
  induction groups generalizing s unschedulable misplaced with
  | nil =>
    obtain ⟨rfl, rfl⟩ := he
    simp [idsWith]
  | cons g groups ih =>
    obtain ⟨a, u, hgroup, hrest⟩ := exec_bind.mp he
    have hid' := fun g' hg' => hid g' (List.mem_cons_of_mem g hg')
    have hg := hid g List.mem_cons_self
    have hlist (g' : WorkloadGroup) (hg' : g' ∈ g :: groups) : Listable work g' :=
      fun _ => ⟨hname, hid g' hg'⟩
    obtain ⟨st, rfl⟩ := succeeds_reconcileWorkloadGroup hs.unclaimed
      (fun _ x hx => hlast _ x ((mem_existingPlacements_iff hns hname hg).mp hx).stored
        ((mem_existingPlacements_iff hns hname hg).mp hx).belongsTo) hgroup
    have houtcome := exec_reconcileWorkloadGroup refines_unfailing hgroup
    have hu := hs.of_entries (fun g' hg' => hd.length g' (by simp_all)) houtcome.entry
    have hdest : u.cluster.objects .destination = s.cluster.objects .destination :=
      houtcome.others (by decide)
    obtain ⟨hsettled, hstatus⟩ := exec_reconcileWorkloadGroup_settled hns hname hg hs hgroup
    obtain ⟨lists, hlists⟩ : ∃ lists : List String × List String,
        (Exec (unfailing env) (reconcileWorkloadGroups env work groups lists.1 lists.2) u r t) ∧
        lists.1 = unschedulable ++ (if st = .unscheduled then [g.id] else []) ∧
        lists.2 = misplaced ++ (if st = .misplaced then [g.id] else []) := by
      cases st with
      | scheduled => exact ⟨(unschedulable, misplaced), hrest, by simp, by simp⟩
      | unscheduled => exact ⟨(unschedulable ++ [g.id], misplaced), hrest, by simp, by simp⟩
      | misplaced => exact ⟨(unschedulable, misplaced ++ [g.id]), hrest, by simp, by simp⟩
    obtain ⟨hloop, hfirst, hsecond⟩ := hlists
    obtain ⟨hall, hr⟩ := ih hid' hd.tail hu (houtcome.lasting hlast) hloop
    have hrun := exec_reconcileWorkloadGroups refines_unfailing hloop
    -- the rest of the groups leaves this one alone, and it left them alone
    have hafter (key : String × String) (x : WorkPlacement) :
        Holds t work g.id key x ↔ Holds u work g.id key x :=
      hrun.holds_iff hu hns (fun g' hg' => hlist g' (List.mem_cons_of_mem g hg')) hd.tail.length
        fun g' hg' => (hd.ne hg').symm
    have hbefore {g' : WorkloadGroup} (hg' : g' ∈ groups) (key : String × String)
        (x : WorkPlacement) : Holds u work g'.id key x ↔ Holds s work g'.id key x :=
      houtcome.holds_iff hs hns (hlist g List.mem_cons_self) (hd.length g List.mem_cons_self)
        (hd.ne hg')
    have hsame {g' : WorkloadGroup} : settledStatus env work g' u t = settledStatus env work g' s t :=
      settledStatus_congr hdest fun _ _ => Iff.rfl
    have hhead : st = settledStatus env work g s t :=
      hstatus.trans (settledStatus_congr rfl hafter)
    constructor
    · intro g' hg'
      rcases List.mem_cons.mp hg' with rfl | hg'
      · exact hsettled.congr rfl hafter fun _ _ => Iff.rfl
      · exact (hall g' hg').congr hdest (fun _ _ => Iff.rfl) (hbefore hg')
    · rw [hr, hfirst, hsecond, hhead]
      simp only [idsWith, hsame, List.filter_cons]
      cases settledStatus env work g s t <;> simp

end Kratix
