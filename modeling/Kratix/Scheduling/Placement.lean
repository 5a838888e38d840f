import Kratix.Scheduling.Effect

/-!
# The WorkPlacements that the scheduler writes

What one call of each writing function makes of the stored WorkPlacements, for
every handler whose outcomes are among those of `faulty`. A function that
reports no error has done all of its work; one that fails may have done a part.
-/

namespace Kratix

open Apiserver Effect

/-! ### Conditions -/

theorem findCondition_modify (conditions : List Condition) (new : Condition) {old : Condition}
    (h : findCondition conditions new.type = some old) :
    findCondition (conditions.modify (conditions.findIdx fun c => c.type = new.type)
      fun _ => new) new.type = some new := by
  induction conditions with
  | nil => cases h
  | cons c conditions ih =>
    by_cases hc : c.type = new.type
    · simp [findCondition, List.findIdx_cons, hc]
    · have hrest : findCondition conditions new.type = some old := by
        simpa [findCondition, hc] using h
      simpa [findCondition, List.findIdx_cons, hc] using ih hrest

theorem findCondition_modify_of_ne (conditions : List Condition) (new : Condition) {type : String}
    (h : type ≠ new.type) :
    findCondition (conditions.modify (conditions.findIdx fun c => c.type = new.type)
      fun _ => new) type = findCondition conditions type := by
  induction conditions with
  | nil => rfl
  | cons c conditions ih =>
    by_cases hc : c.type = new.type
    · simp [findCondition, List.findIdx_cons, hc, h.symm]
    · by_cases ht : c.type = type
      · simp [findCondition, List.findIdx_cons, ht, h]
      · simpa [findCondition, List.findIdx_cons, hc, ht] using ih

theorem findCondition_setStatusCondition (conditions : List Condition) (new : Condition) :
    ∃ c, findCondition (setStatusCondition conditions new).2 new.type = some c ∧
      c.status = new.status := by
  unfold setStatusCondition
  split
  · next h =>
    refine ⟨new, ?_, rfl⟩
    unfold findCondition at h ⊢
    rw [List.find?_append, h]
    simp
  · next old h =>
    split
    · next hsame =>
      simp only [Condition.hasSameState, Bool.and_eq_true, beq_iff_eq] at hsame
      exact ⟨old, h, hsame.1.1.2⟩
    · exact ⟨new, findCondition_modify conditions new h, rfl⟩

theorem findCondition_setStatusCondition_of_ne (conditions : List Condition) (new : Condition)
    {type : String} (h : type ≠ new.type) :
    findCondition (setStatusCondition conditions new).2 type = findCondition conditions type := by
  unfold setStatusCondition
  split
  · simp [findCondition, List.find?_append, h.symm]
  · split
    · rfl
    · exact findCondition_modify_of_ne conditions new h

theorem findCondition_setStatusConditions (conditions : List Condition) {first second : Condition}
    (h : first.type ≠ second.type) :
    ∃ c, findCondition (setStatusConditions conditions first second).2 first.type = some c ∧
      c.status = first.status := by
  have hfirst := findCondition_setStatusCondition conditions first
  unfold setStatusConditions
  split
  · next hset =>
    rw [hset] at hfirst
    exact hfirst
  · next hset =>
    rw [hset] at hfirst
    rw [findCondition_setStatusCondition_of_ne _ _ h]
    exact hfirst

/-- The status tells whether the WorkPlacement is still where it belongs. -/
def Reports (misplaced : Bool) (status : WorkPlacementStatus) : Prop :=
  ∃ c, findCondition status.conditions ConditionType.scheduleSucceeded = some c ∧
    c.status = if misplaced then .conditionFalse else .conditionTrue

theorem reports_setStatusConditions (misplaced : Bool) (conditions : List Condition)
    (versionID : String) :
    Reports misplaced ⟨(setStatusConditions conditions (workPlacementConditions misplaced).1
      (workPlacementConditions misplaced).2).2, versionID⟩ := by
  cases misplaced
  · exact findCondition_setStatusConditions conditions (by decide)
  · exact findCondition_setStatusConditions conditions (by decide)

/-! ### Single WorkPlacements -/

variable {env : Externals} {h : Handler signature World} {s t : World}

/-- The outcomes of the handler are possible ones. -/
def Refines (env : Externals) (h : Handler signature World) : Prop :=
  ∀ c s r t, h c s r t → faulty env c s r t

/-- The stored WorkPlacement of this namespace and name. -/
abbrev World.placement (s : World) (key : String × String) : Option WorkPlacement :=
  s.cluster.find .workPlacement key

/-- Only this WorkPlacement may be another one. -/
abbrev SetsPlacement (key : String × String) (v : Option WorkPlacement) (s t : World) : Prop :=
  Sets (S := scheme) .workPlacement key v s.cluster t.cluster

theorem setsPlacement_same {key : String × String} {v : Option WorkPlacement}
    (h : s.placement key = v) : SetsPlacement key v s s :=
  ⟨h, fun _ _ => rfl, fun _ _ => rfl⟩

/-- The status of one stored WorkPlacement may be another one afterwards. -/
theorem exec_updateWorkPlacementStatus {ns name : String} {misplaced : Bool} {r : Option Failure}
    (he : Exec (faulty env) (updateWorkPlacementStatus ns name misplaced) s r t) :
    ∃ st, SetsPlacement (ns, name) ((s.placement (ns, name)).map fun x => { x with status := st })
        s t ∧
      (r = none → (s.placement (ns, name)).isSome = true ∧ Reports misplaced st) := by
  obtain ⟨a, u, hget, hrest⟩ := exec_bind.mp he
  obtain ⟨rfl, hfound, -⟩ := exec_getObject hget
  cases a with
  | error e =>
    obtain ⟨rfl, rfl⟩ := hrest
    cases hf : t.placement (ns, name) with
    | none => exact ⟨{}, setsPlacement_same hf, by simp⟩
    | some x => exact ⟨x.status, setsPlacement_same hf, by simp⟩
  | ok stored =>
    have hf : u.placement (ns, name) = some stored := hfound stored rfl
    have hkey : stored.key = (ns, name) := (u.cluster.find_eq_some.mp hf).2
    have hreports := reports_setStatusConditions misplaced stored.status.conditions
      stored.status.versionID
    rw [hf]
    dsimp only at hrest
    split at hrest
    · next conditions hset =>
      obtain ⟨rfl, rfl⟩ := hrest
      have hsame : conditions = stored.status.conditions := by
        unfold setStatusConditions setStatusCondition at hset
        grind
      rw [hset, hsame] at hreports
      exact ⟨stored.status, setsPlacement_same hf, fun _ => ⟨rfl, hreports⟩⟩
    · next conditions hset =>
      rw [hset] at hreports
      obtain ⟨a, v, hupdate, hret⟩ := exec_bind.mp hrest
      rcases exec_updateStatus hupdate with ⟨rfl, hno⟩ | ⟨stored', c, hf', hrep, rfl, -⟩
      · refine ⟨stored.status, ?_⟩
        cases a with
        | error e =>
          obtain ⟨rfl, rfl⟩ := hret
          exact ⟨setsPlacement_same hf, by simp⟩
        | ok x => exact absurd rfl (hno x)
      · obtain rfl : stored' = stored := Option.some.inj (hf'.symm.trans (hkey ▸ hf))
        refine ⟨{ stored'.status with conditions := conditions }, ?_, fun _ => ⟨rfl, hreports⟩⟩
        have ht : t = u.withCluster c := by
          cases a <;> exact hret.2
        rw [ht, ← hkey]
        exact Sets.of_replaces hrep

/-! ### Writing the WorkPlacement of a group and a Destination -/

variable {work : Work} {g : WorkloadGroup}

def placementKey (work : Work) (g : WorkloadGroup) (d : String) : String × String :=
  (work.metadata.ns, workPlacementName work d g)

theorem placementKey_inj {d d' : String} (h : placementKey work g d = placementKey work g d') :
    d = d' := by
  have hname := congrArg String.toList (congrArg Prod.snd h)
  simp only [placementKey, workPlacementName, String.toList_append] at hname
  exact String.ext (List.append_cancel_left (List.append_cancel_right
    (List.append_cancel_right hname)))

/-- What the scheduler writes for a group and a Destination. -/
structure IsPlacement (work : Work) (g : WorkloadGroup) (d : String) (misplaced : Bool)
    (x : WorkPlacement) : Prop where
  key : x.key = placementKey work g d
  labels : x.metadata.labels =
    if misplaced then (workPlacementLabels work d g).insert Label.misscheduled "true"
    else workPlacementLabels work d g
  spec : x.spec = ⟨d, g.workloads, work.spec.promiseName, work.spec.resourceName, g.id⟩
  finalizer : Finalizer.repoCleanup ∈ x.metadata.finalizers
  owner : x.metadata.owner = some work.created
  ownerName : x.metadata.ownerName = work.metadata.name

theorem IsPlacement.writtenAs {d : String} {misplaced : Bool} {o x : WorkPlacement}
    (h : IsPlacement work g d misplaced o) (hw : WrittenAs o x) :
    IsPlacement work g d misplaced x where
  key := hw.key.trans h.key
  labels := hw.labels.trans h.labels
  spec := hw.spec.trans h.spec
  finalizer := hw.finalizers ▸ h.finalizer
  owner := hw.owner.trans h.owner
  ownerName := hw.ownerName.trans h.ownerName

/-- A stored WorkPlacement that the Work may write over, and what it became. -/
structure Adopts (work : Work) (stored x : WorkPlacement) : Prop where
  owned : stored.metadata.owner.isSome = true → stored.metadata.ownerName = work.metadata.name
  created : x.created = stored.created
  deleting : x.metadata.deleting = stored.metadata.deleting

theorem setControllerReference_eq_ok {σ τ : Type} {owner : ObjectMeta} {base o : Object σ τ}
    (h : setControllerReference owner base = .ok o) :
    (base.metadata.owner.isSome = true → base.metadata.ownerName = owner.name) ∧
      o = { base with metadata := { base.metadata with
        owner := some owner.creationTimestamp
        ownerName := owner.name } } := by
  unfold setControllerReference at h
  split at h
  · cases h
  · next howned =>
    refine ⟨fun ho => ?_, (Except.ok.inj h).symm⟩
    simpa [ho] using howned

theorem mutateWorkPlacement_eq_ok {d : String} {misplaced : Bool} {base o : WorkPlacement}
    (hbase : base.key = placementKey work g d)
    (h : mutateWorkPlacement g work d misplaced base = .ok o) :
    IsPlacement work g d misplaced o ∧
      (base.metadata.owner.isSome = true → base.metadata.ownerName = work.metadata.name) ∧
      o.created = base.created ∧ o.metadata.deleting = base.metadata.deleting := by
  obtain ⟨howned, rfl⟩ := setControllerReference_eq_ok h
  simp only [addFinalizer_eq] at howned
  simp only [addFinalizer_eq]
  have hmem : ∀ l : List String, Finalizer.repoCleanup ∈
      if Finalizer.repoCleanup ∈ l then l else l ++ [Finalizer.repoCleanup] := by
    intro l
    split <;> simp [*]
  cases misplaced
  · exact ⟨⟨hbase, rfl, rfl, hmem _, rfl, rfl⟩, howned, rfl, rfl⟩
  · exact ⟨⟨hbase, rfl, rfl, hmem _, rfl, rfl⟩, howned, rfl, rfl⟩

/-- The WorkPlacement of the group and the Destination, written over `old`. -/
structure PlacedOver (work : Work) (g : WorkloadGroup) (d : String) (misplaced : Bool)
    (old : Option WorkPlacement) (x : WorkPlacement) : Prop where
  isPlacement : IsPlacement work g d misplaced x
  adopts : ∀ stored, old = some stored → Adopts work stored x
  new : old = none → x.metadata.deleting = false

theorem PlacedOver.withStatus {d : String} {misplaced : Bool} {old : Option WorkPlacement}
    {x : WorkPlacement} (h : PlacedOver work g d misplaced old x) (st : WorkPlacementStatus) :
    PlacedOver work g d misplaced old { x with status := st } where
  isPlacement := h.isPlacement.writtenAs ⟨rfl, rfl, rfl, rfl, rfl, rfl, rfl⟩
  adopts := fun stored hs => ⟨(h.adopts stored hs).owned, (h.adopts stored hs).created,
    (h.adopts stored hs).deleting⟩
  new := h.new

/-- Creating or updating the WorkPlacement, whatever becomes of the request. -/
theorem exec_createOrUpdate {d : String} {misplaced : Bool} {r : Option Failure}
    (he : Exec (faulty env) (createOrUpdate .workPlacement
      ⟨{ ns := work.metadata.ns, name := workPlacementName work d g }, {}, {}⟩
      (mutateWorkPlacement g work d misplaced)) s r t) :
    t = s ∧ r ≠ none ∨ ∃ x, SetsPlacement (placementKey work g d) (some x) s t ∧
      PlacedOver work g d misplaced (s.placement (placementKey work g d)) x := by
  obtain ⟨a, u, hget, hrest⟩ := exec_bind.mp he
  obtain ⟨rfl, hfound, hmissing⟩ := exec_getObject hget
  cases a with
  | error e =>
    cases e with
    | notFound =>
      have hnone : u.placement (placementKey work g d) = none := hmissing rfl
      dsimp only at hrest
      split at hrest
      · obtain ⟨rfl, rfl⟩ := hrest
        exact Or.inl ⟨rfl, by simp⟩
      · next o ho =>
        obtain ⟨hplaced, -, -, hdel⟩ := mutateWorkPlacement_eq_ok rfl ho
        obtain ⟨b, v, hcreate, hret⟩ := exec_bind.mp hrest
        have ht : t = v := by cases b <;> exact hret.2
        subst ht
        rcases exec_createObject hcreate with ⟨rfl, hno⟩ | ⟨c, hadds, rfl, -⟩
        · cases b with
          | error e => exact Or.inl ⟨rfl, by rw [hret.1]; simp⟩
          | ok x => exact absurd rfl (hno x)
        · refine Or.inr ⟨u.cluster.stamp o, ?_, hplaced.writtenAs ⟨rfl, rfl, rfl, rfl, rfl, rfl, rfl⟩,
            by simp [hnone], fun _ => rfl⟩
          rw [← hplaced.key]
          exact Sets.of_adds hadds
    | alreadyExists | conflict | invalid | unavailable =>
      obtain ⟨rfl, rfl⟩ := hrest
      exact Or.inl ⟨rfl, by simp⟩
  | ok stored =>
    have hf : u.placement (placementKey work g d) = some stored := hfound stored rfl
    have hkey : stored.key = placementKey work g d := (u.cluster.find_eq_some.mp hf).2
    dsimp only at hrest
    split at hrest
    · obtain ⟨rfl, rfl⟩ := hrest
      exact Or.inl ⟨rfl, by simp⟩
    · next o ho =>
      obtain ⟨hplaced, howned, hcreated, hdel⟩ := mutateWorkPlacement_eq_ok hkey ho
      split at hrest
      · next heq =>
        obtain ⟨rfl, rfl⟩ := hrest
        subst heq
        refine Or.inr ⟨o, setsPlacement_same hf, hplaced, ?_, by simp [hf]⟩
        rw [hf]
        rintro stored ⟨⟩
        exact ⟨howned, rfl, rfl⟩
      · obtain ⟨b, v, hupdate, hret⟩ := exec_bind.mp hrest
        have ht : t = v := by cases b <;> exact hret.2
        subst ht
        rcases exec_updateObject hupdate with ⟨rfl, hno⟩ | ⟨stored', c, hf', hrep, rfl, -⟩
        · cases b with
          | error e => exact Or.inl ⟨rfl, by rw [hret.1]; simp⟩
          | ok x => exact absurd rfl (hno x)
        · obtain rfl : stored' = stored :=
            Option.some.inj (hf'.symm.trans (hplaced.key ▸ hf))
          have hsettle : (stored'.accept o).settle = some (stored'.accept o) :=
            Object.settle_of_finalizer (f := Finalizer.repoCleanup) hplaced.finalizer
          rw [hsettle] at hrep
          refine Or.inr ⟨stored'.accept o, hkey ▸ Sets.of_replaces hrep,
            hplaced.writtenAs ⟨hkey.trans hplaced.key.symm, rfl, rfl, rfl, rfl, rfl, rfl⟩, ?_,
            by simp [hf]⟩
          rw [hf]
          rintro stored ⟨⟩
          exact ⟨howned, rfl, rfl⟩

/-- Applying a WorkPlacement writes it or nothing; without an error its status
is up to date. -/
theorem exec_applyWorkplacement {d : String} {misplaced : Bool} {r : Option Failure}
    (he : Exec (faulty env) (applyWorkplacement g work d misplaced) s r t) :
    t = s ∧ r ≠ none ∨ ∃ x, SetsPlacement (placementKey work g d) (some x) s t ∧
      PlacedOver work g d misplaced (s.placement (placementKey work g d)) x ∧
      (r = none → Reports misplaced x.status) := by
  obtain ⟨a, u, hcreate, hrest⟩ := exec_bind.mp he
  cases a with
  | some e =>
    obtain ⟨rfl, rfl⟩ := hrest
    rcases exec_createOrUpdate hcreate with ⟨rfl, -⟩ | ⟨x, hset, hplaced⟩
    · exact Or.inl ⟨rfl, by simp⟩
    · exact Or.inr ⟨x, hset, hplaced, by simp⟩
  | none =>
    rcases exec_createOrUpdate hcreate with ⟨-, hno⟩ | ⟨x, hset, hplaced⟩
    · exact absurd rfl hno
    · obtain ⟨st, hstatus, hreports⟩ := exec_updateWorkPlacementStatus hrest
      have hx : u.placement (placementKey work g d) = some x := hset.self
      rw [show u.placement (work.metadata.ns, workPlacementName work d g) = some x from hx] at hstatus
      exact Or.inr ⟨{ x with status := st }, hset.trans hstatus, hplaced.withStatus st,
        fun hr => (hreports hr).2⟩

/-! ### All Destinations of a group -/

/-- Each WorkPlacement is as before, or was written for one of the Destinations. -/
structure Applies (work : Work) (g : WorkloadGroup) (misplaced : String → Bool)
    (names : List String) (s t : World) : Prop where
  entry : ∀ key, t.placement key = s.placement key ∨ ∃ d ∈ names, key = placementKey work g d ∧
    ∃ x, t.placement key = some x ∧ PlacedOver work g d (misplaced d) (s.placement key) x
  others : ∀ k, k ≠ .workPlacement → t.cluster.objects k = s.cluster.objects k

theorem exec_applyWorkplacements {targets : StringMap Bool} {names : List String}
    {r : Option Failure} (hnames : names.Nodup)
    (he : Exec (faulty env) (applyWorkplacements g work targets names) s r t) :
    Applies work g (fun d => (targets.lookup d).getD false) names s t ∧
      (r = none → ∀ d ∈ names, ∃ x, t.placement (placementKey work g d) = some x ∧
        PlacedOver work g d ((targets.lookup d).getD false)
          (s.placement (placementKey work g d)) x ∧
        Reports ((targets.lookup d).getD false) x.status) := by
  induction names generalizing s with
  | nil =>
    obtain ⟨rfl, rfl⟩ := he
    exact ⟨⟨fun key => Or.inl rfl, fun k _ => rfl⟩, by simp⟩
  | cons d names ih =>
    obtain ⟨hd, hnames⟩ := List.nodup_cons.mp hnames
    obtain ⟨a, u, happly, hrest⟩ := exec_bind.mp he
    have hself : ∀ {x}, SetsPlacement (placementKey work g d) (some x) s u →
        PlacedOver work g d ((targets.lookup d).getD false)
          (s.placement (placementKey work g d)) x →
        Applies work g (fun d => (targets.lookup d).getD false) [d] s u := by
      intro x hset hplaced
      refine ⟨fun key => ?_, hset.others⟩
      by_cases hk : key = placementKey work g d
      · subst hk
        exact Or.inr ⟨d, by simp, rfl, x, hset.self, hplaced⟩
      · exact Or.inl (hset.other key hk)
    cases a with
    | some e =>
      obtain ⟨rfl, rfl⟩ := hrest
      refine ⟨?_, by simp⟩
      rcases exec_applyWorkplacement happly with ⟨rfl, -⟩ | ⟨x, hset, hplaced, -⟩
      · exact ⟨fun key => Or.inl rfl, fun k _ => rfl⟩
      · refine ⟨fun key => ?_, hset.others⟩
        rcases (hself hset hplaced).entry key with hsame | ⟨d', hd', hx⟩
        · exact Or.inl hsame
        · exact Or.inr ⟨d', by simp_all, hx⟩
    | none =>
      obtain ⟨hrun, hall⟩ := ih hnames hrest
      rcases exec_applyWorkplacement happly with ⟨-, hno⟩ | ⟨x, hset, hplaced, hreports⟩
      · exact absurd rfl hno
      -- the other Destinations have other names, so this one's entry stays
      · have hne : ∀ d' ∈ names, placementKey work g d' ≠ placementKey work g d := by
          intro d' hd' heq
          exact hd (placementKey_inj heq ▸ hd')
        have hkeep : t.placement (placementKey work g d) = some x := by
          rcases hrun.entry (placementKey work g d) with hsame | ⟨d', hd', hk, -⟩
          · exact hsame.trans hset.self
          · exact absurd hk.symm (hne d' hd')
        refine ⟨⟨fun key => ?_, fun k hk => (hrun.others k hk).trans (hset.others k hk)⟩, ?_⟩
        · by_cases hk : key = placementKey work g d
          · subst hk
            exact Or.inr ⟨d, by simp, rfl, x, hkeep, hplaced⟩
          · have hsame : u.placement key = s.placement key := hset.other key hk
            rcases hrun.entry key with h | ⟨d', hd', hk', y, hy, hover⟩
            · exact Or.inl (h.trans hsame)
            · exact Or.inr ⟨d', by simp [hd'], hk', y, hy, hsame ▸ hover⟩
        · intro hr d' hd'
          rcases List.mem_cons.mp hd' with rfl | hd'
          · exact ⟨x, hkeep, hplaced, hreports rfl⟩
          · obtain ⟨y, hy, hover, hrep⟩ := hall hr d' hd'
            rw [show u.placement (placementKey work g d') = s.placement (placementKey work g d')
              from hset.other _ (hne d' hd')] at hover
            exact ⟨y, hy, hover, hrep⟩

theorem lookup_foldl_insert_false (names : List String) (m : StringMap Bool) (d : String) :
    (names.foldl (fun m dest => m.insert dest false) m).lookup d =
      if d ∈ names then some false else m.lookup d := by
  induction names generalizing m with
  | nil => simp
  | cons name names ih =>
    rw [List.foldl_cons, ih]
    by_cases hd : d = name
    · subst hd
      simp
    · simp [hd, AList.lookup_insert_ne hd]

theorem lookup_foldl_targets (existing : List WorkPlacement) (m : StringMap Bool) (d : String) :
    (existing.foldl (fun m wp =>
      let dest := wp.spec.targetDestinationName
      if (m.lookup dest).isSome then m else m.insert dest true) m).lookup d =
      if (m.lookup d).isNone ∧ ∃ x ∈ existing, x.spec.targetDestinationName = d then some true
      else m.lookup d := by
  induction existing generalizing m with
  | nil => simp
  | cons x existing ih =>
    rw [List.foldl_cons, ih]
    by_cases hd : d = x.spec.targetDestinationName
    · subst hd
      by_cases hm : (m.lookup x.spec.targetDestinationName).isSome = true
      · rw [Option.isSome_iff_exists] at hm
        obtain ⟨b, hb⟩ := hm
        simp [hb]
      · have hnone : m.lookup x.spec.targetDestinationName = none := by simpa using hm
        simp [hnone]
    · have hlookup : ∀ b : Bool, (if b = true then m
          else m.insert x.spec.targetDestinationName true).lookup d = m.lookup d := by
        intro b
        cases b
        · exact AList.lookup_insert_ne hd
        · rfl
      dsimp only
      rw [hlookup]
      simp [Ne.symm hd]

/-- The names that are selected, and the targets of the existing WorkPlacements. -/
theorem lookup_targetDestinationMap (names : List String) (existing : List WorkPlacement)
    (d : String) :
    (targetDestinationMap names existing).lookup d =
      if d ∈ names then some false
      else if ∃ x ∈ existing, x.spec.targetDestinationName = d then some true else none := by
  unfold targetDestinationMap
  dsimp only
  rw [lookup_foldl_targets, lookup_foldl_insert_false]
  by_cases hd : d ∈ names
  · simp [hd]
  · simp [hd]

theorem Applies.congr {misplaced misplaced' : String → Bool} {names names' : List String}
    (h : Applies work g misplaced names s t) (hnames : ∀ d ∈ names, d ∈ names')
    (hmis : ∀ d ∈ names, misplaced d = misplaced' d) : Applies work g misplaced' names' s t where
  entry := by
    intro key
    rcases h.entry key with hsame | ⟨d, hd, hk, x, hx, hplaced⟩
    · exact Or.inl hsame
    · exact Or.inr ⟨d, hnames d hd, hk, x, hx, hmis d hd ▸ hplaced⟩
  others := h.others

theorem Applies.refl (work : Work) (g : WorkloadGroup) (misplaced : String → Bool)
    (names : List String) (s : World) : Applies work g misplaced names s s :=
  ⟨fun _ => Or.inl rfl, fun _ _ => rfl⟩

/-- The group is placed on the selected Destinations, and stays on those where
it is already. -/
theorem exec_placeWorkloadGroup (hh : Refines env h) {existing : List WorkPlacement}
    {r : Except Failure SchedulingStatus}
    (he : Exec h (placeWorkloadGroup env g work existing) s r t) :
    ∃ names targets,
      Exec h (getTargetDestinationNames env (resolveDestinationSelectorsForWorkloadGroup g) work)
        s names s ∧
      (∀ d, d ∈ targets ↔ d ∈ names ∨ ∃ x ∈ existing, x.spec.targetDestinationName = d) ∧
      Applies work g (fun d => !names.contains d) targets s t ∧
      ∀ st, r = .ok st → ∀ d ∈ targets, ∃ x, t.placement (placementKey work g d) = some x ∧
        PlacedOver work g d (!names.contains d) (s.placement (placementKey work g d)) x ∧
        Reports (!names.contains d) x.status := by
  obtain ⟨names, u, hnames, hrest⟩ := exec_bind.mp he
  obtain ⟨rfl, -⟩ := exec_getTargetDestinationNames (hnames.mono hh)
  dsimp only at hrest
  have hmem : ∀ d, d ∈ (targetDestinationMap names existing).keys ↔
      d ∈ names ∨ ∃ x ∈ existing, x.spec.targetDestinationName = d := by
    intro d
    rw [← AList.mem_keys, ← AList.lookup_isSome, lookup_targetDestinationMap]
    by_cases hd : d ∈ names
    · simp [hd]
    · by_cases hx : ∃ x ∈ existing, x.spec.targetDestinationName = d <;> simp [hd, hx]
  have hmis : ∀ d ∈ (targetDestinationMap names existing).keys,
      ((targetDestinationMap names existing).lookup d).getD false = !names.contains d := by
    intro d hd
    rw [lookup_targetDestinationMap]
    by_cases hn : d ∈ names
    · simp [hn]
    · simp [hn, ((hmem d).mp hd).resolve_left hn]
  refine ⟨names, (targetDestinationMap names existing).keys, hnames, hmem, ?_⟩
  split at hrest
  · next hempty =>
    obtain ⟨rfl, rfl⟩ := hrest
    refine ⟨Applies.refl _ _ _ _ _, fun st _ d hd => ?_⟩
    rw [AList.keys, List.keys, List.isEmpty_iff.mp hempty] at hd
    cases hd
  · obtain ⟨a, v, happly, hret⟩ := exec_bind.mp hrest
    obtain ⟨order, w, horder, horder'⟩ := exec_bind.mp happly
    obtain ⟨b, w', hloop, hret'⟩ := exec_bind.mp horder'
    obtain ⟨hperm, rfl⟩ := hh _ _ _ _ (exec_perform.mp horder)
    have hnodup : order.Nodup := hperm.nodup_iff.mpr (AList.keys_nodup _)
    obtain ⟨hrun, hall⟩ := exec_applyWorkplacements hnodup (hloop.mono hh)
    have hmis' : ∀ d ∈ order, ((targetDestinationMap names existing).lookup d).getD false =
        !names.contains d := fun d hd => hmis d (hperm.mem_iff.mp hd)
    have ht : t = w' := by
      have hv : v = w' := by cases b <;> exact hret'.2
      rw [← hv]
      cases a <;> exact hret.2
    subst ht
    refine ⟨hrun.congr (fun d hd => hperm.mem_iff.mp hd) hmis', fun st hr d hd => ?_⟩
    have hb : b = none := by
      cases b with
      | none => rfl
      | some e =>
        rw [hret'.1] at hret
        exact absurd (hr.symm.trans hret.1) (by simp)
    obtain ⟨x, hx⟩ := hall hb d (hperm.mem_iff.mpr hd)
    rw [hmis' d (hperm.mem_iff.mpr hd)] at hx
    exact ⟨x, hx⟩

/-! ### Updating the WorkPlacement of a resource request -/

/-- The WorkPlacement with the workloads of the group, perhaps marked as misplaced. -/
structure Updated (g : WorkloadGroup) (misplaced : Bool) (x x' : WorkPlacement) : Prop where
  key : x'.key = x.key
  created : x'.created = x.created
  labels : x'.metadata.labels =
    if misplaced then x.metadata.labels.insert Label.misscheduled "true" else x.metadata.labels
  finalizers : x'.metadata.finalizers = x.metadata.finalizers
  owner : x'.metadata.owner = x.metadata.owner
  ownerName : x'.metadata.ownerName = x.metadata.ownerName
  deleting : x'.metadata.deleting = x.metadata.deleting
  spec : x'.spec = { x.spec with workloads := g.workloads }

/-- The stored WorkPlacement is as before, updated, or gone because it was being deleted. -/
def UpdatedTo (g : WorkloadGroup) (x : WorkPlacement) (v : Option WorkPlacement) : Prop :=
  v = some x ∨ (v = none ∧ x.metadata.deleting = true) ∨ ∃ mis x', v = some x' ∧ Updated g mis x x'

theorem exec_updateWorkPlacement {x : WorkPlacement} {r : Except Failure Bool}
    (hx : s.placement x.key = some x)
    (he : Exec (faulty env) (updateWorkPlacement env g x) s r t) :
    ∃ v, SetsPlacement x.key v s t ∧ UpdatedTo g x v ∧
      ∀ mis, r = .ok mis → ∃ x', v = some x' ∧ Updated g mis x x' ∧ Reports mis x'.status := by
  obtain ⟨ds, u, hdest, hrest⟩ := exec_bind.mp he
  obtain ⟨rfl, -⟩ := exec_getDestinationsForWorkloadGroup hdest
  dsimp only at hrest
  generalize hmis : (!ds.any fun dest =>
    dest.metadata.name == x.spec.targetDestinationName) = mis at hrest
  generalize ho : (if mis then labelWorkplacementAsMisplaced x else x) = o at hrest
  have hkey : o.key = x.key := by
    subst ho
    cases mis <;> rfl
  have hupdated : ∀ st, Updated g mis x
      { x.accept { o with spec := { o.spec with workloads := g.workloads } } with status := st } := by
    intro st
    subst ho
    cases mis
    · exact ⟨rfl, rfl, rfl, rfl, rfl, rfl, rfl, rfl⟩
    · exact ⟨rfl, rfl, rfl, rfl, rfl, rfl, rfl, rfl⟩
  obtain ⟨a, v, hupdate, hrest'⟩ := exec_bind.mp hrest
  rcases exec_updateObject hupdate with ⟨rfl, hno⟩ | ⟨stored, c, hf, hrep, rfl, -⟩
  · cases a with
    | ok y => exact absurd rfl (hno y)
    | error e =>
      obtain ⟨rfl, rfl⟩ := hrest'
      exact ⟨some x, setsPlacement_same hx, Or.inl rfl, by simp⟩
  · have hf' : u.placement o.key = some stored := hf
    rw [hkey, hx] at hf'
    obtain rfl : x = stored := Option.some.inj hf'
    have hset := Sets.of_replaces hrep
    cases hsettle : (x.accept { o with spec := { o.spec with workloads := g.workloads } }).settle with
    | none =>
      have hdel : x.metadata.deleting = true := by
        unfold Object.settle at hsettle
        split at hsettle
        · next h => exact (Bool.and_eq_true _ _ ▸ h).1
        · cases hsettle
      rw [hsettle] at hset
      cases a with
      | error e =>
        obtain ⟨rfl, rfl⟩ := hrest'
        exact ⟨none, hset, Or.inr (Or.inl ⟨rfl, hdel⟩), by simp⟩
      | ok y =>
        obtain ⟨b, w, hstatus, hret⟩ := exec_bind.mp hrest'
        obtain ⟨st, hset', hdone⟩ := exec_updateWorkPlacementStatus hstatus
        have hmissing : (u.withCluster c).placement (o.metadata.ns, o.metadata.name) = none :=
          (congrArg (u.withCluster c).placement hkey).trans hset.self
        rw [hmissing] at hset' hdone
        have ht : t = w := by cases b <;> exact hret.2
        subst ht
        refine ⟨none, hset.trans (hkey ▸ hset'), Or.inr (Or.inl ⟨rfl, hdel⟩), fun m hm => ?_⟩
        cases b with
        | none => exact absurd (hdone rfl).1 (by simp)
        | some e => exact absurd (hm.symm.trans hret.1) (by simp)
    | some y =>
      obtain rfl := Object.settle_eq_some hsettle
      rw [hsettle] at hset
      cases a with
      | error e =>
        obtain ⟨rfl, rfl⟩ := hrest'
        exact ⟨_, hset, Or.inr (Or.inr ⟨mis, _, rfl, hupdated _⟩), by simp⟩
      | ok y =>
        obtain ⟨b, w, hstatus, hret⟩ := exec_bind.mp hrest'
        obtain ⟨st, hset', hdone⟩ := exec_updateWorkPlacementStatus hstatus
        have hfound : (u.withCluster c).placement (o.metadata.ns, o.metadata.name) =
            some (x.accept { o with spec := { o.spec with workloads := g.workloads } }) :=
          (congrArg (u.withCluster c).placement hkey).trans hset.self
        rw [hfound] at hset'
        have ht : t = w := by cases b <;> exact hret.2
        subst ht
        refine ⟨_, hset.trans (hkey ▸ hset'), Or.inr (Or.inr ⟨mis, _, rfl, hupdated st⟩),
          fun m hm => ?_⟩
        cases b with
        | none =>
          obtain rfl : m = mis := Except.ok.inj (hm.symm.trans hret.1)
          exact ⟨_, rfl, hupdated st, (hdone rfl).2⟩
        | some e => exact absurd (hm.symm.trans hret.1) (by simp)

end Kratix
