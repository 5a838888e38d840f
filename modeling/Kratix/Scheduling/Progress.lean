import Kratix.Scheduling.Invariant

/-!
# The scheduler comes through

From a tidy cluster, with names that may be used as label values, there is a
call of the scheduler in which no request fails.
-/

namespace Kratix

open Apiserver Effect

variable {env : Externals} {s t : World} {work : Work} {g : WorkloadGroup}

/-- Nothing stands in the way of scheduling the Work. -/
structure Schedulable (work : Work) (s : World) : Prop where
  ns : work.metadata.ns ≠ ""
  name : isValidLabelValue work.metadata.name = true
  labels : work.metadata.labels.Valid
  tidy : Tidy work s
  live : Live work s
  destinations : ∀ d ∈ s.cluster.objects .destination, isValidLabelValue d.metadata.name = true
  targets : ∀ key x, s.placement key = some x → BelongsTo work x →
    isValidLabelValue x.spec.targetDestinationName = true

namespace Schedulable

theorem of_entries {groups : List WorkloadGroup} (hs : Schedulable work s)
    (hlen : ∀ g ∈ groups, 5 ≤ g.id.length)
    (hentry : ∀ key, EntryChange work groups (s.placement key) (t.placement key))
    (hdest : t.cluster.objects .destination = s.cluster.objects .destination) :
    Schedulable work t where
  ns := hs.ns
  name := hs.name
  labels := hs.labels
  tidy := hs.tidy.of_entries hlen hentry
  live := Live.of_entries hs.tidy hs.live hentry
  destinations := by
    rw [hdest]
    exact hs.destinations
  targets := by
    intro key x' hx' hbelongs
    rcases (hentry key).origin hx' with ⟨x, hx, halike, -⟩ | ⟨g, hg, d, mis, hplaced⟩
    · rw [halike.target]
      exact hs.targets key x hx (halike.belongsTo_iff.mp hbelongs)
    · rw [hplaced.isPlacement.target]
      apply isValidLabelValue_of_lookup (t.cluster.find_eq_some.mp hx').1
      rw [hplaced.isPlacement.lookup (show Label.targetDestinationName ≠ _ by decide),
        lookup_workPlacementLabels]
      rfl

theorem valid_labels (hs : Schedulable work s) (hid : isValidLabelValue g.id = true) {d : String}
    (hd : isValidLabelValue d = true) {misplaced : Bool} {o : WorkPlacement}
    (ho : IsPlacement work g d misplaced o) : o.metadata.labels.Valid := by
  have hpipeline : isValidLabelValue (work.metadata.labels.value Label.pipelineName) = true := by
    unfold Labels.value
    cases hv : work.metadata.labels.lookup Label.pipelineName with
    | none => rfl
    | some v => exact (Labels.valid_iff.mp hs.labels _ v hv).2
  rw [Labels.valid_iff]
  intro key v hv
  by_cases hkey : key = Label.misscheduled
  · subst hkey
    refine ⟨by decide, ?_⟩
    rw [ho.labels] at hv
    cases misplaced
    · rw [if_neg (by simp), lookup_workPlacementLabels] at hv
      exact absurd hv (Option.some_ne_none _ ∘ Eq.symm)
    · rw [if_pos rfl, AList.lookup_insert] at hv
      cases hv
      decide
  · rw [ho.lookup hkey, lookup_workPlacementLabels] at hv
    split_ifs at hv with h₁ h₂ h₃ h₄
    · cases hv
      exact ⟨by rw [h₁]; decide, hpipeline⟩
    · cases hv
      exact ⟨by rw [h₂]; decide, hs.name⟩
    · cases hv
      exact ⟨by rw [h₃]; decide, hid⟩
    · cases hv
      exact ⟨by rw [h₄]; decide, hd⟩

end Schedulable

/-! ### Placing -/

theorem exists_updateWorkPlacementStatus (env : Externals) {ns name : String} (misplaced : Bool)
    (hstored : (s.placement (ns, name)).isSome = true) :
    ∃ t, Exec (unfailing env) (updateWorkPlacementStatus ns name misplaced) s none t := by
  obtain ⟨x, hx⟩ := Option.isSome_iff_exists.mp hstored
  have hkey : x.key = (ns, name) := (s.cluster.find_eq_some.mp hx).2
  have hget := answers_getObject env (k := .workPlacement) hx
  cases hset : setStatusConditions x.status.conditions (workPlacementConditions misplaced).1
      (workPlacementConditions misplaced).2 with
  | mk changed conditions =>
    cases changed with
    | false =>
      refine ⟨s, exec_bind.mpr ⟨_, s, hget, ?_⟩⟩
      dsimp only
      rw [hset]
      exact ⟨rfl, rfl⟩
    | true =>
      obtain ⟨t, hupdate⟩ := answers_updateStatus env (k := .workPlacement)
        (o := { x with status := { x.status with conditions := conditions } })
        (hkey ▸ hx : s.cluster.find .workPlacement x.key = some x)
      refine ⟨t, exec_bind.mpr ⟨_, s, hget, ?_⟩⟩
      dsimp only
      rw [hset]
      exact exec_bind.mpr ⟨_, t, hupdate, rfl, rfl⟩

theorem exists_applyWorkplacement (env : Externals) (hs : Schedulable work s)
    (hid : isValidLabelValue g.id = true) {d : String} (hd : isValidLabelValue d = true) (misplaced : Bool) :
    ∃ t, Exec (unfailing env) (applyWorkplacement g work d misplaced) s none t := by
  -- first the write, then the status of what is stored then
  suffices hwrite : ∃ u, Exec (unfailing env) (createOrUpdate .workPlacement
      ⟨{ ns := work.metadata.ns, name := workPlacementName work d g }, {}, {}⟩
      (mutateWorkPlacement g work d misplaced)) s none u by
    obtain ⟨u, hwrite⟩ := hwrite
    rcases exec_createOrUpdate (hwrite.mono faulty_of_unfailing) with ⟨-, hno⟩ | ⟨x, hset, -⟩
    · exact absurd rfl hno
    · have hx : u.placement (work.metadata.ns, workPlacementName work d g) = some x := hset.self
      obtain ⟨t, hstatus⟩ := exists_updateWorkPlacementStatus env misplaced
        (by rw [hx]; rfl : (u.placement _).isSome = true)
      exact ⟨t, exec_bind.mpr ⟨none, u, hwrite, hstatus⟩⟩
  cases hf : s.placement (placementKey work g d) with
  | none =>
    obtain ⟨o, ho⟩ : ∃ o, mutateWorkPlacement g work d misplaced
        ⟨{ ns := work.metadata.ns, name := workPlacementName work d g }, {}, {}⟩ = .ok o :=
      exists_mutateWorkPlacement (by simp)
    obtain ⟨hplaced, -⟩ := mutateWorkPlacement_eq_ok rfl ho
    obtain ⟨u, hcreate⟩ := answers_createObject env (k := .workPlacement)
      (hplaced.key ▸ hf : s.cluster.find .workPlacement o.key = none)
      (hs.valid_labels hid hd hplaced) (hplaced.belongsTo.1 ▸ hs.ns)
    refine ⟨u, exec_bind.mpr ⟨_, s, answers_getObject_missing env hf, ?_⟩⟩
    dsimp only
    rw [ho]
    exact exec_bind.mpr ⟨_, u, hcreate, rfl, rfl⟩
  | some stored =>
    have hkey : stored.key = placementKey work g d := (s.cluster.find_eq_some.mp hf).2
    obtain ⟨hbelongs, howner⟩ := hs.tidy.reserved g d stored hf
    obtain ⟨o, ho⟩ : ∃ o, mutateWorkPlacement g work d misplaced stored = .ok o :=
      exists_mutateWorkPlacement fun _ => howner
    obtain ⟨hplaced, -⟩ := mutateWorkPlacement_eq_ok hkey ho
    by_cases heq : o = stored
    · refine ⟨s, exec_bind.mpr ⟨_, s, answers_getObject env hf, ?_⟩⟩
      dsimp only
      rw [ho]
      dsimp only
      rw [if_pos heq]
      exact ⟨rfl, rfl⟩
    · obtain ⟨u, hupdate⟩ := answers_updateObject env (k := .workPlacement)
        (hplaced.key ▸ hf : s.cluster.find .workPlacement o.key = some stored)
        (hs.valid_labels hid hd hplaced) (hs.live _ stored hf hbelongs)
      refine ⟨u, exec_bind.mpr ⟨_, s, answers_getObject env hf, ?_⟩⟩
      dsimp only
      rw [ho]
      dsimp only
      rw [if_neg heq]
      exact exec_bind.mpr ⟨_, u, hupdate, rfl, rfl⟩

theorem Applies.entryChange {misplaced : String → Bool} {names : List String}
    (happlies : Applies work g misplaced names s t) (key : String × String) :
    EntryChange work [g] (s.placement key) (t.placement key) := by
  rcases happlies.entry key with hsame | ⟨d, -, -, x, hx, hplaced⟩
  · exact .same hsame
  · exact .placed g d _ x (by simp) hx hplaced

theorem exists_applyWorkplacements (env : Externals) (hs : Schedulable work s)
    (hlen : 5 ≤ g.id.length) (hid : isValidLabelValue g.id = true) (targets : StringMap Bool)
    {names : List String} (hnames : ∀ d ∈ names, isValidLabelValue d = true) :
    ∃ t, Exec (unfailing env) (applyWorkplacements g work targets names) s none t := by
  induction names generalizing s with
  | nil => exact ⟨s, rfl, rfl⟩
  | cons d names ih =>
    obtain ⟨u, happly⟩ := exists_applyWorkplacement env hs hid (hnames d (by simp))
      ((targets.lookup d).getD false)
    have hone : Exec (faulty env) (applyWorkplacements g work targets [d]) s none u :=
      exec_bind.mpr ⟨none, u, happly.mono faulty_of_unfailing, rfl, rfl⟩
    obtain ⟨happlies, -⟩ := exec_applyWorkplacements (by simp) hone
    obtain ⟨t, hrest⟩ := ih (hs.of_entries (by simpa using hlen) happlies.entryChange
      (happlies.others _ (by decide))) fun d hd => hnames d (by simp [hd])
    exact ⟨t, exec_bind.mpr ⟨none, u, happly, hrest⟩⟩

theorem exists_getDestinationsForWorkloadGroup (env : Externals) (m : Labels) (s : World) :
    Exec (unfailing env) (getDestinationsForWorkloadGroup env m) s
      ((s.cluster.listed .destination "" (destinationSelector env m)).filter (isAvailable m)) s :=
  exec_bind.mpr ⟨_, s, answers_listObjects env _ _ _ s, rfl, rfl⟩

theorem exists_getTargetDestinationNames (env : Externals) (m : Labels) (work : Work) (s : World) :
    ∃ names, Exec (unfailing env) (getTargetDestinationNames env m work) s names s := by
  have hdest := exists_getDestinationsForWorkloadGroup env m s
  rcases hd : (s.cluster.listed .destination "" (destinationSelector env m)).filter
    (isAvailable m) with _ | ⟨d, ds⟩
  · rw [hd] at hdest
    exact ⟨[], exec_bind.mpr ⟨_, s, hdest, rfl, rfl⟩⟩
  · rw [hd] at hdest
    by_cases hr : work.isResourceRequest = true
    · refine ⟨[d.metadata.name], exec_bind.mpr ⟨_, s, hdest, ?_⟩⟩
      dsimp only
      rw [if_pos hr]
      exact exec_bind.mpr ⟨(0 : ℕ), s, exec_perform.mpr ⟨⟨Nat.succ_pos _, rfl⟩, trivial⟩, rfl, rfl⟩
    · refine ⟨(d :: ds).map fun d => d.metadata.name, exec_bind.mpr ⟨_, s, hdest, ?_⟩⟩
      dsimp only
      rw [if_neg hr]
      exact ⟨rfl, rfl⟩

theorem exists_placeWorkloadGroup (env : Externals) (hs : Schedulable work s)
    (hlen : 5 ≤ g.id.length) (hid : isValidLabelValue g.id = true) {existing : List WorkPlacement}
    (hexisting : ∀ x ∈ existing, isValidLabelValue x.spec.targetDestinationName = true) :
    ∃ r t, Exec (unfailing env) (placeWorkloadGroup env g work existing) s r t := by
  obtain ⟨names, hnames⟩ := exists_getTargetDestinationNames env
    (resolveDestinationSelectorsForWorkloadGroup g) work s
  obtain ⟨-, hsel⟩ := exec_getTargetDestinationNames (hnames.mono faulty_of_unfailing)
  have hvalid : ∀ d ∈ (targetDestinationMap names existing).keys, isValidLabelValue d = true := by
    intro d hd
    rw [← AList.mem_keys, ← AList.lookup_isSome, lookup_targetDestinationMap] at hd
    split_ifs at hd with hn hx
    · obtain ⟨dest, hmem, rfl, -⟩ := hsel d hn
      exact hs.destinations dest hmem
    · obtain ⟨x, hx, rfl⟩ := hx
      exact hexisting x hx
    · cases hd
  by_cases hempty : (targetDestinationMap names existing).entries.isEmpty = true
  · refine ⟨.ok .unscheduled, s, exec_bind.mpr ⟨names, s, hnames, ?_⟩⟩
    dsimp only
    rw [if_pos hempty]
    exact ⟨rfl, rfl⟩
  · obtain ⟨t, hloop⟩ := exists_applyWorkplacements env hs hlen hid
      (targetDestinationMap names existing) hvalid
    refine ⟨.ok (if (targetDestinationMap names existing).entries.any fun e => e.2 then .misplaced
      else .scheduled), t, exec_bind.mpr ⟨names, s, hnames, ?_⟩⟩
    dsimp only
    rw [if_neg hempty]
    exact exec_bind.mpr ⟨_, t, exec_bind.mpr ⟨_, s,
      exec_perform.mpr ⟨⟨List.Perm.refl _, rfl⟩, trivial⟩,
      exec_bind.mpr ⟨none, t, hloop, rfl, rfl⟩⟩, rfl, rfl⟩

/-! ### Updating -/

theorem valid_insert_misscheduled {l : Labels} (hl : l.Valid) :
    Labels.Valid (l.insert Label.misscheduled "true") := by
  rw [Labels.valid_iff] at hl ⊢
  intro key v hv
  rw [Labels.lookup_insert] at hv
  split_ifs at hv with hkey
  · cases hv
    exact ⟨by rw [hkey]; decide, by decide⟩
  · exact hl key v hv

theorem exists_updateWorkPlacement (env : Externals) {x : WorkPlacement}
    (hx : s.placement x.key = some x) (hdel : x.metadata.deleting = false) :
    ∃ mis t, Exec (unfailing env) (updateWorkPlacement env g x) s (.ok mis) t := by
  have hdest := exists_getDestinationsForWorkloadGroup env
    (resolveDestinationSelectorsForWorkloadGroup g) s
  generalize (s.cluster.listed .destination "" (destinationSelector env
    (resolveDestinationSelectorsForWorkloadGroup g))).filter (isAvailable
      (resolveDestinationSelectorsForWorkloadGroup g)) = ds at hdest
  generalize hmis : (!ds.any fun dest =>
    dest.metadata.name == x.spec.targetDestinationName) = mis
  generalize ho : (if mis then labelWorkplacementAsMisplaced x else x) = o
  have hvalid := s.cluster.labels_valid .workPlacement x (s.cluster.find_eq_some.mp hx).1
  have hkey : o.key = x.key := by
    subst ho
    cases mis <;> rfl
  have hlabels : o.metadata.labels.Valid := by
    subst ho
    cases mis
    · exact hvalid
    · exact valid_insert_misscheduled hvalid
  obtain ⟨u, hupdate⟩ := answers_updateObject env (k := .workPlacement)
    (o := { o with spec := { o.spec with workloads := g.workloads } })
    (hkey ▸ hx : s.cluster.find .workPlacement o.key = some x) hlabels hdel
  -- the updated WorkPlacement is stored, so its status can be written
  have hstored : (u.placement (o.metadata.ns, o.metadata.name)).isSome = true := by
    rcases exec_updateObject (hupdate.mono faulty_of_unfailing) with
      ⟨-, hno⟩ | ⟨stored, c, hf, hrep, rfl, -⟩
    · exact absurd rfl (hno _)
    · have hf' : s.placement o.key = some stored := hf
      rw [hkey, hx] at hf'
      obtain rfl : x = stored := Option.some.inj hf'
      have hself := hrep.find_self
      unfold Object.settle at hself
      rw [if_neg (by simp [Object.accept, hdel])] at hself
      rw [show (s.withCluster c).placement (o.metadata.ns, o.metadata.name) = _ from
        (congrArg (s.withCluster c).placement hkey).trans hself]
      rfl
  obtain ⟨t, hstatus⟩ := exists_updateWorkPlacementStatus env mis hstored
  refine ⟨mis, t, exec_bind.mpr ⟨ds, s, hdest, ?_⟩⟩
  dsimp only
  rw [hmis, ho]
  exact exec_bind.mpr ⟨_, u, hupdate, exec_bind.mpr ⟨none, t, hstatus, rfl, rfl⟩⟩

theorem exists_updateWorkPlacements (env : Externals) {listed : List WorkPlacement}
    (hkeys : (listed.map Object.key).Nodup) (hstored : ∀ x ∈ listed, s.placement x.key = some x)
    (hdel : ∀ x ∈ listed, x.metadata.deleting = false) :
    ∃ r t, Exec (unfailing env) (updateWorkPlacements env g listed) s r t := by
  induction listed generalizing s with
  | nil => exact ⟨(0, 0), s, rfl, rfl⟩
  | cons x listed ih =>
    rw [List.map_cons, List.nodup_cons] at hkeys
    have hx := hstored x (by simp)
    obtain ⟨mis, u, hfirst⟩ := exists_updateWorkPlacement env (g := g) hx (hdel x (by simp))
    obtain ⟨v, hset, -⟩ := exec_updateWorkPlacement hx (hfirst.mono faulty_of_unfailing)
    obtain ⟨⟨errored, misplaced⟩, t, hloop⟩ := ih hkeys.2
      (fun y hy => (hset.other _ fun heq => hkeys.1 (heq ▸ List.mem_map_of_mem hy)).trans
        (hstored y (by simp [hy])))
      fun y hy => hdel y (by simp [hy])
    cases mis with
    | false =>
      exact ⟨(errored, misplaced), t,
        exec_bind.mpr ⟨_, u, hfirst, exec_bind.mpr ⟨_, t, hloop, rfl, rfl⟩⟩⟩
    | true =>
      exact ⟨(errored, misplaced + 1), t,
        exec_bind.mpr ⟨_, u, hfirst, exec_bind.mpr ⟨_, t, hloop, rfl, rfl⟩⟩⟩

/-! ### Groups -/

theorem exists_getExistingWorkPlacements (env : Externals) (work : Work) (g : WorkloadGroup)
    (s : World) :
    Exec (unfailing env) (getExistingWorkPlacementsForWorkloadGroup env work.metadata.ns
      work.metadata.name g) s (.ok (existingPlacements env s work g)) s :=
  exec_bind.mpr ⟨_, s, answers_listObjects env _ _ _ s, rfl, rfl⟩

theorem exists_reconcileWorkloadGroup (env : Externals) (hs : Schedulable work s)
    (hlen : 5 ≤ g.id.length) (hid : isValidLabelValue g.id = true) :
    ∃ st t, Exec (unfailing env) (reconcileWorkloadGroup env g work) s (.ok st) t := by
  have hexisting : ∀ x ∈ existingPlacements env s work g,
      s.placement x.key = some x ∧ BelongsTo work x := fun x hx =>
    ⟨existingPlacements_mem hx, ((mem_existingPlacements hs.name hid hs.ns).mp hx).2.1⟩
  have hdel : ∀ x ∈ existingPlacements env s work g, x.metadata.deleting = false := fun x hx =>
    hs.live _ x (hexisting x hx).1 (hexisting x hx).2
  have hlast : ∀ x ∈ existingPlacements env s work g, x.metadata.deleting = true →
      x.metadata.finalizers ≠ [] := fun x hx =>
    hs.live.lasting _ x (hexisting x hx).1 (hexisting x hx).2
  suffices hsome : ∃ r t, Exec (unfailing env) (reconcileWorkloadGroup env g work) s r t by
    obtain ⟨r, t, he⟩ := hsome
    obtain ⟨st, rfl⟩ := succeeds_reconcileWorkloadGroup hs.tidy.unclaimed (fun _ => hlast) he
    exact ⟨st, t, he⟩
  have hlist := exists_getExistingWorkPlacements env work g s
  by_cases hcase : (work.isResourceRequest && !(existingPlacements env s work g).isEmpty) = true
  · obtain ⟨⟨errored, misplaced⟩, t, hloop⟩ := exists_updateWorkPlacements env
      existingPlacements_nodup (fun x hx => existingPlacements_mem hx) hdel
    obtain rfl : errored = 0 := succeeds_updateWorkPlacements existingPlacements_nodup
      (fun x hx => existingPlacements_mem hx) hlast hloop
    refine ⟨.ok (if 0 < misplaced then .misplaced else .scheduled), t,
      exec_bind.mpr ⟨_, s, hlist, ?_⟩⟩
    dsimp only
    rw [if_pos hcase]
    exact exec_bind.mpr ⟨_, t, hloop, rfl, rfl⟩
  · obtain ⟨r, t, hplace⟩ := exists_placeWorkloadGroup env hs hlen hid
      fun x (hx : x ∈ existingPlacements env s work g) =>
        hs.targets _ x (hexisting x hx).1 (hexisting x hx).2
    refine ⟨r, t, exec_bind.mpr ⟨_, s, hlist, ?_⟩⟩
    dsimp only
    rw [if_neg hcase]
    exact hplace

theorem exists_reconcileWorkloadGroups (env : Externals) (hs : Schedulable work s)
    {groups : List WorkloadGroup}
    (hgroups : ∀ g ∈ groups, 5 ≤ g.id.length ∧ isValidLabelValue g.id = true)
    (unschedulable misplaced : List String) :
    ∃ lists t, Exec (unfailing env)
      (reconcileWorkloadGroups env work groups unschedulable misplaced) s (.ok lists) t := by
  induction groups generalizing s unschedulable misplaced with
  | nil => exact ⟨(unschedulable, misplaced), s, rfl, rfl⟩
  | cons g groups ih =>
    obtain ⟨hlen, hid⟩ := hgroups g (by simp)
    obtain ⟨st, u, hgroup⟩ := exists_reconcileWorkloadGroup env hs hlen hid
    have hg := exec_reconcileWorkloadGroup refines_unfailing hgroup
    have hu : Schedulable work u := hs.of_entries (by simpa using hlen) hg.entry
      (hg.others (by decide))
    have hrest : ∀ a b : List String, ∃ lists t, Exec (unfailing env)
        (reconcileWorkloadGroups env work groups a b) u (.ok lists) t :=
      fun a b => ih hu (fun g hg => hgroups g (by simp [hg])) a b
    cases st with
    | scheduled =>
      obtain ⟨lists, t, hloop⟩ := hrest unschedulable misplaced
      exact ⟨lists, t, exec_bind.mpr ⟨_, u, hgroup, hloop⟩⟩
    | unscheduled =>
      obtain ⟨lists, t, hloop⟩ := hrest (unschedulable ++ [g.id]) misplaced
      exact ⟨lists, t, exec_bind.mpr ⟨_, u, hgroup, hloop⟩⟩
    | misplaced =>
      obtain ⟨lists, t, hloop⟩ := hrest unschedulable (misplaced ++ [g.id])
      exact ⟨lists, t, exec_bind.mpr ⟨_, u, hgroup, hloop⟩⟩

/-! ### The whole call -/

theorem exists_namesThatShouldExist (env : Externals) (work : Work) (groups : List WorkloadGroup)
    (s : World) :
    ∃ names, Exec (unfailing env) (namesThatShouldExist env work groups) s (.ok names) s := by
  induction groups with
  | nil => exact ⟨[], rfl, rfl⟩
  | cons g groups ih =>
    obtain ⟨names, hnames⟩ := ih
    exact ⟨_, exec_bind.mpr ⟨_, s, exists_getExistingWorkPlacements env work g s,
      exec_bind.mpr ⟨_, s, hnames, rfl, rfl⟩⟩⟩

theorem exists_deleteWorkPlacements (env : Externals) {wps : List WorkPlacement}
    (hkeys : (wps.map Object.key).Nodup) (hstored : ∀ x ∈ wps, s.placement x.key = some x) :
    ∃ t, Exec (unfailing env) (deleteWorkPlacements wps) s none t := by
  induction wps generalizing s with
  | nil => exact ⟨s, rfl, rfl⟩
  | cons x wps ih =>
    rw [List.map_cons, List.nodup_cons] at hkeys
    have hx := hstored x (by simp)
    obtain ⟨u, hdelete⟩ := answers_deleteObject env
      (show s.cluster.find .workPlacement (x.metadata.ns, x.metadata.name) = some x from hx)
    have hone : Exec (faulty env) (deleteWorkPlacements [x]) s none u :=
      exec_bind.mpr ⟨_, u, hdelete.mono faulty_of_unfailing, rfl, rfl⟩
    obtain ⟨hdeletes, -⟩ := exec_deleteWorkPlacements (by simp) (by simpa using hx) hone
    have hrest : ∀ y ∈ wps, u.placement y.key = some y := by
      intro y hy
      have hy' := hstored y (by simp [hy])
      rcases hdeletes.entry y.key with hsame | ⟨z, hz, hmem, -⟩
      · exact hsame.trans hy'
      · obtain rfl : z = y := Option.some.inj (hz.symm.trans hy')
        rw [List.mem_singleton.mp hmem] at hy
        exact absurd (List.mem_map_of_mem hy) hkeys.1
    obtain ⟨t, hloop⟩ := ih hkeys.2 hrest
    exact ⟨t, exec_bind.mpr ⟨_, u, hdelete, hloop⟩⟩

theorem exists_cleanupDanglingWorkplacements (env : Externals) (work : Work) (s : World) :
    ∃ t, Exec (unfailing env) (cleanupDanglingWorkplacements env work) s none t := by
  obtain ⟨names, hnames⟩ := exists_namesThatShouldExist env work work.spec.workloadGroups s
  have hlist : Exec (unfailing env) (getExistingWorkPlacementsForWork env work.metadata.ns
      work.metadata.name) s (.ok (s.cluster.listed .workPlacement work.metadata.ns
        (selectorOrEverything env (workNameLabels work.metadata.name)))) s :=
    exec_bind.mpr ⟨_, s, answers_listObjects env _ _ _ s, rfl, rfl⟩
  obtain ⟨t, hdelete⟩ : ∃ t, Exec (unfailing env) (deleteWorkPlacements
      ((s.cluster.listed .workPlacement work.metadata.ns
        (selectorOrEverything env (workNameLabels work.metadata.name))).filter
          fun wp => !names.contains wp.metadata.name)) s none t :=
    exists_deleteWorkPlacements env
      ((s.cluster.keys_nodup .workPlacement).sublist
        ((List.filter_sublist.trans List.filter_sublist).map _))
      fun x hx => Cluster.find_key (Cluster.mem_listed.mp (List.mem_filter.mp hx).1).1
  exact ⟨t, exec_bind.mpr ⟨_, s, hnames, exec_bind.mpr ⟨_, s, hlist, hdelete⟩⟩⟩

theorem exists_reconcileWork (env : Externals) (hs : Schedulable work s)
    (hwork : work ∈ s.cluster.objects .work)
    (hgroups : ∀ g ∈ work.spec.workloadGroups, 5 ≤ g.id.length ∧ isValidLabelValue g.id = true) :
    ∃ r t, Exec (unfailing env) (reconcileWork env work) s r t := by
  obtain ⟨⟨unschedulable, misplaced⟩, u, hloop⟩ :=
    exists_reconcileWorkloadGroups env hs hgroups [] []
  have hstored : work ∈ u.cluster.objects .work := by
    rw [(exec_reconcileWorkloadGroups refines_unfailing hloop).others (by decide)]
    exact hwork
  cases hstatus : updatedWorkStatus work unschedulable misplaced with
  | mk updated status =>
    cases updated with
    | true =>
      obtain ⟨v, hupdate⟩ := answers_updateStatus env (k := .work)
        (show u.cluster.find .work ({ work with status := status } : Work).key = some work from
          Cluster.find_key hstored)
      obtain ⟨t, hclean⟩ := exists_cleanupDanglingWorkplacements env { work with status := status } v
      refine ⟨⟨unschedulable, none, { work with status := status }⟩, t,
        exec_bind.mpr ⟨_, u, hloop, ?_⟩⟩
      dsimp only
      rw [hstatus]
      exact exec_bind.mpr ⟨(none, { work with status := status }), v,
        exec_bind.mpr ⟨_, v, hupdate, rfl, rfl⟩, exec_bind.mpr ⟨none, t, hclean, rfl, rfl⟩⟩
    | false =>
      obtain ⟨t, hclean⟩ := exists_cleanupDanglingWorkplacements env { work with status := status } u
      refine ⟨⟨unschedulable, none, { work with status := status }⟩, t,
        exec_bind.mpr ⟨_, u, hloop, ?_⟩⟩
      dsimp only
      rw [hstatus]
      exact exec_bind.mpr ⟨(none, { work with status := status }), u, ⟨rfl, rfl⟩,
        exec_bind.mpr ⟨none, t, hclean, rfl, rfl⟩⟩

end Kratix
