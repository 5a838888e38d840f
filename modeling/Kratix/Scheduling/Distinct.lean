import Kratix.Scheduling.Isolation
import Kratix.Scheduling.Runs
import Kratix.Scheduling.Soundness

/-!
# Groups whose names coincide

The name of a WorkPlacement holds five characters of the group's ID. As long as
these are distinct no group is lost; two groups that share them and a
Destination share their WorkPlacement.
-/

namespace Kratix

open Apiserver Effect

variable {env : Externals} {s t : World} {work : Work} {g : WorkloadGroup}

/-- Every group has WorkPlacements of its own on the Destinations selected for
it, on one of them if the Work is a resource request. -/
structure NoGroupLost (env : Externals) (work : Work) (s t : World) : Prop where
  dependency : work.isResourceRequest = false → ∀ g ∈ work.spec.workloadGroups,
    ∀ dest ∈ chosenDestinations env (resolveDestinationSelectorsForWorkloadGroup g) s,
      ∃ key x, Holds t work g.id key x ∧ x.spec.targetDestinationName = dest.metadata.name
  request : work.isResourceRequest = true → ∀ g ∈ work.spec.workloadGroups,
    chosenDestinations env (resolveDestinationSelectorsForWorkloadGroup g) s ≠ [] →
      ∃ key x, Holds t work g.id key x
  workloads : ∀ g ∈ work.spec.workloadGroups, ∀ key x, Holds t work g.id key x →
    x.spec.workloads = g.workloads

/-- A call for the stored Work in which no request fails, in a cluster whose
WorkPlacements the scheduler has made. -/
structure GroupsCall (env : Externals) (work : Work) (s : World) (r : ScheduleResult)
    (t : World) : Prop where
  ns : work.metadata.ns ≠ ""
  name : isValidLabelValue work.metadata.name = true
  stored : work ∈ s.cluster.objects .work
  run : CallRun env (fun work _ => ∀ g ∈ work.spec.workloadGroups, IsDigest g.id) work s
  lasting : Lasting work s
  exec : Exec (unfailing env) (reconcileWork env work) s r t

theorem IsDigest.five_le {id : String} (hid : IsDigest id) : 5 ≤ id.length := by
  rw [hid.1]
  omega

theorem GroupsCall.tidy {r : ScheduleResult} (hc : GroupsCall env work s r t) : Tidy work s :=
  CallRun.tidy (fun _ _ hids g hg => (hids g hg).five_le) hc.run

theorem GroupsCall.noGroupLost {r : ScheduleResult} (hc : GroupsCall env work s r t)
    (hids : ∀ g ∈ work.spec.workloadGroups, IsDigest g.id)
    (hshort : (work.spec.workloadGroups.map fun g => shortID g.id).Nodup) :
    NoGroupLost env work s t := by
  have hcall : Callable work s :=
    ⟨hc.ns, hc.stored, ⟨fun g hg => (hids g hg).five_le, hshort⟩, hc.tidy, hc.lasting⟩
  have hlist : ∀ g ∈ work.spec.workloadGroups, Listable work g :=
    fun g hg _ => ⟨hc.name, (hids g hg).valid⟩
  obtain ⟨u, v, hrun, hsame, hdel, -⟩ := exec_reconcileWork_unfailing hcall hlist hc.exec
  -- cleaning up does not touch the groups
  have hend : ∀ g ∈ work.spec.workloadGroups, ∀ key x,
      Holds t work g.id key x ↔ Holds u work g.id key x := fun g hg key x =>
    (hdel.holds_iff hc.ns hg).trans hsame.holds_iff
  have hchosen : ∀ {s' : World} {m : Labels},
      (∀ k, k ≠ .workPlacement → s'.cluster.objects k = s.cluster.objects k) →
      ∀ dest, dest ∈ chosenDestinations env m s' ↔ dest ∈ chosenDestinations env m s := by
    intro s' m hothers dest
    rw [mem_chosenDestinations, mem_chosenDestinations, hothers .destination (by decide)]
  refine ⟨fun hdep g hg dest hdest => ?_, fun hrequest g hg hsome => ?_, fun g hg key x hx => ?_⟩
  all_goals obtain ⟨s', st, t', hpart⟩ := hrun.part rfl hc.tidy hc.ns hlist hcall.prefixes hg
  · obtain ⟨names, targets, hnames, htargets, hplaced, -⟩ := hpart.dependency hc.ns hdep
    have hname : dest.metadata.name ∈ names := by
      rw [(exec_getTargetDestinationNames_unfailing hnames).1 hdep]
      exact List.mem_map_of_mem ((hchosen hpart.others dest).mpr hdest)
    obtain ⟨x, hx, hplacement, -⟩ := hplaced _ ((htargets _).mpr (Or.inl hname))
    exact ⟨_, x, (hend g hg _ _).mpr hx, hplacement.target⟩
  · rcases (hpart.resourceRequest hc.ns hrequest (hlist g hg)).2 with
      ⟨⟨key, x, hx⟩, hkept⟩ | ⟨names, hnames, hplaced⟩
    · obtain ⟨x', hx'⟩ := hkept key x hx
      exact ⟨key, x', (hend g hg _ _).mpr hx'⟩
    · obtain ⟨dest, hdest⟩ := List.exists_mem_of_ne_nil _ hsome
      have hne : names ≠ [] := by
        intro hnil
        have hnone := (exec_getTargetDestinationNames_unfailing hnames).2.2 hnil
        have hmem := (hchosen hpart.others dest).mpr hdest
        rw [hnone] at hmem
        cases hmem
      obtain ⟨d, hd⟩ := List.exists_mem_of_ne_nil _ hne
      obtain ⟨x, hx⟩ := hplaced d hd
      exact ⟨_, x, (hend g hg _ _).mpr hx⟩
  · have hx' := (hend g hg key x).mp hx
    cases hkind : work.isResourceRequest with
    | false =>
      obtain ⟨names, targets, -, -, hplaced, hkeys⟩ := hpart.dependency hc.ns hkind
      obtain ⟨d, hd, rfl⟩ := hkeys key x hx'
      obtain ⟨y, hy, hplacement, -⟩ := hplaced d hd
      obtain rfl : y = x := Option.some.inj (hy.stored.symm.trans hx'.stored)
      rw [hplacement.spec]
    | true => exact (hpart.resourceRequest hc.ns hkind (hlist g hg)).1 key x hx'

/-! ### Two groups with the same prefix -/

def dependencyOf (ids : List String) : Work :=
  ⟨{ ns := "default", name := "work" },
    { workloadGroups := ids.map fun id => ⟨[], [], id, []⟩, promiseName := "promise" }, {}⟩

theorem valid_dependencyOf (ids : List String) : (dependencyOf ids).metadata.labels.Valid :=
  fun e he => by cases he

/-- The dependency, and a Destination without labels. -/
def worldDepending (ids : List String) : World :=
  worldWith (dependencyOf ids) (destinationLabelled ∅) (valid_dependencyOf ids)
    Labels.valid_empty

theorem exists_groupsCall (env : Externals) {ids : List String} (hids : ∀ id ∈ ids, IsDigest id) :
    ∃ r t, GroupsCall env (dependencyOf ids) (worldDepending ids) r t := by
  have hs : Schedulable (dependencyOf ids) (worldDepending ids) :=
    @schedulable_worldWith (dependencyOf ids) (destinationLabelled ∅) _ _
      (show "default" ≠ "" by decide) (show isValidLabelValue "work" = true by decide)
      (show isValidLabelValue "destination" = true by decide)
  have hstored : dependencyOf ids ∈ (worldDepending ids).cluster.objects .work :=
    List.mem_singleton.mpr rfl
  obtain ⟨r, t, he⟩ := exists_reconcileWork env hs hstored (by
    intro g hg
    obtain ⟨id, hid, rfl⟩ := List.mem_map.mp hg
    exact ⟨(hids id hid).five_le, (hids id hid).valid⟩)
  refine ⟨r, t, hs.ns, hs.name, hstored, .start fun key x hx => ?_, hs.live.lasting, he⟩
  rw [show (worldDepending ids).placement key = none from placement_worldWith key] at hx
  cases hx

theorem lost_of_shortID_eq {ids : List String} (hids : ∀ id ∈ ids, IsDigest id) {a b : String}
    (ha : a ∈ ids) (hb : b ∈ ids) (hne : a ≠ b) (hshort : shortID a = shortID b)
    {r : ScheduleResult} (hc : GroupsCall env (dependencyOf ids) (worldDepending ids) r t) :
    ¬ NoGroupLost env (dependencyOf ids) (worldDepending ids) t := by
  intro hlost
  have ht : Tidy (dependencyOf ids) t := by
    refine exec_reconcileWork_tidy refines_unfailing hc.tidy (fun g hg => ?_) hc.exec
    obtain ⟨id, hid, rfl⟩ := List.mem_map.mp hg
    exact (hids id hid).five_le
  have hheld : ∀ id ∈ ids, ∃ x, Holds t (dependencyOf ids) id
      (placementKey (dependencyOf ids) ⟨[], [], id, []⟩ "destination") x := by
    intro id hid
    have hchosen : (destinationLabelled ∅).stampedAt 1 ∈ chosenDestinations env
        (resolveDestinationSelectorsForWorkloadGroup ⟨[], [], id, []⟩) (worldDepending ids) := by
      rw [show resolveDestinationSelectorsForWorkloadGroup ⟨[], [], id, []⟩ = ∅ from rfl,
        mem_chosenDestinations]
      exact ⟨List.mem_singleton.mpr rfl, rfl, rfl⟩
    obtain ⟨key, x, hx, htarget⟩ := hlost.dependency rfl ⟨[], [], id, []⟩
      (List.mem_map_of_mem hid) _ hchosen
    have hkey := ht.key_of_holds hx
    rw [htarget] at hkey
    exact ⟨x, hkey ▸ hx⟩
  obtain ⟨x, hx⟩ := hheld a ha
  obtain ⟨y, hy⟩ := hheld b hb
  -- both are stored under the one name
  rw [placementKey, workPlacementName, ← hshort] at hy
  obtain rfl : x = y := Option.some.inj (hx.stored.symm.trans hy.stored)
  exact hne (Option.some.inj (hx.groupID_eq.symm.trans hy.groupID_eq))

/-- Two digests that agree in their first five characters and differ later. -/
def clashingIDs : List String :=
  ["0123456789abcdef0123456789abcdef", "01234fedcba9876543210fedcba98765"]

theorem isDigest_clashingIDs : ∀ id ∈ clashingIDs, IsDigest id := by
  intro id hid
  rcases List.mem_pair.mp hid with rfl | rfl <;>
    exact ⟨by decide, List.all_eq_true.mp (by decide)⟩

/-- One of the two groups is left without a WorkPlacement. -/
theorem same_prefix_loses_group :
    clashingIDs.Nodup ∧ ∃ (t : World) (r : ScheduleResult),
      GroupsCall plainExternals (dependencyOf clashingIDs) (worldDepending clashingIDs) r t ∧
      ¬ NoGroupLost plainExternals (dependencyOf clashingIDs) (worldDepending clashingIDs) t := by
  obtain ⟨r, t, hc⟩ := exists_groupsCall plainExternals isDigest_clashingIDs
  refine ⟨by decide, t, r, hc, ?_⟩
  exact lost_of_shortID_eq isDigest_clashingIDs (List.mem_cons_self)
    (List.mem_cons_of_mem _ List.mem_cons_self) (by decide) (by decide) hc

/-- For these IDs no group is lost exactly if their prefixes differ. -/
theorem no_group_lost_iff (env : Externals) {ids : List String}
    (hids : ∀ id ∈ ids, IsDigest id) (hdistinct : ids.Nodup) :
    (∀ (work : Work) (s t : World) (r : ScheduleResult),
      (work.spec.workloadGroups.map fun g => g.id) = ids → GroupsCall env work s r t →
        NoGroupLost env work s t) ↔ (ids.map shortID).Nodup := by
  constructor
  · intro hall
    refine List.Nodup.map_on (fun a ha b hb hshort => ?_) hdistinct
    by_contra hne
    obtain ⟨r, t, hc⟩ := exists_groupsCall env hids
    refine lost_of_shortID_eq hids ha hb hne hshort hc (hall _ _ t r ?_ hc)
    simp [dependencyOf, Function.comp_def]
  · rintro hshort work s t r rfl hc
    refine hc.noGroupLost (fun g hg => hids g.id (List.mem_map_of_mem hg)) ?_
    rwa [List.map_map] at hshort

/-- Two digests with different prefixes. -/
theorem no_group_lost_iff_sample :
    ∃ (t : World) (r : ScheduleResult),
      GroupsCall plainExternals (dependencyOf ["0123456789abcdef0123456789abcdef",
        "fedcba98765432100123456789abcdef"]) (worldDepending ["0123456789abcdef0123456789abcdef",
        "fedcba98765432100123456789abcdef"]) r t ∧
      NoGroupLost plainExternals (dependencyOf ["0123456789abcdef0123456789abcdef",
        "fedcba98765432100123456789abcdef"]) (worldDepending ["0123456789abcdef0123456789abcdef",
        "fedcba98765432100123456789abcdef"]) t := by
  have hids : ∀ id ∈ ["0123456789abcdef0123456789abcdef", "fedcba98765432100123456789abcdef"],
      IsDigest id := by
    intro id hid
    rcases List.mem_pair.mp hid with rfl | rfl <;>
      exact ⟨by decide, List.all_eq_true.mp (by decide)⟩
  obtain ⟨r, t, hc⟩ := exists_groupsCall plainExternals hids
  exact ⟨t, r, hc, (no_group_lost_iff plainExternals hids (by decide)).mpr (by decide) _ _ t r rfl hc⟩

end Kratix
