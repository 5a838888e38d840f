import Kratix.Scheduling.Groups

/-!
# Calls in which no request fails

Such a call reconciles every group and deletes what dangles. A group of
dependencies ends on the Destinations that are selected and on those where it
was before; a group of a resource request stays where it is or, if it is
nowhere, goes to one of the selected Destinations.
-/

namespace Kratix

open Apiserver Effect

variable {env : Externals} {h : Handler signature World} {s t u : World} {work : Work}
  {g : WorkloadGroup}

/-! ### Selected Destinations -/

/-- The Destinations that the scheduler selects with these selectors. -/
def chosenDestinations (env : Externals) (m : Labels) (s : World) : List Destination :=
  (s.cluster.listed .destination "" (destinationSelector env m)).filter (isAvailable m)

/-- The Destination is not being deleted and carries every entry; without any
entry it must not insist on labels of its own. -/
structure Selects (m : Labels) (dest : Destination) : Prop where
  live : dest.metadata.deleting = false
  carries : ∀ key v, m.lookup key = some v → dest.metadata.labels.lookup key = some v
  strict : m = ∅ → ¬ (dest.spec.strictMatchLabels = true ∧ dest.metadata.labels ≠ ∅)

theorem entries_isEmpty_iff {β : Type} {m : StringMap β} : m.entries.isEmpty = true ↔ m = ∅ := by
  rw [List.isEmpty_iff]
  exact ⟨fun h => AList.ext h, fun h => by rw [h]; rfl⟩

theorem isAvailable_iff {m : Labels} {dest : Destination} :
    isAvailable m dest = true ↔ dest.metadata.deleting = false ∧
      (m = ∅ → ¬ (dest.spec.strictMatchLabels = true ∧ dest.metadata.labels ≠ ∅)) := by
  simp only [isAvailable, Bool.not_eq_true', Bool.or_eq_false_iff, Bool.and_eq_false_imp,
    entries_isEmpty_iff, Bool.not_eq_false', ne_eq, not_and, not_not]

theorem mem_chosenDestinations {m : Labels} {dest : Destination} :
    dest ∈ chosenDestinations env m s ↔ dest ∈ s.cluster.objects .destination ∧
      destinationSelector env m dest.metadata.labels = true ∧ isAvailable m dest = true := by
  rw [chosenDestinations, List.mem_filter, Cluster.mem_listed]
  simp [and_assoc]

/-- With valid selectors exactly the matching Destinations are chosen. -/
theorem mem_chosenDestinations_of_valid {m : Labels} (hv : m.Valid) {dest : Destination} :
    dest ∈ chosenDestinations env m s ↔
      dest ∈ s.cluster.objects .destination ∧ Selects m dest := by
  have hsel : destinationSelector env m dest.metadata.labels = true ↔
      ∀ key v, m.lookup key = some v → dest.metadata.labels.lookup key = some v := by
    unfold destinationSelector
    split
    · next hempty =>
      rw [entries_isEmpty_iff.mp hempty]
      simp [Selector.everything]
    · next hne =>
      exact selectorOrEverything_of_valid (fun h => hne (entries_isEmpty_iff.mpr h)) hv
  rw [mem_chosenDestinations, hsel, isAvailable_iff]
  exact ⟨fun ⟨hm, hc, hl, hs⟩ => ⟨hm, hl, hc, hs⟩, fun ⟨hm, hl, hc, hs⟩ => ⟨hm, hc, hl, hs⟩⟩

theorem exec_getTargetDestinationNames_unfailing {m : Labels} {names : List String}
    (he : Exec (unfailing env) (getTargetDestinationNames env m work) s names t) :
    (work.isResourceRequest = false →
        names = (chosenDestinations env m s).map fun d => d.metadata.name) ∧
      (work.isResourceRequest = true → names.length ≤ 1) ∧
      (names = [] → chosenDestinations env m s = []) := by
  obtain ⟨ds, u, hdest, hrest⟩ := exec_bind.mp he
  obtain ⟨l, v, hlist, hret⟩ := exec_bind.mp hdest
  obtain ⟨rfl, rfl⟩ := exec_listObjects_unfailing hlist
  obtain ⟨hds, rfl⟩ := hret
  obtain rfl : ds = chosenDestinations env m u := hds
  rcases hd : chosenDestinations env m u with _ | ⟨d, rest⟩
  · rw [hd] at hrest
    obtain ⟨rfl, rfl⟩ := hrest
    simp
  · rw [hd] at hrest
    dsimp only at hrest
    split at hrest
    · next hr =>
      obtain ⟨i, w, hi, hret'⟩ := exec_bind.mp hrest
      obtain ⟨⟨hlt, rfl⟩, -⟩ := exec_perform.mp hi
      obtain ⟨rfl, rfl⟩ := hret'
      have hi' : (d :: rest)[i]? = some ((d :: rest)[i]) := List.getElem?_eq_getElem hlt
      rw [hi']
      simp [hr]
    · next hr =>
      obtain ⟨rfl, rfl⟩ := hrest
      simp [hr]

/-! ### A group of dependencies -/

section

variable {s' t' : World} {st : SchedulingStatus}

theorem GroupPart.dependency (hpart : GroupPart env h work g s t s' st t')
    (hns : work.metadata.ns ≠ "") (hdep : work.isResourceRequest = false) :
    ∃ names targets : List String,
      Exec h (getTargetDestinationNames env (resolveDestinationSelectorsForWorkloadGroup g) work)
        s' names s' ∧
      (∀ d, d ∈ targets ↔ d ∈ names ∨
        ∃ key x, Holds s work g.id key x ∧ x.spec.targetDestinationName = d) ∧
      (∀ d ∈ targets, ∃ x, Holds t work g.id (placementKey work g d) x ∧
        IsPlacement work g d (!names.contains d) x ∧ Reports (!names.contains d) x.status) ∧
      ∀ key x, Holds t work g.id key x → ∃ d ∈ targets, key = placementKey work g d := by
  cases hpart.outcome with
  | failed _ hr => exact absurd rfl (hr st)
  | updates hrequest => exact absurd (hdep.symm.trans hrequest) (by simp)
  | places names targets _ hnames htargets happlies hdone =>
    have hplaced : ∀ d ∈ targets, ∃ x, Holds t' work g.id (placementKey work g d) x ∧
        IsPlacement work g d (!names.contains d) x ∧ Reports (!names.contains d) x.status := by
      intro d hd
      obtain ⟨x, hx, hover, hreports⟩ := hdone st rfl d hd
      exact ⟨x, .of_isPlacement hx hover.isPlacement, hover.isPlacement, hreports⟩
    have htargets' : ∀ d, d ∈ targets ↔ d ∈ names ∨
        ∃ key x, Holds s work g.id key x ∧ x.spec.targetDestinationName = d := by
      intro d
      by_cases hvalid : isValidLabelValue work.metadata.name = true ∧ isValidLabelValue g.id = true
      · rw [htargets]
        refine or_congr_right ⟨?_, ?_⟩
        · rintro ⟨x, hx, rfl⟩
          exact ⟨x.key, x, (hpart.before _ _).mp
            ((mem_existingPlacements_iff hns hvalid.1 hvalid.2).mp hx), rfl⟩
        · rintro ⟨key, x, hx, rfl⟩
          refine ⟨x, (mem_existingPlacements_iff hns hvalid.1 hvalid.2).mpr ?_, rfl⟩
          rw [hx.key_eq]
          exact (hpart.before _ _).mpr hx
      -- nothing can be stored under labels that are not valid
      · constructor
        · intro hd
          obtain ⟨x, hx, -⟩ := hplaced d hd
          exact absurd hx.valid hvalid
        · rintro (hd | ⟨key, x, hx, -⟩)
          · exact (htargets d).mpr (Or.inl hd)
          · exact absurd hx.valid hvalid
    refine ⟨names, targets, hnames, htargets', fun d hd => ?_, fun key x hx => ?_⟩
    · obtain ⟨x, hx, hrest⟩ := hplaced d hd
      exact ⟨x, (hpart.after _ _).mpr hx, hrest⟩
    · have hx' := (hpart.after _ _).mp hx
      rcases happlies.entry key with hsame | ⟨d, hd, hk, -⟩
      · have hold : Holds s' work g.id key x := ⟨hsame ▸ hx'.stored, hx'.belongsTo, hx'.groupID_eq⟩
        exact ⟨_, (htargets' _).mpr (Or.inr ⟨key, x, (hpart.before _ _).mp hold, rfl⟩),
          hpart.tidy.key_of_holds hold⟩
      · exact ⟨d, hd, hk⟩

/-! ### A group of a resource request -/

/-- It stays where it is, with new workloads, or goes to one Destination. -/
theorem GroupPart.resourceRequest (hpart : GroupPart env h work g s t s' st t')
    (hns : work.metadata.ns ≠ "") (hrequest : work.isResourceRequest = true)
    (hlist : Listable work g) :
    (∀ key x, Holds t work g.id key x → x.spec.workloads = g.workloads) ∧
      ((∃ key x, Holds s work g.id key x) ∧
          (∀ key x, Holds s work g.id key x → ∃ x', Holds t work g.id key x') ∨
        ∃ names : List String, Exec h (getTargetDestinationNames env
            (resolveDestinationSelectorsForWorkloadGroup g) work) s' names s' ∧
          ∀ d ∈ names, ∃ x, Holds t work g.id (placementKey work g d) x) := by
  obtain ⟨hname, hid⟩ := hlist hrequest
  have hmem : ∀ x, x ∈ existingPlacements env s' work g ↔ Holds s' work g.id x.key x :=
    fun x => mem_existingPlacements_iff hns hname hid
  cases hpart.outcome with
  | failed _ hr => exact absurd rfl (hr st)
  | updates _ hsome hupdates hdone =>
    have hkept : ∀ key x, Holds s' work g.id key x → ∃ x', Holds t' work g.id key x' := by
      intro key x hx
      have hin : x ∈ existingPlacements env s' work g := (hmem x).mpr (hx.key_eq ▸ hx)
      obtain ⟨mis, x', hx', hup, -⟩ := hdone st rfl x hin
      rw [hx.key_eq] at hx'
      exact ⟨x', hx', hup.belongsTo_iff.mpr hx.belongsTo, hup.groupID_eq.trans hx.groupID_eq⟩
    refine ⟨fun key x hx => ?_, Or.inl ⟨?_, fun key x hx => ?_⟩⟩
    · have hx' := (hpart.after _ _).mp hx
      have hin : ∃ y ∈ existingPlacements env s' work g, y.key = key := by
        rcases hupdates.entry key with hsame | ⟨y, hy, hk, -⟩
        · refine ⟨x, (hmem x).mpr ?_, hx.key_eq⟩
          rw [hx.key_eq]
          exact ⟨hsame ▸ hx'.stored, hx'.belongsTo, hx'.groupID_eq⟩
        · exact ⟨y, hy, hk⟩
      obtain ⟨y, hy, rfl⟩ := hin
      obtain ⟨mis, y', hy', hup, -⟩ := hdone st rfl y hy
      obtain rfl : y' = x := Option.some.inj (hy'.symm.trans hx'.stored)
      rw [hup.spec]
    · obtain ⟨x, hx⟩ := List.exists_mem_of_ne_nil _ hsome
      exact ⟨x.key, x, (hpart.before _ _).mp ((hmem x).mp hx)⟩
    · obtain ⟨x', hx'⟩ := hkept key x ((hpart.before _ _).mpr hx)
      exact ⟨x', (hpart.after _ _).mpr hx'⟩
  | places names targets hnone hnames htargets happlies hdone =>
    have hempty := hnone hrequest
    refine ⟨fun key x hx => ?_, Or.inr ⟨names, hnames, fun d hd => ?_⟩⟩
    · have hx' := (hpart.after _ _).mp hx
      rcases happlies.entry key with hsame | ⟨d, hd, hk, y, hy, hover⟩
      · have hin : x ∈ existingPlacements env s' work g := by
          rw [hmem, hx.key_eq]
          exact ⟨hsame ▸ hx'.stored, hx'.belongsTo, hx'.groupID_eq⟩
        rw [hempty] at hin
        cases hin
      · obtain rfl : y = x := Option.some.inj (hy.symm.trans hx'.stored)
        rw [hover.isPlacement.spec]
    · obtain ⟨x, hx, hover, -⟩ := hdone st rfl d ((htargets d).mpr (Or.inl hd))
      exact ⟨x, (hpart.after _ _).mpr (.of_isPlacement hx hover.isPlacement)⟩

end

/-! ### The whole call -/

theorem succeeds_reconcileWorkloadGroups {groups : List WorkloadGroup}
    {unschedulable misplaced : List String} {r : Except WorkloadGroup (List String × List String)}
    (hs : Tidy work s) (hlast : Lasting work s) (hns : work.metadata.ns ≠ "")
    (hlist : ∀ g ∈ groups, Listable work g) (hlen : ∀ g ∈ groups, 5 ≤ g.id.length)
    (he : Exec (unfailing env) (reconcileWorkloadGroups env work groups unschedulable misplaced)
      s r t) : ∃ lists, r = .ok lists := by
  induction groups generalizing s unschedulable misplaced with
  | nil => exact ⟨_, he.1⟩
  | cons g groups ih =>
    obtain ⟨a, u, hgroup, hrest⟩ := exec_bind.mp he
    have hlast' : work.isResourceRequest = true → ∀ x ∈ existingPlacements env s work g,
        x.metadata.deleting = true → x.metadata.finalizers ≠ [] := by
      intro hr x hx
      obtain ⟨hname, hid⟩ := hlist g (by simp) hr
      have hx' := (mem_existingPlacements_iff hns hname hid).mp hx
      exact hlast _ x hx'.stored hx'.belongsTo
    obtain ⟨st, rfl⟩ := succeeds_reconcileWorkloadGroup hs.unclaimed hlast' hgroup
    have hg := exec_reconcileWorkloadGroup refines_unfailing hgroup
    have hu := hs.of_entries (fun g hg => hlen g (by simp_all)) hg.entry
    cases st <;>
      exact ih hu (hg.lasting hlast) (fun g hg => hlist g (by simp [hg])) (fun g hg => hlen g (by simp [hg]))
        hrest

theorem succeeds_deleteWorkPlacements {wps : List WorkPlacement} {r : Option Failure}
    (he : Exec (unfailing env) (deleteWorkPlacements wps) s r t) : r = none := by
  induction wps generalizing s with
  | nil => exact he.1
  | cons x wps ih =>
    obtain ⟨a, u, hdelete, hrest⟩ := exec_bind.mp he
    obtain ⟨y, rfl⟩ := exec_deleteObject_unfailing hdelete
    exact ih hrest

theorem succeeds_namesThatShouldExist {groups : List WorkloadGroup}
    {r : Except Failure (List String)}
    (he : Exec (unfailing env) (namesThatShouldExist env work groups) s r t) :
    ∃ names, r = .ok names := by
  induction groups generalizing r t with
  | nil => exact ⟨_, he.1⟩
  | cons g groups ih =>
    obtain ⟨a, u, hlist, hrest⟩ := exec_bind.mp he
    obtain ⟨b, v, hlist', hret⟩ := exec_bind.mp hlist
    obtain ⟨rfl, rfl⟩ := exec_listObjects_unfailing hlist'
    obtain ⟨rfl, rfl⟩ := hret
    obtain ⟨b, w, hloop, hret'⟩ := exec_bind.mp hrest
    obtain ⟨names, rfl⟩ := ih hloop
    exact ⟨_, hret'.1⟩

theorem succeeds_cleanupDanglingWorkplacements {r : Option Failure}
    (he : Exec (unfailing env) (cleanupDanglingWorkplacements env work) s r t) : r = none := by
  obtain ⟨a, u, hnames, hrest⟩ := exec_bind.mp he
  obtain ⟨names, rfl⟩ := succeeds_namesThatShouldExist hnames
  obtain ⟨b, v, hlist, hdelete⟩ := exec_bind.mp hrest
  obtain ⟨l, w, hlist', hret⟩ := exec_bind.mp hlist
  obtain ⟨rfl, rfl⟩ := exec_listObjects_unfailing hlist'
  obtain ⟨rfl, rfl⟩ := hret
  exact succeeds_deleteWorkPlacements hdelete

/-- The Work is the stored one, its groups are told apart by their prefixes, and
only the scheduler has made WorkPlacements for it. -/
structure Callable (work : Work) (s : World) : Prop where
  ns : work.metadata.ns ≠ ""
  stored : work ∈ s.cluster.objects .work
  prefixes : DistinctPrefixes work.spec.workloadGroups
  tidy : Tidy work s
  lasting : Lasting work s

/-- All groups come through, and then everything that dangles is deleted. -/
theorem exec_reconcileWork_unfailing {r : ScheduleResult} (hc : Callable work s)
    (hlist : ∀ g ∈ work.spec.workloadGroups, Listable work g)
    (he : Exec (unfailing env) (reconcileWork env work) s r t) :
    ∃ u v, GroupsRun env (unfailing env) work work.spec.workloadGroups s true u ∧
      SamePlacements u v ∧ Deletes (Dangling env v work) v t ∧
      ∀ x, Dangling env v work x → t.placement x.key = x.markDeleting.settle := by
  obtain ⟨a, u, hgroups, hrest⟩ := exec_bind.mp he
  have hrun := exec_reconcileWorkloadGroups refines_unfailing hgroups
  obtain ⟨⟨unschedulable, misplaced⟩, rfl⟩ := succeeds_reconcileWorkloadGroups hc.tidy hc.lasting hc.ns
    hlist hc.prefixes.length hgroups
  -- what follows the status, with the Work as it is then
  have htail : ∀ (w : Work) (v : World), SamePlacements u v → w.key = work.key →
      w.spec = work.spec → (∃ b, Exec (unfailing env) (cleanupDanglingWorkplacements env w) v b t) →
      ∃ u v, GroupsRun env (unfailing env) work work.spec.workloadGroups s true u ∧
        SamePlacements u v ∧ Deletes (Dangling env v work) v t ∧
        ∀ x, Dangling env v work x → t.placement x.key = x.markDeleting.settle := by
    rintro w v hsame hkey hspec ⟨b, hclean⟩
    have hdangling : Dangling env v w = Dangling env v work := by
      funext x
      unfold Dangling existingPlacements
      rw [hspec, show w.metadata.ns = work.metadata.ns from congrArg Prod.fst hkey,
        show w.metadata.name = work.metadata.name from congrArg Prod.snd hkey]
    obtain rfl := succeeds_cleanupDanglingWorkplacements hclean
    obtain ⟨hdel, hall⟩ := exec_cleanupDanglingWorkplacements (hclean.mono faulty_of_unfailing)
    exact ⟨u, v, hrun, hsame, hdangling ▸ hdel, hdangling ▸ hall rfl⟩
  dsimp only at hrest
  split at hrest
  · obtain ⟨⟨err, w⟩, v, hstatus, hret⟩ := exec_bind.mp hrest
    obtain ⟨hsame, hkey, hspec⟩ := exec_writeWorkStatus (hstatus.mono faulty_of_unfailing)
    have hstored : work ∈ u.cluster.objects .work := by
      rw [hrun.others (by decide)]
      exact hc.stored
    obtain ⟨b, v', hupdate, hret'⟩ := exec_bind.mp hstatus
    obtain ⟨y, rfl⟩ := exec_updateStatus_unfailing hupdate
    obtain ⟨hr, rfl⟩ := hret'
    cases hr
    obtain ⟨c, v'', hclean, hret''⟩ := exec_bind.mp hret
    obtain ⟨rfl, rfl⟩ := hret''
    exact htail _ _ hsame hkey (hspec work hstored rfl rfl) ⟨c, hclean⟩
  · obtain ⟨b, v, hpure, hret⟩ := exec_bind.mp hrest
    obtain ⟨rfl, rfl⟩ := hpure
    obtain ⟨c, v', hclean, hret'⟩ := exec_bind.mp hret
    obtain ⟨rfl, rfl⟩ := hret'
    exact htail { work with status := (updatedWorkStatus work unschedulable misplaced).2 } v
      (fun _ _ => rfl) rfl rfl ⟨c, hclean⟩

/-! ### What cleaning up leaves -/

section

variable {v : World} {key : String × String} {x : WorkPlacement} {id : String}

theorem SamePlacements.holds_iff (hsame : SamePlacements u v) :
    Holds v work id key x ↔ Holds u work id key x := by
  constructor
  · exact fun hx => ⟨(hsame.placement key).symm.trans hx.stored, hx.belongsTo, hx.groupID_eq⟩
  · exact fun hx => ⟨(hsame.placement key).trans hx.stored, hx.belongsTo, hx.groupID_eq⟩

theorem Deletes.holds_iff (hd : Deletes (Dangling env v work) v t) (hns : work.metadata.ns ≠ "")
    (hg : g ∈ work.spec.workloadGroups) : Holds t work g.id key x ↔ Holds v work g.id key x := by
  have hkept : ∀ y, Holds v work g.id key y → ¬ Dangling env v work y := by
    intro y hy hdangling
    refine hdangling.2 g hg y ?_ rfl
    rw [mem_existingPlacements_iff hns hy.valid.1 hy.valid.2, hy.key_eq]
    exact hy
  rcases hd.entry key with hsame | ⟨y, hy, hdangling, hnew⟩
  · exact ⟨fun hx => ⟨hsame ▸ hx.stored, hx.belongsTo, hx.groupID_eq⟩,
      fun hx => ⟨hsame ▸ hx.stored, hx.belongsTo, hx.groupID_eq⟩⟩
  · constructor
    · intro hx
      obtain rfl := Object.settle_eq_some (hnew.symm.trans hx.stored)
      exact absurd hdangling (hkept y ⟨hy, hx.belongsTo, hx.groupID_eq⟩)
    · intro hx
      obtain rfl : y = x := Option.some.inj (hy.symm.trans hx.stored)
      exact absurd hdangling (hkept y hx)

/-- What is left undeleted belongs to a group, unless a group is found by labels
that are not its own. -/
theorem Deletes.swept (hd : Deletes (Dangling env v work) v t)
    (hall : ∀ x, Dangling env v work x → t.placement x.key = x.markDeleting.settle)
    (hns : work.metadata.ns ≠ "") (hx : Holds t work id key x)
    (hlive : x.metadata.deleting = false)
    (hsafe : Holds v work id key x → (∀ g ∈ work.spec.workloadGroups, g.id ≠ id) →
      ∀ g ∈ work.spec.workloadGroups, x ∉ existingPlacements env v work g) :
    ∃ g ∈ work.spec.workloadGroups, g.id = id := by
  by_contra hnone
  push Not at hnone
  have hx' : Holds v work id key x := by
    rcases hd.entry key with hsame | ⟨y, hy, hdangling, hnew⟩
    · exact ⟨hsame ▸ hx.stored, hx.belongsTo, hx.groupID_eq⟩
    · rw [Object.settle_eq_some (hnew.symm.trans hx.stored)] at hlive
      cases hlive
  have hdangling : Dangling env v work x := by
    refine ⟨?_, fun g hg y hy hname => ?_⟩
    · rw [mem_listed_workNameLabels hx.valid.1 hns, hx.key_eq]
      exact ⟨hx'.stored, hx'.belongsTo⟩
    · have hyns : y.metadata.ns = work.metadata.ns :=
        (Cluster.mem_listed.mp hy).2.1.resolve_left hns
      have hykey : y.key = key := by
        rw [← hx.key_eq]
        exact Prod.ext (hyns.trans hx.belongsTo.1.symm) hname
      have hystored := existingPlacements_mem hy
      rw [hykey] at hystored
      obtain rfl : y = x := Option.some.inj (hystored.symm.trans hx'.stored)
      exact hsafe hx' hnone g hg hy
  have hgone := hall x hdangling
  rw [hx.key_eq, hx.stored] at hgone
  rw [Object.settle_eq_some hgone.symm] at hlive
  cases hlive

end

theorem not_mem_existingPlacements {x : WorkPlacement} {id : String} {key : String × String}
    (hns : work.metadata.ns ≠ "") (hid : isValidLabelValue g.id = true)
    (hx : Holds s work id key x) (hne : g.id ≠ id) : x ∉ existingPlacements env s work g := by
  intro hmem
  rw [mem_existingPlacements_iff hns hx.valid.1 hid] at hmem
  exact hne (Option.some.inj (hmem.groupID_eq.symm.trans hx.groupID_eq))

end Kratix
