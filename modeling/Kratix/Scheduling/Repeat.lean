import Kratix.Lib.Still
import Kratix.Scheduling.Settled

/-!
# A call made again

A call without faults leaves every group settled, the Work with the status that
says so, and nothing undeleted that dangles. If it is made again, with nothing
else changed, it therefore changes nothing on its way.
-/

namespace Kratix

open Apiserver Effect

variable {env : Externals} {h : Handler signature World} {s t u : World} {work : Work}
  {g : WorkloadGroup}

/-! ### The whole call -/

theorem GroupsRun.lasting {groups : List WorkloadGroup} {b : Bool}
    (hrun : GroupsRun env h work groups s b t) (hs : Lasting work s) : Lasting work t := by
  induction hrun with
  | done s => exact hs
  | stop hg _ => exact hg.lasting hs
  | next hg _ ih => exact ih (hg.lasting hs)

theorem Deletes.lasting {doomed : WorkPlacement → Prop} (hd : Deletes doomed s t)
    (hs : Lasting work s) : Lasting work t := by
  intro key x hx hbelongs hdel hnone
  rcases hd.entry key with hsame | ⟨y, -, -, hnew⟩
  · exact hs key x (hsame ▸ hx) hbelongs hdel hnone
  · have hsettle := hnew.symm.trans hx
    rw [← Object.settle_eq_some hsettle] at hsettle
    simp [Object.settle, hdel, hnone] at hsettle

theorem workConditions_ne (unscheduled misplaced : List String) :
    (workConditions unscheduled misplaced).1.type ≠ (workConditions unscheduled misplaced).2.type := by
  have hne : ConditionType.scheduleSucceeded ≠ ConditionType.ready := by decide
  unfold workConditions
  split_ifs <;> exact hne

theorem updatedWorkStatus_unchanged {unscheduled misplaced : List String}
    (hsame : (updatedWorkStatus work unscheduled misplaced).1 = false) :
    (updatedWorkStatus work unscheduled misplaced).2 = work.status := by
  simp only [updatedWorkStatus, Bool.or_eq_false_iff, bne_eq_false_iff_eq] at hsame ⊢
  obtain ⟨⟨hcount, hcreated⟩, hset⟩ := hsame
  rw [show setStatusConditions _ _ _ = _ from alreadySet_of_unchanged hset, hcreated, hcount]

theorem updatedWorkStatus_again (work : Work) (unscheduled misplaced : List String) :
    updatedWorkStatus { work with status := (updatedWorkStatus work unscheduled misplaced).2 }
      unscheduled misplaced = (false, (updatedWorkStatus work unscheduled misplaced).2) := by
  have hset : setStatusConditions _ _ _ = _ :=
    alreadySet_set (workConditions_ne unscheduled misplaced) work.status.conditions
  simp only [updatedWorkStatus]
  rw [hset]
  simp

/-- What a call without faults, made in `s`, answers and leaves in `t`. -/
structure CallSettled (env : Externals) (work : Work) (s : World) (r : ScheduleResult)
    (t : World) : Prop where
  groups : ∀ g ∈ work.spec.workloadGroups, GroupSettled env work g s t
  err : r.err = none
  unscheduled : r.unscheduled = idsWith env work s t .unscheduled work.spec.workloadGroups
  work_eq : r.work = { work with status := (updatedWorkStatus work r.unscheduled
    (idsWith env work s t .misplaced work.spec.workloadGroups)).2 }
  stored : t.cluster.find .work work.key = some r.work
  swept : ∀ key x, t.placement key = some x → BelongsTo work x →
    (∃ g ∈ work.spec.workloadGroups, groupID x = some g.id) ∨ x.metadata.deleting = true
  tidy : Tidy work t
  lasting : Lasting work t
  destinations : t.cluster.objects .destination = s.cluster.objects .destination

theorem exec_reconcileWork_settled {r : ScheduleResult} (hc : Callable work s)
    (hname : isValidLabelValue work.metadata.name = true)
    (hid : ∀ g ∈ work.spec.workloadGroups, isValidLabelValue g.id = true)
    (he : Exec (unfailing env) (reconcileWork env work) s r t) : CallSettled env work s r t := by
  obtain ⟨a, u, hgroups, hrest⟩ := exec_bind.mp he
  have hrun := exec_reconcileWorkloadGroups refines_unfailing hgroups
  obtain ⟨hsettled, rfl⟩ := exec_reconcileWorkloadGroups_settled hc.ns hname hid hc.prefixes
    hc.tidy hc.lasting hgroups
  simp only [List.nil_append] at hrest
  have hfind : u.cluster.find .work work.key = some work := by
    have hmem : work ∈ u.cluster.objects .work := by
      rw [hrun.others (by decide)]
      exact hc.stored
    exact Cluster.find_key hmem
  -- the status is written, or it is the stored one already
  generalize hunscheduled : idsWith env work s u .unscheduled work.spec.workloadGroups = us at hrest
  generalize hmisplaced : idsWith env work s u .misplaced work.spec.workloadGroups = ms at hrest
  obtain ⟨work', hwork'⟩ : ∃ work' : Work,
    work' = { work with status := (updatedWorkStatus work us ms).2 } := ⟨_, rfl⟩
  obtain ⟨v, err, hsame, hstored, hclean, rfl⟩ : ∃ v err, SamePlacements u v ∧
      v.cluster.find .work work.key = some work' ∧
      Exec (unfailing env) (cleanupDanglingWorkplacements env work') v err t ∧
      r = ⟨us, err, work'⟩ := by
    split at hrest
    · obtain ⟨⟨err, w⟩, v, hstatus, hret⟩ := exec_bind.mp hrest
      obtain ⟨hsame, -⟩ := exec_writeWorkStatus (hstatus.mono faulty_of_unfailing)
      obtain ⟨b, v', hupdate, hret'⟩ := exec_bind.mp hstatus
      have hold : u.cluster.find .work
          ({ work with status := (updatedWorkStatus work us ms).2 } : Work).key = some work := hfind
      obtain ⟨rfl, c, hrep, rfl⟩ := exec_updateStatus_stored hold hupdate
      obtain ⟨hw, rfl⟩ := hret'
      cases hw
      obtain ⟨err, v', hclean, hret''⟩ := exec_bind.mp hret
      obtain ⟨rfl, rfl⟩ := hret''
      rw [← hwork'] at hclean hrep ⊢
      exact ⟨_, err, hsame, hrep.find_self, hclean, rfl⟩
    · next hsame =>
      obtain ⟨b, v, hpure, hret⟩ := exec_bind.mp hrest
      obtain ⟨rfl, rfl⟩ := hpure
      obtain ⟨err, v', hclean, hret'⟩ := exec_bind.mp hret
      obtain ⟨rfl, rfl⟩ := hret'
      rw [← hwork'] at hclean ⊢
      refine ⟨v, err, fun _ _ => rfl, ?_, hclean, rfl⟩
      rw [hfind, hwork', updatedWorkStatus_unchanged (by simpa using hsame)]
  obtain rfl := succeeds_cleanupDanglingWorkplacements hclean
  obtain ⟨hdel, hall⟩ := exec_cleanupDanglingWorkplacements (hclean.mono faulty_of_unfailing)
  have hdangling : Dangling env v work' = Dangling env v work := by
    subst hwork'
    rfl
  rw [hdangling] at hdel hall
  have hafter (g : WorkloadGroup) (hg : g ∈ work.spec.workloadGroups) (key : String × String)
      (x : WorkPlacement) : Holds t work g.id key x ↔ Holds u work g.id key x :=
    (hdel.holds_iff hc.ns hg).trans hsame.holds_iff
  have hids (st : SchedulingStatus) : idsWith env work s t st work.spec.workloadGroups =
      idsWith env work s u st work.spec.workloadGroups := by
    unfold idsWith
    congr 1
    refine List.filter_congr fun g hg => ?_
    rw [settledStatus_congr rfl (hafter g hg)]
  have htidy := ((hrun.tidy hc.prefixes.length hc.tidy).of_samePlacements hsame).of_deletes hdel
  refine ⟨fun g hg => ?_, rfl, ?_, ?_, ?_, fun key x hx hbelongs => ?_, htidy, ?_, ?_⟩
  · exact (hsettled g hg).congr rfl (hafter g hg) fun _ _ => Iff.rfl
  · rw [hids, hunscheduled]
  · rw [hids, hmisplaced, hwork']
  · rw [← hstored]
    unfold Cluster.find
    rw [hdel.others .work (by decide)]
  · cases hlive : x.metadata.deleting with
    | true => exact Or.inr rfl
    | false =>
      obtain ⟨g, -, hgroup, -⟩ := htidy.regular key x hx hbelongs
      obtain ⟨g', hg', heq⟩ := hdel.swept (hall rfl) hc.ns ⟨hx, hbelongs, hgroup⟩ hlive
        fun hv hne g' hg' => not_mem_existingPlacements hc.ns (hid g' hg') hv (hne g' hg')
      exact Or.inl ⟨g', hg', heq ▸ hgroup⟩
  · have hu := hrun.lasting hc.lasting
    exact hdel.lasting fun key x hx => hu key x ((hsame.placement key).symm.trans hx)
  · rw [hdel.others _ (by decide), hsame _ (by decide), hrun.others (by decide)]

/-! ### Requests that change nothing -/

section

variable {k : Kind} {ns name : String}

theorem still_getObject {o : scheme.Obj k} (hf : s.cluster.find k (ns, name) = some o) :
    Still (unfailing env) (· = .ok o) (getObject k ns name) s := by
  refine still_perform fun a u hc => ?_
  obtain ⟨hu, ⟨-, hnone⟩ | ⟨o', ha, hsome⟩⟩ := exec_getObject_unfailing (exec_perform.mpr hc)
  · rw [hf] at hnone
    cases hnone
  · obtain rfl : o = o' := Option.some.inj (hf.symm.trans hsome)
    exact ⟨hu, ha⟩

theorem still_getObject_missing (hf : s.cluster.find k (ns, name) = none) :
    Still (unfailing env) (· = .error .notFound) (getObject k ns name) s := by
  refine still_perform fun a u hc => ?_
  obtain ⟨hu, ⟨ha, -⟩ | ⟨o, -, hsome⟩⟩ := exec_getObject_unfailing (exec_perform.mpr hc)
  · exact ⟨hu, ha⟩
  · rw [hf] at hsome
    cases hsome

theorem still_listObjects (sel : Selector) :
    Still (unfailing env) (· = .ok (s.cluster.listed k ns sel)) (listObjects k ns sel) s :=
  still_perform fun _ _ hc => exec_listObjects_unfailing (exec_perform.mpr hc)

theorem still_updateObject {o stored : scheme.Obj k} (hf : s.cluster.find k o.key = some stored)
    (hsame : (stored.accept o).settle = some stored) :
    Still (unfailing env) (fun _ => True) (updateObject k o) s := by
  refine still_perform fun a u hc => ⟨?_, trivial⟩
  have hu := (Prod.mk.inj hc.1).2
  rw [serve_update_same hf hsame] at hu
  exact hu

theorem still_deleteObject {stored : scheme.Obj k} (hf : s.cluster.find k (ns, name) = some stored)
    (hsame : stored.markDeleting.settle = some stored) :
    Still (unfailing env) (fun _ => True) (deleteObject k ns name) s := by
  refine still_perform fun a u hc => ⟨?_, trivial⟩
  have hu := (Prod.mk.inj hc.1).2
  rw [serve_delete_same hf hsame] at hu
  exact hu

end

/-! ### The parts of a call -/

theorem still_listWorkplacementWithLabels (ns : String) (l : Labels) :
    Still (unfailing env)
      (· = .ok (s.cluster.listed .workPlacement ns (selectorOrEverything env l)))
      (listWorkplacementWithLabels env ns l) s := by
  refine still_bind (still_listObjects _) ?_
  rintro _ rfl
  exact still_pure rfl

theorem still_getTargetDestinationNames (m : Labels) (work : Work) :
    Still (unfailing env)
      (fun names => Exec (unfailing env) (getTargetDestinationNames env m work) s names s)
      (getTargetDestinationNames env m work) s := by
  refine Still.of_exec (Q := fun _ => True) ?_ fun _ he => he
  refine still_bind (Q := fun _ => True) ?_ ?_
  · refine still_bind (still_listObjects _) ?_
    rintro _ rfl
    exact still_pure trivial
  · rintro (_ | ⟨dest, dests⟩) -
    · exact still_pure trivial
    · dsimp only
      split
      · refine still_bind (Q := fun _ => True) (still_perform fun a u hc => ⟨?_, trivial⟩)
          fun _ _ => still_pure trivial
        exact hc.1.2
      · exact still_pure trivial

theorem still_updateWorkPlacementStatus {ns name : String} {misplaced : Bool} {x : WorkPlacement}
    (hx : s.placement (ns, name) = some x)
    (htold : AlreadySet x.status.conditions (workPlacementConditions misplaced)) :
    Still (unfailing env) (fun _ => True) (updateWorkPlacementStatus ns name misplaced) s := by
  refine still_bind (still_getObject hx) ?_
  rintro _ rfl
  dsimp only
  rw [show setStatusConditions _ _ _ = _ from htold]
  exact still_pure trivial

theorem still_applyWorkplacement {d : String} {misplaced : Bool} {x : WorkPlacement}
    (hx : s.placement (placementKey work g d) = some x) (hfixed : Fixed work g d misplaced x) :
    Still (unfailing env) (fun _ => True) (applyWorkplacement g work d misplaced) s := by
  refine still_bind (Q := fun _ => True) (still_bind (still_getObject hx) ?_) ?_
  · rintro _ rfl
    dsimp only
    rw [hfixed.mutated]
    dsimp only
    rw [if_pos rfl]
    exact still_pure trivial
  · rintro (_ | e) -
    · exact still_updateWorkPlacementStatus hx hfixed.told
    · exact still_pure trivial

theorem still_applyWorkplacements {targets : StringMap Bool} {names : List String}
    (hnames : ∀ d ∈ names, ∃ x, s.placement (placementKey work g d) = some x ∧
      Fixed work g d ((targets.lookup d).getD false) x) :
    Still (unfailing env) (fun _ => True) (applyWorkplacements g work targets names) s := by
  induction names with
  | nil => exact still_pure trivial
  | cons d names ih =>
    obtain ⟨x, hx, hfixed⟩ := hnames d List.mem_cons_self
    refine still_bind (still_applyWorkplacement hx hfixed) ?_
    rintro (_ | e) -
    · exact ih fun d' hd' => hnames d' (List.mem_cons_of_mem d hd')
    · exact still_pure trivial

theorem settle_of_lasting {σ τ : Type} {x : Object σ τ}
    (hlast : x.metadata.deleting = true → x.metadata.finalizers ≠ []) : x.settle = some x := by
  unfold Object.settle
  cases hd : x.metadata.deleting
  · simp
  · simp [hlast hd]

theorem still_updateWorkPlacement {x : WorkPlacement} (hx : s.placement x.key = some x)
    (hlast : x.metadata.deleting = true → x.metadata.finalizers ≠ [])
    (hloads : x.spec.workloads = g.workloads)
    (hlabel : isMisplaced env g s x = true → labelWorkplacementAsMisplaced x = x)
    (htold : AlreadySet x.status.conditions (workPlacementConditions (isMisplaced env g s x))) :
    Still (unfailing env) (fun _ => True) (updateWorkPlacement env g x) s := by
  refine still_bind (Q := (· = chosenDestinations env
    (resolveDestinationSelectorsForWorkloadGroup g) s)) ?_ ?_
  · refine still_bind (still_listObjects _) ?_
    rintro _ rfl
    exact still_pure rfl
  · rintro _ rfl
    have hself : (if isMisplaced env g s x then labelWorkplacementAsMisplaced x else x) = x := by
      split
      · next hm => exact hlabel hm
      · rfl
    have hwritten : ({ x with spec := { x.spec with workloads := g.workloads } } :
        WorkPlacement) = x := by
      rw [← hloads]
    dsimp only
    rw [show (!(chosenDestinations env (resolveDestinationSelectorsForWorkloadGroup g) s).any
      fun dest => dest.metadata.name == x.spec.targetDestinationName) =
        isMisplaced env g s x from rfl, hself, hwritten]
    refine still_bind (still_updateObject hx (settle_of_lasting hlast)) ?_
    rintro (e | y) -
    · exact still_pure trivial
    · refine still_bind (still_updateWorkPlacementStatus hx htold) ?_
      rintro (_ | e) - <;> exact still_pure trivial

theorem still_updateWorkPlacements {l : List WorkPlacement}
    (hl : ∀ x ∈ l, Still (unfailing env) (fun _ => True) (updateWorkPlacement env g x) s) :
    Still (unfailing env) (fun _ => True) (updateWorkPlacements env g l) s := by
  induction l with
  | nil => exact still_pure trivial
  | cons x l ih =>
    refine still_bind (hl x List.mem_cons_self) fun result _ => ?_
    refine still_bind (ih fun y hy => hl y (List.mem_cons_of_mem x hy)) fun counts _ => ?_
    rcases result with e | (_ | _) <;> exact still_pure trivial

/-! ### A group that is settled -/

/-- What a call in `s` settled, another one in `t` finds settled. -/
theorem GroupSettled.again (hsettled : GroupSettled env work g s t)
    (hdest : t.cluster.objects .destination = s.cluster.objects .destination) :
    GroupSettled env work g t t := by
  have hmis (x : WorkPlacement) : isMisplaced env g s x = isMisplaced env g t x :=
    (isMisplaced_congr hdest rfl).symm
  have hchosen (m : Labels) : chosenDestinations env m s = chosenDestinations env m t := by
    unfold chosenDestinations Cluster.listed
    rw [hdest]
  obtain ⟨-, hworkloads, htold, hmarked, hlabelled, hfixed, hcovered, hplaced⟩ := hsettled
  simp only [hmis, hchosen] at htold hmarked hlabelled hfixed hcovered hplaced
  refine ⟨fun key y hy => ⟨y, hy⟩, hworkloads, htold, fun key x hx => ⟨fun hm => ?_, ?_⟩, hlabelled,
    hfixed, hcovered, hplaced⟩
  · cases hr : work.isResourceRequest with
    | true => exact Or.inr ⟨rfl, x, hx, hm⟩
    | false => exact Or.inl ((hfixed hr key x hx).marked_iff.mp hm)
  · rintro (hm | ⟨-, y, hy, hm⟩)
    · exact (hmarked key x hx).mpr (Or.inl hm)
    · obtain rfl : y = x := Option.some.inj (hy.stored.symm.trans hx.stored)
      exact hm

section

variable (hns : work.metadata.ns ≠ "") (hname : isValidLabelValue work.metadata.name = true)
  (hid : isValidLabelValue g.id = true)
include hns hname hid

theorem still_placeWorkloadGroup (hsettled : GroupSettled env work g s s) (htidy : Tidy work s)
    (hnone : work.isResourceRequest = true → existingPlacements env s work g = []) :
    Still (unfailing env) (fun _ => True)
      (placeWorkloadGroup env g work (existingPlacements env s work g)) s := by
  have hmem (x : WorkPlacement) : x ∈ existingPlacements env s work g ↔ Holds s work g.id x.key x :=
    mem_existingPlacements_iff hns hname hid
  refine still_bind (still_getTargetDestinationNames _ work) fun names hnames => ?_
  have hchosen := (exec_getTargetDestinationNames (hnames.mono faulty_of_unfailing)).2
  have hall := (exec_getTargetDestinationNames_unfailing hnames).1
  -- there is a WorkPlacement for each name, and it is as it will be written
  have hfixed (d : String) (hd : d ∈ (targetDestinationMap names
      (existingPlacements env s work g)).keys) : ∃ x, s.placement (placementKey work g d) = some x ∧
        Fixed work g d (((targetDestinationMap names (existingPlacements env s work g)).lookup
          d).getD false) x := by
    rw [getD_lookup_targetDestinationMap names _ hd]
    rw [mem_keys_targetDestinationMap] at hd
    have hplaced : ∃ x, Holds s work g.id (placementKey work g d) x := by
      rcases hd with hd | ⟨y, hy, rfl⟩
      · obtain ⟨dest, hdest, rfl, hselected⟩ := hchosen d hd
        have hin := mem_chosenDestinations.mpr ⟨hdest, hselected⟩
        cases hr : work.isResourceRequest with
        | false => exact hsettled.covered hr dest hin
        | true =>
          -- a resource request that has no WorkPlacement has nowhere to go
          obtain ⟨key, x, hx⟩ := hsettled.placed (List.ne_nil_of_mem hin)
          have hx' := (hmem x).mpr (hx.key_eq ▸ hx)
          rw [hnone hr] at hx'
          cases hx'
      · have hy' := (hmem y).mp hy
        exact ⟨y, htidy.key_of_holds hy' ▸ hy'⟩
    obtain ⟨x, hx⟩ := hplaced
    have hdep : work.isResourceRequest = false := by
      cases hr : work.isResourceRequest with
      | false => rfl
      | true =>
        have hx' := (hmem x).mpr (hx.key_eq ▸ hx)
        rw [hnone hr] at hx'
        cases hx'
    have htarget : x.spec.targetDestinationName = d :=
      placementKey_inj (htidy.key_of_holds hx).symm
    have hmis : isMisplaced env g s x = !names.contains d := by
      rw [hall hdep, isMisplaced, htarget]
      simp [List.any_eq]
    have hxfixed := hsettled.fixed hdep _ x hx
    rw [htarget, hmis] at hxfixed
    exact ⟨x, hx.stored, hxfixed⟩
  dsimp only
  split
  · exact still_pure trivial
  · refine still_bind (Q := fun _ => True) ?_ ?_
    · refine still_bind (Q := fun order => order.Perm (targetDestinationMap names
        (existingPlacements env s work g)).keys) (still_perform fun a u hc => ?_)
        fun order horder => ?_
      · exact ⟨hc.1.2, hc.1.1⟩
      · refine still_bind (still_applyWorkplacements fun d hd =>
          hfixed d (horder.mem_iff.mp hd)) ?_
        rintro (_ | e) - <;> exact still_pure trivial
    · rintro (e | b) - <;> exact still_pure trivial

theorem still_reconcileWorkloadGroup (hsettled : GroupSettled env work g s s)
    (htidy : Tidy work s) (hlast : Lasting work s) :
    Still (unfailing env) (fun _ => True) (reconcileWorkloadGroup env g work) s := by
  refine still_bind (still_listWorkplacementWithLabels _ _) ?_
  rintro _ rfl
  change Still (unfailing env) _ (if work.isResourceRequest &&
    !(existingPlacements env s work g).isEmpty then _ else placeWorkloadGroup env g work
      (existingPlacements env s work g)) s
  split
  · refine still_bind (still_updateWorkPlacements fun x hx => ?_) fun counts _ => ?_
    · have hx' := (mem_existingPlacements_iff hns hname hid).mp hx
      exact still_updateWorkPlacement hx'.stored (hlast _ x hx'.stored hx'.belongsTo)
        (hsettled.workloads _ x hx') (hsettled.labelled _ x hx') (hsettled.told _ x hx')
    · dsimp only
      split <;> exact still_pure trivial
  · next hcase =>
    exact still_placeWorkloadGroup hns hname hid hsettled htidy fun hr => by simpa [hr] using hcase

end

/-! ### The second call -/

theorem still_reconcileWorkloadGroups {groups : List WorkloadGroup}
    (hgroups : ∀ g ∈ groups,
      Still (unfailing env) (fun _ => True) (reconcileWorkloadGroup env g work) s)
    (unschedulable misplaced : List String) :
    Still (unfailing env) (fun _ => True)
      (reconcileWorkloadGroups env work groups unschedulable misplaced) s := by
  induction groups generalizing unschedulable misplaced with
  | nil => exact still_pure trivial
  | cons g groups ih =>
    have hrest := ih fun g' hg' => hgroups g' (List.mem_cons_of_mem g hg')
    refine still_bind (hgroups g List.mem_cons_self) fun result _ => ?_
    rcases result with e | st
    · exact still_pure trivial
    · cases st <;> exact hrest _ _

theorem still_namesThatShouldExist (groups : List WorkloadGroup) :
    Still (unfailing env) (fun _ => True) (namesThatShouldExist env work groups) s := by
  induction groups with
  | nil => exact still_pure trivial
  | cons g groups ih =>
    refine still_bind (still_listWorkplacementWithLabels _ _) ?_
    rintro _ rfl
    refine still_bind ih ?_
    rintro (e | names) - <;> exact still_pure trivial

theorem still_deleteWorkPlacements {wps : List WorkPlacement}
    (hwps : ∀ x ∈ wps, s.placement x.key = some x ∧ x.markDeleting.settle = some x) :
    Still (unfailing env) (fun _ => True) (deleteWorkPlacements wps) s := by
  induction wps with
  | nil => exact still_pure trivial
  | cons x wps ih =>
    obtain ⟨hx, hsame⟩ := hwps x List.mem_cons_self
    refine still_bind (still_deleteObject hx hsame) ?_
    rintro (e | _) -
    · exact still_pure trivial
    · exact ih fun y hy => hwps y (List.mem_cons_of_mem x hy)

theorem still_cleanupDanglingWorkplacements
    (hdangling : ∀ x, Dangling env s work x → x.markDeleting.settle = some x) :
    Still (unfailing env) (fun _ => True) (cleanupDanglingWorkplacements env work) s := by
  refine still_bind (Still.of_exec (still_namesThatShouldExist _) fun _ he => he) ?_
  rintro (e | names) hnames
  · exact still_pure trivial
  · refine still_bind (still_listWorkplacementWithLabels _ _) ?_
    rintro _ rfl
    have hkeep := (exec_namesThatShouldExist (hnames.mono faulty_of_unfailing)).2 names rfl
    refine still_deleteWorkPlacements fun x hx => ?_
    obtain ⟨hlisted, hname⟩ := List.mem_filter.mp hx
    refine ⟨Cluster.find_key (Cluster.mem_listed.mp hlisted).1, hdangling x ⟨hlisted, ?_⟩⟩
    intro g hg y hy heq
    simp only [Bool.not_eq_true', ← Bool.not_eq_true, List.contains_iff_mem, hkeep] at hname
    exact hname ⟨g, hg, y, hy, heq⟩

theorem CallSettled.callable {r : ScheduleResult} (hsettled : CallSettled env work s r t)
    (hc : Callable work s) : Callable r.work t := by
  obtain ⟨hmem, hkey⟩ := t.cluster.find_eq_some.mp hsettled.stored
  have htidy := hsettled.tidy
  have hlasting := hsettled.lasting
  rw [hsettled.work_eq] at hmem ⊢
  exact ⟨hc.ns, hmem, hc.prefixes, ⟨htidy.reserved, htidy.regular⟩, hlasting⟩

theorem holds_withStatus {st : WorkStatus} {id : String} {key : String × String}
    {x : WorkPlacement} :
    Holds s { work with status := st } id key x ↔ Holds s work id key x :=
  ⟨fun hx => ⟨hx.stored, hx.belongsTo, hx.groupID_eq⟩,
    fun hx => ⟨hx.stored, hx.belongsTo, hx.groupID_eq⟩⟩

theorem GroupSettled.withStatus (st : WorkStatus) (hsettled : GroupSettled env work g s t) :
    GroupSettled env { work with status := st } g s t := by
  obtain ⟨hkept, hworkloads, htold, hmarked, hlabelled, hfixed, hcovered, hplaced⟩ := hsettled
  refine ⟨?_, ?_, ?_, ?_, ?_, ?_, ?_, ?_⟩ <;> simp only [holds_withStatus]
  · exact hkept
  · exact hworkloads
  · exact htold
  · exact hmarked
  · exact hlabelled
  · intro hr key x hx
    obtain ⟨hplacement, hannotations, hset⟩ := hfixed hr key x hx
    exact ⟨⟨hplacement.key, hplacement.labels, hplacement.spec, hplacement.finalizer,
      hplacement.owner, hplacement.ownerName⟩, hannotations, hset⟩
  · exact hcovered
  · exact hplaced

theorem settledStatus_withStatus (st : WorkStatus) :
    settledStatus env { work with status := st } g s t = settledStatus env work g s t := by
  classical
  refine if_congr ?_ rfl (if_congr ?_ rfl rfl)
  · exact exists₂_congr fun key x => and_congr holds_withStatus Iff.rfl
  · exact exists₂_congr fun key x => holds_withStatus

section

variable {r : ScheduleResult} (hsettled : CallSettled env work s r t)
include hsettled

theorem CallSettled.groups_again :
    ∀ g ∈ r.work.spec.workloadGroups, GroupSettled env r.work g t t := by
  intro g hg
  rw [hsettled.work_eq] at hg ⊢
  exact ((hsettled.groups g hg).again hsettled.destinations).withStatus _

theorem CallSettled.ids_again (st : SchedulingStatus) :
    idsWith env r.work t t st r.work.spec.workloadGroups =
      idsWith env work s t st work.spec.workloadGroups := by
  rw [hsettled.work_eq]
  unfold idsWith
  simp only [settledStatus_withStatus]
  congr 1
  refine List.filter_congr fun g _ => ?_
  rw [settledStatus_congr hsettled.destinations fun _ _ => Iff.rfl]

theorem CallSettled.dangling_again (hc : Callable work s)
    (hname : isValidLabelValue work.metadata.name = true) {x : WorkPlacement}
    (hx : Dangling env t work x) : x.markDeleting.settle = some x := by
  obtain ⟨hlisted, hnone⟩ := hx
  obtain ⟨hstored, hbelongs⟩ := (mem_listed_workNameLabels hname hc.ns).mp hlisted
  rcases hsettled.swept _ x hstored hbelongs with ⟨g, hg, hgroup⟩ | hdel
  · have hheld : Holds t work g.id x.key x := ⟨hstored, hbelongs, hgroup⟩
    exact absurd rfl (hnone g hg x
      ((mem_existingPlacements_iff hc.ns hname hheld.valid.2).mpr hheld))
  · have hsame : x.markDeleting = x := by
      unfold Object.markDeleting
      rw [← hdel]
    rw [hsame]
    exact settle_of_lasting fun _ => hsettled.lasting _ x hstored hbelongs hdel

variable (hc : Callable work s) (hname : isValidLabelValue work.metadata.name = true)
  (hid : ∀ g ∈ work.spec.workloadGroups, isValidLabelValue g.id = true)
include hc hname hid

theorem CallSettled.still_groups : Still (unfailing env)
    (· = .ok (r.unscheduled, idsWith env work s t .misplaced work.spec.workloadGroups))
    (reconcileWorkloadGroups env r.work r.work.spec.workloadGroups [] []) t := by
  obtain ⟨hns, hstored, hprefixes, htidy, hlasting⟩ := hsettled.callable hc
  have hname' : isValidLabelValue r.work.metadata.name = true := by
    rw [hsettled.work_eq]
    exact hname
  have hid' : ∀ g ∈ r.work.spec.workloadGroups, isValidLabelValue g.id = true := by
    rw [hsettled.work_eq]
    exact hid
  have hstill := still_reconcileWorkloadGroups (fun g hg =>
    still_reconcileWorkloadGroup hns hname' (hid' g hg) (hsettled.groups_again g hg) htidy hlasting)
    [] []
  refine hstill.of_exec fun a he => ?_
  rw [(exec_reconcileWorkloadGroups_settled hns hname' hid' hprefixes htidy hlasting he).2,
    hsettled.ids_again, hsettled.ids_again, hsettled.unscheduled]
  rfl

theorem CallSettled.still : Still (unfailing env)
    (fun r' => r'.err = none ∧ r'.unscheduled = r.unscheduled ∧ r'.work = r.work)
    (reconcileWork env r.work) t := by
  refine still_bind (hsettled.still_groups hc hname hid) ?_
  rintro _ rfl
  dsimp only
  have hstatus : updatedWorkStatus r.work r.unscheduled
      (idsWith env work s t .misplaced work.spec.workloadGroups) = (false, r.work.status) := by
    rw [hsettled.work_eq]
    exact updatedWorkStatus_again _ _ _
  rw [hstatus]
  refine still_bind (Q := (· = (none, r.work))) (still_pure rfl) ?_
  rintro _ rfl
  refine still_bind (Q := (· = none)) (Still.of_exec
    (still_cleanupDanglingWorkplacements fun x hx => ?_) fun a he => ?_) ?_
  · have hx' : Dangling env t work x := by
      rw [hsettled.work_eq] at hx
      exact hx
    exact hsettled.dangling_again hc hname hx'
  · exact succeeds_cleanupDanglingWorkplacements he
  · rintro _ rfl
    exact still_pure ⟨rfl, rfl, rfl⟩

end

end Kratix
