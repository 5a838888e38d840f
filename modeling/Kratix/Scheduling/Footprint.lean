import Kratix.Scheduling.Effect

/-!
# What scheduling may touch

To schedule its groups, a Work's Destinations and WorkPlacements are listed, and
WorkPlacements are read and written. Only the status of the Work and the deletion
of what dangles come on top. So scheduling obeys every policy that lets it write
WorkPlacements.
-/

namespace Kratix

open Apiserver Effect

/-- Among the calls are all that place a group. -/
structure Placing (P : Call → Prop) : Prop where
  destinations : ∀ ns sel, P (.api (.list .destination ns sel))
  placements : ∀ ns sel, P (.api (.list .workPlacement ns sel))
  get : ∀ ns name, P (.api (.get .workPlacement ns name))
  create : ∀ wp, P (.api (.create .workPlacement wp))
  update : ∀ wp, P (.api (.update .workPlacement wp))
  status : ∀ wp, P (.api (.updateStatus .workPlacement wp))
  random : ∀ n, P (.randIntn n)
  order : ∀ keys, P (.mapOrder keys)

theorem placing_obeys {p : Policy} (hwrite : ∀ wp : WorkPlacement, p.write ⟨.workPlacement, wp⟩)
    (hstatus : p.status .workPlacement) : Placing (Call.Obeys p) where
  destinations := fun _ _ => trivial
  placements := fun _ _ => trivial
  get := fun _ _ => trivial
  create := hwrite
  update := hwrite
  status := fun _ => hstatus
  random := fun _ => trivial
  order := fun _ => trivial

theorem placing_sparing {k : Kind} (hk : .workPlacement ≠ k) : Placing (Call.Obeys (sparing k)) :=
  placing_obeys (fun _ => hk) hk

theorem calls_updateWorkPlacementStatus {P : Call → Prop}
    (hget : ∀ ns name, P (.api (.get .workPlacement ns name)))
    (hstatus : ∀ wp, P (.api (.updateStatus .workPlacement wp))) (ns name : String)
    (misplaced : Bool) : (updateWorkPlacementStatus ns name misplaced).Calls P := by
  refine calls_bind (calls_perform.mpr (hget _ _)) ?_
  rintro (e | wp)
  · exact calls_pure _
  · dsimp only
    split
    · exact calls_pure _
    · refine calls_bind (calls_perform.mpr (hstatus _)) ?_
      rintro (e | x) <;> exact calls_pure _

section

variable {env : Externals} {P : Call → Prop} (hP : Placing P)
include hP

theorem calls_getDestinationsForWorkloadGroup (m : Labels) :
    (getDestinationsForWorkloadGroup env m).Calls P := by
  refine calls_bind (calls_perform.mpr (hP.destinations _ _)) ?_
  rintro (e | items) <;> exact calls_pure _

theorem calls_getTargetDestinationNames (m : Labels) (work : Work) :
    (getTargetDestinationNames env m work).Calls P := by
  refine calls_bind (calls_getDestinationsForWorkloadGroup hP m) ?_
  rintro (_ | ⟨d, ds⟩)
  · exact calls_pure _
  · dsimp only
    split
    · exact calls_bind (calls_perform.mpr (hP.random _)) fun _ => calls_pure _
    · exact calls_pure _

theorem calls_listWorkplacementWithLabels (ns : String) (l : Labels) :
    (listWorkplacementWithLabels env ns l).Calls P := by
  refine calls_bind (calls_perform.mpr (hP.placements _ _)) ?_
  rintro (e | items) <;> exact calls_pure _

theorem calls_createOrUpdate (new : WorkPlacement)
    (mutate : WorkPlacement → Except Failure WorkPlacement) :
    (createOrUpdate .workPlacement new mutate).Calls P := by
  refine calls_bind (calls_perform.mpr (hP.get _ _)) fun r => ?_
  split
  · split
    · exact calls_pure _
    · refine calls_bind (calls_perform.mpr (hP.create _)) ?_
      rintro (e | x) <;> exact calls_pure _
  · exact calls_pure _
  · split
    · exact calls_pure _
    · split
      · exact calls_pure _
      · refine calls_bind (calls_perform.mpr (hP.update _)) ?_
        rintro (e | x) <;> exact calls_pure _

variable (g : WorkloadGroup) (work : Work)

theorem calls_applyWorkplacement (d : String) (misplaced : Bool) :
    (applyWorkplacement g work d misplaced).Calls P := by
  refine calls_bind (calls_createOrUpdate hP _ _) ?_
  rintro (_ | e)
  · exact calls_updateWorkPlacementStatus hP.get hP.status _ _ _
  · exact calls_pure _

theorem calls_applyWorkplacements (targets : StringMap Bool) (names : List String) :
    (applyWorkplacements g work targets names).Calls P := by
  induction names with
  | nil => exact calls_pure _
  | cons d names ih =>
    refine calls_bind (calls_applyWorkplacement hP g work d _) ?_
    rintro (_ | e)
    · exact ih
    · exact calls_pure _

theorem calls_placeWorkloadGroup (existing : List WorkPlacement) :
    (placeWorkloadGroup env g work existing).Calls P := by
  refine calls_bind (calls_getTargetDestinationNames hP _ _) fun names => ?_
  dsimp only
  split
  · exact calls_pure _
  · refine calls_bind (calls_bind (calls_perform.mpr (hP.order _)) fun order => ?_) ?_
    · refine calls_bind (calls_applyWorkplacements hP g work _ _) ?_
      rintro (_ | e) <;> exact calls_pure _
    · rintro (e | misplaced) <;> exact calls_pure _

theorem calls_updateWorkPlacement (x : WorkPlacement) :
    (updateWorkPlacement env g x).Calls P := by
  refine calls_bind (calls_getDestinationsForWorkloadGroup hP _) fun destinations => ?_
  refine calls_bind (calls_perform.mpr (hP.update _)) ?_
  rintro (e | stored)
  · exact calls_pure _
  · refine calls_bind (calls_updateWorkPlacementStatus hP.get hP.status _ _ _) ?_
    rintro (_ | e) <;> exact calls_pure _

theorem calls_updateWorkPlacements (listed : List WorkPlacement) :
    (updateWorkPlacements env g listed).Calls P := by
  induction listed with
  | nil => exact calls_pure _
  | cons x listed ih =>
    refine calls_bind (calls_updateWorkPlacement hP g x) fun r => ?_
    refine calls_bind ih fun counts => ?_
    rcases r with e | _ | _ <;> exact calls_pure _

theorem calls_reconcileWorkloadGroup : (reconcileWorkloadGroup env g work).Calls P := by
  refine calls_bind (calls_listWorkplacementWithLabels hP _ _) ?_
  rintro (e | existing)
  · exact calls_pure _
  · dsimp only
    split
    · refine calls_bind (calls_updateWorkPlacements hP g existing) fun counts => ?_
      split <;> exact calls_pure _
    · exact calls_placeWorkloadGroup hP g work existing

theorem calls_reconcileWorkloadGroups (groups : List WorkloadGroup)
    (unschedulable misplaced : List String) :
    (reconcileWorkloadGroups env work groups unschedulable misplaced).Calls P := by
  induction groups generalizing unschedulable misplaced with
  | nil => exact calls_pure _
  | cons g groups ih =>
    refine calls_bind (calls_reconcileWorkloadGroup hP g work) ?_
    rintro (e | _ | _ | _)
    · exact calls_pure _
    · exact ih _ _
    · exact ih _ _
    · exact ih _ _

end

section

variable {env : Externals} {p : Policy} (hp : p.delete .workPlacement)
include hp

theorem obeys_deleteWorkPlacements (wps : List WorkPlacement) :
    Obeys p (deleteWorkPlacements wps) := by
  induction wps with
  | nil => exact obeys_pure _
  | cons x wps ih =>
    refine obeys_bind (obeys_deleteObject hp _ _) ?_
    rintro (e | _)
    · exact obeys_pure _
    · exact ih

theorem obeys_cleanupDanglingWorkplacements (work : Work) :
    Obeys p (cleanupDanglingWorkplacements env work) := by
  refine obeys_bind (obeys_namesThatShouldExist work _) ?_
  rintro (e | names)
  · exact obeys_pure _
  · refine obeys_bind (obeys_listWorkplacementWithLabels _ _) ?_
    rintro (e | wps)
    · exact obeys_pure _
    · exact obeys_deleteWorkPlacements hp _

end

end Kratix
