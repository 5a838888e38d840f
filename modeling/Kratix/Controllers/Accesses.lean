import Kratix.Controllers.WorkPlacement

/-!
# What a WorkPlacement's reconcile may call

The calls of the reading, the writing and the deleting part, for any set of
calls that has those they need.
-/

namespace Kratix.WorkPlacementController

open Apiserver Effect GoPath

/-- Among the calls are all that read. -/
structure Reading (P : Call → Prop) : Prop where
  get : ∀ k ns name, P (.api (.get k ns name))
  placements : ∀ ns sel, P (.api (.list .workPlacement ns sel))
  connect : ∀ ref, P (.connect ref)
  read : ∀ w path, P (.readFile w path)

variable {env : Externals} {P : Call → Prop} {wp : WorkPlacement} {dest : Destination} {w : Writer}
  (hP : Reading P)

section

include hP

theorem calls_newWriter (ref : StateStoreRef) (path : Path) : (newWriter ref path).Calls P := by
  refine calls_bind (calls_perform.mpr (hP.get _ _ _)) fun r => ?_
  cases r with
  | error e => exact calls_pure _
  | ok store =>
    refine calls_bind (calls_perform.mpr (hP.connect _)) fun r => ?_
    cases r <;> exact calls_pure _

theorem calls_getAllWorkplacementsForDestination (name : String) :
    (getAllWorkplacementsForDestination name).Calls P := by
  refine calls_bind (calls_perform.mpr (hP.placements _ _)) fun r => ?_
  cases r <;> exact calls_pure _

/-- Only for a deleted WorkPlacement the file is written here. -/
theorem calls_handleAggregatedYAML (dir : Path)
    (hfiles : wp.metadata.deleting = true → ∀ dir name create delete,
      P (.updateFiles w dir name create delete))
    (hupdate : wp.metadata.deleting = true →
      P (.api (.update .workPlacement (removeFinalizer wp Finalizer.repoCleanup)))) :
    (handleAggregatedYAML env wp dest dir w).Calls P := by
  refine calls_bind (calls_getAllWorkplacementsForDestination hP _) fun r => ?_
  rcases r with e | (_ | ⟨x, xs⟩)
  · exact calls_pure _
  · exact calls_pure _
  · dsimp only
    split
    · exact calls_pure _
    · split
      · next hdeleting =>
        refine calls_bind (calls_perform.mpr (hfiles hdeleting _ _ _ _)) fun r => ?_
        cases r with
        | error e => exact calls_pure _
        | ok v =>
          refine calls_bind (calls_perform.mpr (hupdate hdeleting)) fun r => ?_
          cases r <;> exact calls_pure _
      · exact calls_pure _

theorem calls_generateKratixStateFile : (generateKratixStateFile env wp w).Calls P := by
  refine calls_bind (calls_perform.mpr (hP.read _ _)) fun r => ?_
  split
  · exact calls_pure _
  · exact calls_pure _
  · split <;> exact calls_pure _

end

theorem calls_storeUpdate (hfiles : ∀ dir name create delete,
      P (.updateFiles w dir name create delete)) (dir : Path) (create : List Workload)
    (delete : List Path) : (storeUpdate w dir wp create delete).Calls P := by
  refine calls_bind (calls_perform.mpr (hfiles _ _ _ _)) fun r => ?_
  cases r <;> exact calls_pure _

theorem calls_delete (hfiles : ∀ dir name create delete, P (.updateFiles w dir name create delete))
    {finalizer : String}
    (hupdate : P (.api (.update .workPlacement (removeFinalizer wp finalizer)))) (dir : Path)
    (files : List Path) :
    (WorkPlacementController.delete w dir wp files finalizer).Calls P := by
  refine calls_bind (calls_perform.mpr (hfiles _ _ _ _)) fun r => ?_
  cases r with
  | error e => exact calls_pure _
  | ok v =>
    refine calls_bind (calls_perform.mpr hupdate) fun r => ?_
    cases r <;> exact calls_pure _

section

include hP

theorem calls_writeWorkloadsToStateStore
    (hfiles : ∀ dir name create delete, P (.updateFiles w dir name create delete))
    (hupdate : P (.api (.update .workPlacement (removeFinalizer wp Finalizer.repoCleanup)))) :
    (writeWorkloadsToStateStore env w wp dest).Calls P := by
  unfold writeWorkloadsToStateStore
  split
  · refine calls_bind (calls_handleAggregatedYAML hP _ (fun _ => hfiles) fun _ => hupdate)
      fun r => ?_
    cases r with
    | error e => exact calls_pure _
    | ok out => exact calls_storeUpdate hfiles _ _ _
  · refine calls_bind (calls_generateKratixStateFile hP) fun r => ?_
    cases r with
    | error e => exact calls_pure _
    | ok out =>
      dsimp only
      split
      · exact calls_pure _
      · exact calls_storeUpdate hfiles _ _ _
  · split
    · exact calls_pure _
    · exact calls_storeUpdate hfiles _ _ _

variable (hfiles : ∀ w dir name create delete, P (.updateFiles w dir name create delete))
  (hupdate : ∀ x : WorkPlacement, x.key = wp.key → P (.api (.update .workPlacement x)))

include hfiles hupdate

theorem calls_deleteFromDestination : (deleteFromDestination env dest w wp).Calls P := by
  have hremove (finalizer : String) :
      P (.api (.update .workPlacement (removeFinalizer wp finalizer))) := hupdate _ rfl
  unfold deleteFromDestination
  split
  · split
    · exact calls_delete (hfiles w) (hremove _) _ _
    · refine calls_bind (calls_perform.mpr (hP.read _ _)) fun r => ?_
      cases r with
      | error e => exact calls_pure _
      | ok file =>
        dsimp only
        split
        · exact calls_pure _
        · exact calls_delete (hfiles w) (hremove _) _ _
    · refine calls_bind (calls_handleAggregatedYAML hP _ (fun _ => hfiles w) fun _ => hremove _)
        fun r => ?_
      rcases r with e | ⟨workload, _ | _⟩
      · exact calls_pure _
      · exact calls_delete (hfiles w) (hremove _) _ _
      · exact calls_pure _
  · split
    · exact calls_delete (hfiles w) (hremove _) _ _
    · exact calls_pure _

theorem calls_handleDeletion (found : Except ApiError Destination) :
    (handleDeletion env wp found).Calls P := by
  unfold handleDeletion
  split
  · refine calls_bind (calls_perform.mpr (hupdate _ rfl)) fun r => ?_
    cases r <;> exact calls_pure _
  · exact calls_pure _
  · refine calls_bind (calls_newWriter hP _ _) fun r => ?_
    cases r with
    | error e => exact calls_pure _
    | ok w => exact calls_deleteFromDestination hP hfiles hupdate

end

end Kratix.WorkPlacementController
