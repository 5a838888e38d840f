import Kratix.Scheduling.Groups

/-!
# Runs of the scheduler

The scheduler is called for one Work again and again. In between the Work, the
Destinations and everything else in the cluster change, but only the scheduler
makes WorkPlacements of the Work.
-/

namespace Kratix

open Apiserver Effect

variable {env : Externals} {s t : World} {work : Work}

/-! ### Versions of a Work -/

section

variable {work' : Work}

theorem placementKey_congr (hkey : work'.key = work.key) :
    placementKey work' = placementKey work := by
  funext g d
  rw [placementKey, placementKey, workPlacementName, workPlacementName,
    show work'.metadata.ns = work.metadata.ns from congrArg Prod.fst hkey,
    show work'.metadata.name = work.metadata.name from congrArg Prod.snd hkey]

theorem belongsTo_congr (hkey : work'.key = work.key) : BelongsTo work' = BelongsTo work := by
  funext x
  rw [BelongsTo, BelongsTo, show work'.metadata.ns = work.metadata.ns from congrArg Prod.fst hkey,
    show work'.metadata.name = work.metadata.name from congrArg Prod.snd hkey]

theorem Tidy.congr (hkey : work'.key = work.key) (hs : Tidy work s) : Tidy work' s := by
  constructor
  · intro g d x hx
    rw [placementKey_congr hkey] at hx
    rw [belongsTo_congr hkey, show work'.metadata.name = work.metadata.name from
      congrArg Prod.snd hkey]
    exact hs.reserved g d x hx
  · intro key x hx hbelongs
    rw [placementKey_congr hkey]
    exact hs.regular key x hx (belongsTo_congr hkey ▸ hbelongs)

theorem Holds.congr (hkey : work'.key = work.key) {id : String} {key : String × String}
    {x : WorkPlacement} (hx : Holds s work id key x) : Holds s work' id key x :=
  ⟨hx.stored, belongsTo_congr hkey ▸ hx.belongsTo, hx.groupID_eq⟩

end

/-- No WorkPlacement has a label or a name of the Work. -/
def Unplaced (work : Work) (s : World) : Prop :=
  ∀ key x, s.placement key = some x → ¬ BelongsTo work x ∧ ∀ g d, key ≠ placementKey work g d

theorem Unplaced.tidy (hs : Unplaced work s) : Tidy work s :=
  ⟨fun g d x hx => absurd rfl ((hs _ x hx).2 g d), fun key x hx hb => absurd hb (hs key x hx).1⟩

/-! ### Calls -/

/-- Whatever happens between calls leaves the names, labels, targets and owners
of the Work's WorkPlacements alone and makes no new ones. -/
def OnlyAlike (work : Work) (s t : World) : Prop :=
  ∀ key y, t.placement key = some y → (BelongsTo work y ∨ ∃ g d, key = placementKey work g d) →
    ∃ x, s.placement key = some x ∧ Alike x y

theorem OnlyAlike.tidy (halike : OnlyAlike work s t) (hs : Tidy work s) : Tidy work t := by
  constructor
  · intro g d y hy
    obtain ⟨x, hx, hxy⟩ := halike _ y hy (Or.inr ⟨g, d, rfl⟩)
    obtain ⟨hbelongs, howner⟩ := hs.reserved g d x hx
    exact ⟨hxy.belongsTo_iff.mpr hbelongs, hxy.ownerName.trans howner⟩
  · intro key y hy hbelongs
    obtain ⟨x, hx, hxy⟩ := halike key y hy (Or.inl hbelongs)
    obtain ⟨g, hkey, hgroup, hlen⟩ := hs.regular key x hx (hxy.belongsTo_iff.mp hbelongs)
    exact ⟨g, by rw [hkey, hxy.target], hxy.group.trans hgroup, hlen⟩

theorem OnlyAlike.holds_origin (halike : OnlyAlike work s t) {id : String}
    {key : String × String} {y : WorkPlacement} (hy : Holds t work id key y) :
    ∃ x, Holds s work id key x := by
  obtain ⟨x, hx, hxy⟩ := halike key y hy.stored (Or.inl hy.belongsTo)
  exact ⟨x, hx, hxy.belongsTo_iff.mp hy.belongsTo, hxy.group.symm.trans hy.groupID_eq⟩

/-- The states reached by calls for versions of the Work, each made under the
guard, from a cluster in which the Work is not placed. -/
inductive CallRun (env : Externals) (guard : Work → World → Prop) (origin : Work) : World → Prop
  | start {s : World} (hs : Unplaced origin s) : CallRun env guard origin s
  | call {s t : World} {work : Work} {r : ScheduleResult} (hs : CallRun env guard origin s)
      (hkey : work.key = origin.key) (hguard : guard work s)
      (he : Exec (faulty env) (reconcileWork env work) s r t) : CallRun env guard origin t
  | other {s t : World} (hs : CallRun env guard origin s) (halike : OnlyAlike origin s t) :
      CallRun env guard origin t

theorem CallRun.tidy {guard : Work → World → Prop} {origin : Work}
    (hguard : ∀ work s, guard work s → ∀ g ∈ work.spec.workloadGroups, 5 ≤ g.id.length)
    (hs : CallRun env guard origin s) : Tidy origin s := by
  induction hs with
  | start hs => exact hs.tidy
  | call _ hkey hg he ih =>
    exact Tidy.congr hkey.symm (exec_reconcileWork_tidy (fun _ _ _ _ hc => hc) (ih.congr hkey)
      (hguard _ _ hg) he)
  | other _ halike ih => exact halike.tidy ih

end Kratix
