import Kratix.Scheduling.Runs
import Kratix.Scheduling.Soundness

/-!
# Dependencies over runs

Runs of calls without faults for a Work of dependencies. A history records, for
each group, the Destinations that were selected for it since a call first saw
the group, and it says exactly which WorkPlacements there are.
-/

namespace Kratix

open Apiserver Effect

variable {env : Externals} {h : Handler signature World} {s t u : World} {work : Work}
  {g : WorkloadGroup}

/-! ### Groups that the Work no longer has -/

section

variable {id : String} {key : String × String} {x : WorkPlacement}

theorem GroupOutcome.holds_of_ne {r : Except Failure SchedulingStatus}
    (hg : GroupOutcome env h work g s r t) (hdep : work.isResourceRequest = false)
    (hne : g.id ≠ id) (hx : Holds t work id key x) : Holds s work id key x := by
  cases hg with
  | failed heq => exact heq ▸ hx
  | updates hrequest => exact absurd (hdep.symm.trans hrequest) (by simp)
  | places _ _ _ _ _ happlies =>
    rcases happlies.entry key with heq | ⟨d, -, -, y, hy, hover⟩
    · exact ⟨heq ▸ hx.stored, hx.belongsTo, hx.groupID_eq⟩
    · obtain rfl : y = x := Option.some.inj (hy.symm.trans hx.stored)
      exact absurd (Option.some.inj (hover.isPlacement.groupID_eq.symm.trans hx.groupID_eq)) hne

theorem GroupsRun.holds_of_ne {groups : List WorkloadGroup} {b : Bool}
    (hrun : GroupsRun env h work groups s b t) (hdep : work.isResourceRequest = false)
    (hne : ∀ g ∈ groups, g.id ≠ id) (hx : Holds t work id key x) : Holds s work id key x := by
  induction hrun with
  | done s => exact hx
  | stop hg _ => exact hg.holds_of_ne hdep (hne _ (by simp)) hx
  | next hg _ ih =>
    exact hg.holds_of_ne hdep (hne _ (by simp)) (ih (fun g hg => hne g (by simp [hg])) hx)

theorem existingPlacements_of_stored (hs : s.placement key = some x)
    (hx : x ∈ existingPlacements env t work g) : x ∈ existingPlacements env s work g := by
  rw [existingPlacements, Cluster.mem_listed] at hx ⊢
  exact ⟨(s.cluster.find_eq_some.mp hs).1, hx.2⟩

/-- A group whose ID is not a label value finds nothing when it comes through,
so what an earlier group left behind is not taken for its own later. -/
theorem GroupsRun.not_existing {groups : List WorkloadGroup} {b : Bool}
    (hrun : GroupsRun env h work groups s b t) (hb : b = true)
    (hdep : work.isResourceRequest = false) (hne : ∀ g ∈ groups, g.id ≠ id)
    (hx : Holds t work id key x) (hg : g ∈ groups) (hid : isValidLabelValue g.id = false) :
    x ∉ existingPlacements env t work g := by
  induction hrun with
  | done s => cases hg
  | stop _ _ => cases hb
  | @next g₀ groups s u t b st hg₀ hrest ih =>
    have hne' : ∀ g ∈ groups, g.id ≠ id := fun g hg => hne g (by simp [hg])
    rcases List.mem_cons.mp hg with rfl | hg
    · intro hmem
      have hs := hg₀.holds_of_ne hdep (hne g (by simp)) (hrest.holds_of_ne hdep hne' hx)
      have hmem' := existingPlacements_of_stored hs.stored hmem
      cases hg₀ with
      | failed _ hr => exact hr st rfl
      | updates hrequest => exact absurd (hdep.symm.trans hrequest) (by simp)
      | places _ targets _ _ htargets _ hdone =>
        obtain ⟨y, hy, hover, -⟩ := hdone st rfl _ ((htargets _).mpr (Or.inr ⟨x, hmem', rfl⟩))
        have hheld : Holds u work g.id _ y := .of_isPlacement hy hover.isPlacement
        exact absurd (hid.symm.trans hheld.valid.2) (by simp)
    · exact ih hb hne' hx hg

end

/-! ### Histories -/

/-- For each group ID the names of Destinations. -/
abbrev History := String → Set String

/-- The Destinations that the group's selectors select. -/
def selectedNames (g : WorkloadGroup) (s : World) : Set String :=
  { d | ∃ dest ∈ s.cluster.objects .destination,
    Selects (resolveDestinationSelectorsForWorkloadGroup g) dest ∧ dest.metadata.name = d }

/-- A call adds what is selected now and forgets the groups it does not see. -/
def History.next (H : History) (work : Work) (s : World) : History := fun id =>
  { d | ∃ g ∈ work.spec.workloadGroups, g.id = id ∧ (d ∈ H id ∨ d ∈ selectedNames g s) }

/-- The history is where the groups are placed. -/
def Records (work : Work) (H : History) (s : World) : Prop :=
  ∀ id d, d ∈ H id ↔ ∃ key x, Holds s work id key x ∧ x.metadata.deleting = false ∧
    x.spec.targetDestinationName = d

/-- The status says that the WorkPlacement is not where it belongs. -/
def ScheduleFailed (x : WorkPlacement) : Prop :=
  ∃ c, findCondition x.status.conditions ConditionType.scheduleSucceeded = some c ∧
    c.status = .conditionFalse

theorem Reports.scheduleFailed_iff {x : WorkPlacement} {misplaced : Bool}
    (hx : Reports misplaced x.status) : ScheduleFailed x ↔ misplaced = true := by
  obtain ⟨c, hc, hstatus⟩ := hx
  constructor
  · rintro ⟨c', hc', hfalse⟩
    obtain rfl : c = c' := Option.some.inj (hc.symm.trans hc')
    cases misplaced
    · rw [hstatus] at hfalse
      cases hfalse
    · rfl
  · rintro rfl
    exact ⟨c, hc, hstatus⟩

/-- What a WorkPlacement of the group looks like after a call made in `s`. -/
structure Current (work : Work) (g : WorkloadGroup) (s : World) (key : String × String)
    (x : WorkPlacement) : Prop where
  key_eq : key = placementKey work g x.spec.targetDestinationName
  live : x.metadata.deleting = false
  workloads : x.spec.workloads = g.workloads
  marked : isMarkedMisplaced x ↔ x.spec.targetDestinationName ∉ selectedNames g s
  reported : ScheduleFailed x ↔ x.spec.targetDestinationName ∉ selectedNames g s

/-! ### One call -/

/-- The scheduler is called with the stored version of a Work of dependencies,
when none of its WorkPlacements is being deleted. -/
structure DependencyCall (work : Work) (s : World) : Prop where
  ns : work.metadata.ns ≠ ""
  stored : work ∈ s.cluster.objects .work
  dependency : work.isResourceRequest = false
  prefixes : DistinctPrefixes work.spec.workloadGroups
  selectors : ∀ g ∈ work.spec.workloadGroups, (resolveDestinationSelectorsForWorkloadGroup g).Valid
  live : Live work s

theorem DependencyCall.callable (hc : DependencyCall work s) (hs : Tidy work s) :
    Callable work s :=
  ⟨hc.ns, hc.stored, hc.prefixes, hs, hc.live.lasting⟩

theorem DependencyCall.listable (hc : DependencyCall work s) : Listable work g :=
  fun hrequest => absurd (hc.dependency.symm.trans hrequest) (by simp)

theorem DependencyCall.group {r : ScheduleResult} (hc : DependencyCall work s) (hs : Tidy work s)
    (he : Exec (unfailing env) (reconcileWork env work) s r t) (hg : g ∈ work.spec.workloadGroups) :
    (∀ d, (∃ key x, Holds t work g.id key x ∧ x.spec.targetDestinationName = d) ↔
      d ∈ selectedNames g s ∨
        ∃ key x, Holds s work g.id key x ∧ x.spec.targetDestinationName = d) ∧
      ∀ key x, Holds t work g.id key x → Current work g s key x := by
  obtain ⟨u, v, hrun, hsame, hdel, -⟩ :=
    exec_reconcileWork_unfailing (hc.callable hs) (fun _ _ => hc.listable) he
  have hend : ∀ key x, Holds t work g.id key x ↔ Holds u work g.id key x := fun key x =>
    (hdel.holds_iff hc.ns hg).trans hsame.holds_iff
  have hlive := hrun.live hc.prefixes.length hs hc.live
  obtain ⟨s', st, t', hpart⟩ := hrun.part rfl hs hc.ns (fun _ _ => hc.listable) hc.prefixes hg
  obtain ⟨names, targets, hnames, htargets, hplaced, hkeys⟩ := hpart.dependency hc.ns hc.dependency
  have hselected : ∀ d, d ∈ names ↔ d ∈ selectedNames g s := by
    intro d
    rw [(exec_getTargetDestinationNames_unfailing hnames).1 hc.dependency, List.mem_map]
    simp only [mem_chosenDestinations_of_valid (hc.selectors g hg),
      hpart.others .destination (by decide), selectedNames, Set.mem_ofPred_eq, and_assoc]
  refine ⟨fun d => ?_, fun key x hx => ?_⟩
  · rw [← hselected d, ← htargets d]
    constructor
    · rintro ⟨key, x, hx, rfl⟩
      obtain ⟨d, hd, rfl⟩ := hkeys key x ((hend key x).mp hx)
      obtain ⟨y, hy, hplacement, -⟩ := hplaced d hd
      obtain rfl : y = x := Option.some.inj (hy.stored.symm.trans ((hend _ _).mp hx).stored)
      rw [hplacement.target]
      exact hd
    · intro hd
      obtain ⟨x, hx, hplacement, -⟩ := hplaced d hd
      exact ⟨_, x, (hend _ _).mpr hx, hplacement.target⟩
  · have hx' := (hend key x).mp hx
    obtain ⟨d, hd, rfl⟩ := hkeys key x hx'
    obtain ⟨y, hy, hplacement, hreports⟩ := hplaced d hd
    obtain rfl : y = x := Option.some.inj (hy.stored.symm.trans hx'.stored)
    have hmisplaced : (!names.contains d) = true ↔ d ∉ selectedNames g s := by
      rw [← hselected d]
      simp
    constructor
    · rw [hplacement.target]
    · exact hlive _ y hx'.stored hx'.belongsTo
    · rw [hplacement.spec]
    · rw [hplacement.isMarkedMisplaced_iff, hplacement.target, hmisplaced]
    · rw [hreports.scheduleFailed_iff, hplacement.target, hmisplaced]

/-- What is left undeleted belongs to a group of the Work. -/
theorem DependencyCall.swept {r : ScheduleResult} (hc : DependencyCall work s) (hs : Tidy work s)
    (he : Exec (unfailing env) (reconcileWork env work) s r t) {id : String}
    {key : String × String} {x : WorkPlacement} (hx : Holds t work id key x)
    (hlive : x.metadata.deleting = false) : ∃ g ∈ work.spec.workloadGroups, g.id = id := by
  obtain ⟨u, v, hrun, hsame, hdel, hall⟩ :=
    exec_reconcileWork_unfailing (hc.callable hs) (fun _ _ => hc.listable) he
  refine hdel.swept hall hc.ns hx hlive fun hv hne g hg => ?_
  cases hid : isValidLabelValue g.id with
  | true => exact not_mem_existingPlacements hc.ns hid hv (hne g hg)
  | false =>
    have hu := hsame.holds_iff.mp hv
    intro hmem
    exact hrun.not_existing rfl hc.dependency hne hu hg hid
      (existingPlacements_of_stored hu.stored hmem)

theorem DependencyCall.records {r : ScheduleResult} {H : History} (hc : DependencyCall work s)
    (hs : Tidy work s) (hH : Records work H s)
    (he : Exec (unfailing env) (reconcileWork env work) s r t) :
    Records work (H.next work s) t := by
  -- before the call nothing of the Work is being deleted
  have hbefore : ∀ id d, d ∈ H id ↔
      ∃ key x, Holds s work id key x ∧ x.spec.targetDestinationName = d := by
    intro id d
    rw [hH id d]
    constructor
    · rintro ⟨key, x, hx, -, hd⟩
      exact ⟨key, x, hx, hd⟩
    · rintro ⟨key, x, hx, hd⟩
      exact ⟨key, x, hx, hc.live key x hx.stored hx.belongsTo, hd⟩
  intro id d
  constructor
  · rintro ⟨g, hg, rfl, hd⟩
    obtain ⟨hplaces, hcurrent⟩ := hc.group hs he hg
    rw [hbefore, or_comm, ← hplaces d] at hd
    obtain ⟨key, x, hx, hd⟩ := hd
    exact ⟨key, x, hx, (hcurrent key x hx).live, hd⟩
  · rintro ⟨key, x, hx, hlive, hd⟩
    obtain ⟨g, hg, rfl⟩ := hc.swept hs he hx hlive
    refine ⟨g, hg, rfl, ?_⟩
    rw [hbefore, or_comm, ← (hc.group hs he hg).1 d]
    exact ⟨key, x, hx, hd⟩

/-! ### Runs -/

/-- Between calls the WorkPlacements of the Work stay as they are, except that
those being deleted disappear; no other takes one of its names. -/
structure OnlyDeleted (work : Work) (s t : World) : Prop where
  kept : ∀ key x, s.placement key = some x → BelongsTo work x →
    t.placement key = some x ∨ t.placement key = none ∧ x.metadata.deleting = true
  old : ∀ key x, t.placement key = some x → (BelongsTo work x ∨ ∃ g d, key = placementKey work g d) →
    s.placement key = some x

/-- States reached by such calls without faults, with the history of the calls. -/
inductive DependencyRun (env : Externals) (origin : Work) : World → History → Prop
  | start {s : World} (hs : Unplaced origin s) : DependencyRun env origin s fun _ => ∅
  | call {s t : World} {H : History} {work : Work} {r : ScheduleResult}
      (hs : DependencyRun env origin s H) (hkey : work.key = origin.key)
      (hc : DependencyCall work s) (he : Exec (unfailing env) (reconcileWork env work) s r t) :
      DependencyRun env origin t (H.next work s)
  | other {s t : World} {H : History} (hs : DependencyRun env origin s H)
      (hold : OnlyDeleted origin s t) : DependencyRun env origin t H

theorem OnlyDeleted.onlyAlike (hold : OnlyDeleted work s t) : OnlyAlike work s t :=
  fun key x hx howned => ⟨x, hold.old key x hx howned, rfl, rfl, rfl, rfl, rfl, rfl⟩

theorem OnlyDeleted.records {H : History} (hold : OnlyDeleted work s t) (hH : Records work H s) :
    Records work H t := by
  intro id d
  rw [hH id d]
  constructor
  · rintro ⟨key, x, hx, hlive, hd⟩
    rcases hold.kept key x hx.stored hx.belongsTo with hstored | ⟨-, hdel⟩
    · exact ⟨key, x, ⟨hstored, hx.belongsTo, hx.groupID_eq⟩, hlive, hd⟩
    · exact absurd (hlive.symm.trans hdel) (by simp)
  · rintro ⟨key, x, hx, hlive, hd⟩
    exact ⟨key, x, ⟨hold.old key x hx.stored (Or.inl hx.belongsTo), hx.belongsTo, hx.groupID_eq⟩,
      hlive, hd⟩

theorem Records.congr {work' : Work} {H : History} (hkey : work'.key = work.key)
    (hH : Records work H s) : Records work' H s := by
  intro id d
  rw [hH id d]
  constructor
  · rintro ⟨key, x, hx, hrest⟩
    exact ⟨key, x, hx.congr hkey, hrest⟩
  · rintro ⟨key, x, hx, hrest⟩
    exact ⟨key, x, hx.congr hkey.symm, hrest⟩

theorem DependencyRun.invariant {origin : Work} {H : History} (hs : DependencyRun env origin s H) :
    Tidy origin s ∧ Records origin H s := by
  induction hs with
  | start hs =>
    refine ⟨hs.tidy, fun id d => ⟨fun hd => absurd hd (Set.notMem_empty d), ?_⟩⟩
    rintro ⟨key, x, hx, -⟩
    exact absurd hx.belongsTo (hs key x hx.stored).1
  | call _ hkey hc he ih =>
    obtain ⟨htidy, hH⟩ := ih
    refine ⟨Tidy.congr hkey.symm (exec_reconcileWork_tidy refines_unfailing (htidy.congr hkey)
      hc.prefixes.length he), Records.congr hkey.symm ?_⟩
    exact hc.records (htidy.congr hkey) (hH.congr hkey) he
  | other _ hold ih => exact ⟨hold.onlyAlike.tidy ih.1, hold.records ih.2⟩

/-! ### A group that leaves and comes back between two calls -/

def zone (name : String) : List WorkloadGroupScheduling :=
  [⟨Labels.ofList [("zone", name)], "promise"⟩]

/-- A dependency for one zone, and a Destination in that zone. -/
@[irreducible]
def zoneWorld : World :=
  worldSelecting (zone "a") (show (Labels.ofList [("zone", "a")]).Valid by decide +kernel)

theorem placement_zoneWorld (key : String × String) : zoneWorld.placement key = none := by
  unfold zoneWorld
  exact placement_worldWith key

theorem dependencyCall_zoneWorld : DependencyCall (workSelecting (zone "a")) zoneWorld where
  ns := show "default" ≠ "" by decide
  stored := by
    unfold zoneWorld
    exact List.mem_singleton.mpr rfl
  dependency := rfl
  prefixes := ⟨fun g hg => by rw [List.mem_singleton.mp hg]; decide, by simp [workSelecting]⟩
  selectors := by
    intro g hg
    rw [List.mem_singleton.mp hg]
    decide +kernel
  live := fun key x hx => by simp [placement_zoneWorld] at hx

theorem unplaced_zoneWorld (work : Work) : Unplaced work zoneWorld :=
  fun key x hx => by simp [placement_zoneWorld] at hx

def workWithout : Work := ⟨{ ns := "default", name := "work" }, { promiseName := "promise" }, {}⟩

/-- What is there when the group is back, and its WorkPlacement after the next call. -/
structure Returned where
  work : Work
  placements : List WorkPlacement
  destinations : List Destination
  placement : WorkPlacement

/-- The group is placed and leaves the Work; then it comes back for another zone
and the scheduler is called. -/
def leaveAndReturn : Prog (Except ApiError Returned) := do
  let _ ← reconcileWork plainExternals (workSelecting (zone "a"))
  let _ ← updateObject .work workWithout
  let back ← updateObject .work (workSelecting (zone "b"))
  let placements ← listObjects .workPlacement "" Selector.everything
  let destinations ← listObjects .destination "" Selector.everything
  match back with
  | .error e => return .error e
  | .ok w =>
    let _ ← reconcileWork plainExternals w
    let x ← getObject .workPlacement "default" "work.destination-group"
    return do return ⟨w, ← placements, ← destinations, ← x⟩

/-- Nothing was being deleted, no Destination is in the other zone, and the group
is still placed. -/
def Returned.isPlaced (a : Returned) : Bool :=
  a.placements.all (fun y => !y.metadata.deleting) &&
    a.destinations.all (fun d => d.metadata.labels.lookup "zone" != some "b") &&
    decide (a.work.metadata.ns = "default" ∧ a.work.metadata.name = "work" ∧
      a.work.metadata.deleting = false ∧ a.placement.metadata.ns = "default" ∧
      a.placement.metadata.labels.lookup Label.work = some "work" ∧
      a.placement.metadata.labels.lookup Label.workloadGroupID = some "group" ∧
      a.placement.metadata.deleting = false)

/-- A group is placed, leaves the Work, and is back for another zone when the
scheduler is called again: it is still where it was. -/
theorem readded_group_stays_placed :
    ∃ (s₁ s₂ s₃ t : World) (w₁ w : Work) (r₀ r : ScheduleResult),
      Unplaced (workSelecting (zone "a")) zoneWorld ∧
      DependencyCall (workSelecting (zone "a")) zoneWorld ∧
      Exec (unfailing plainExternals) (reconcileWork plainExternals (workSelecting (zone "a")))
        zoneWorld r₀ s₁ ∧
      Exec (unfailing plainExternals) (updateObject .work workWithout) s₁ (.ok w₁) s₂ ∧
      Exec (unfailing plainExternals) (updateObject .work (workSelecting (zone "b"))) s₂ (.ok w) s₃ ∧
      DependencyCall w s₃ ∧
      Exec (unfailing plainExternals) (reconcileWork plainExternals w) s₃ r t ∧
      ∃ g ∈ w.spec.workloadGroups, selectedNames g s₃ = ∅ ∧
        ∃ key x, Holds t w g.id key x ∧ x.metadata.deleting = false := by
  have heval : (eval (serveAnswered plainExternals) leaveAndReturn zoneWorld).any
      (fun out => out.1.toOption.any Returned.isPlaced) = true := by
    decide +kernel
  obtain ⟨a, t', he, ha⟩ :=
    exists_exec_of_eval (h := unfailing plainExternals) unfailing_of_serveAnswered heval
  obtain ⟨r₀, s₁, hfirst, he₁⟩ := exec_bind.mp he
  obtain ⟨b₁, s₂, hleave, he₂⟩ := exec_bind.mp he₁
  obtain ⟨b₂, s₃, hback, he₃⟩ := exec_bind.mp he₂
  obtain ⟨w₁, rfl⟩ := exec_updateObject_unfailing hleave
  obtain ⟨w, rfl⟩ := exec_updateObject_unfailing hback
  obtain ⟨l₁, u₁, hlist₁, he₄⟩ := exec_bind.mp he₃
  obtain ⟨l₂, u₂, hlist₂, he₅⟩ := exec_bind.mp he₄
  obtain ⟨rfl, rfl⟩ := exec_listObjects_unfailing hlist₁
  obtain ⟨rfl, rfl⟩ := exec_listObjects_unfailing hlist₂
  obtain ⟨r, t, hcall, he₆⟩ := exec_bind.mp he₅
  obtain ⟨b₃, u₃, hget, hret⟩ := exec_bind.mp he₆
  obtain ⟨rfl, hfound, -⟩ := exec_getObject (hget.mono faulty_of_unfailing)
  obtain ⟨rfl, rfl⟩ := hret
  cases b₃ with
  | error e => cases ha
  | ok x =>
    replace ha : Returned.isPlaced ⟨w, _, _, x⟩ = true := ha
    simp only [Returned.isPlaced, Bool.and_eq_true, List.all_eq_true, decide_eq_true_eq,
      Bool.not_eq_true', bne_iff_ne] at ha
    obtain ⟨⟨hlive, hzones⟩, hns, hname, hdel, hxns, hxwork, hxgroup, hxdel⟩ := ha
    -- the Work as it is stored when the group is back
    obtain ⟨stored, c, -, hrep, hs₃, -, -, hw⟩ :=
      (exec_updateObject (hback.mono faulty_of_unfailing)).resolve_left fun h => h.2 w rfl
    obtain rfl := hw w rfl
    have hcallable : DependencyCall (stored.accept (workSelecting (zone "b"))) u₂ := by
      refine ⟨?_, ?_, rfl, ?_, ?_, ?_⟩
      · rw [hns]
        decide
      · rw [hs₃]
        refine (hrep.mem _).mpr (Or.inr ?_)
        rw [Object.settle, if_neg (by simp [hdel])]
      · exact ⟨fun g hg => by rw [List.mem_singleton.mp hg]; decide, by simp [Object.accept, workSelecting]⟩
      · intro g hg
        rw [List.mem_singleton.mp hg]
        decide +kernel
      · intro key y hy _
        refine hlive y (Cluster.mem_listed.mpr ⟨(u₂.cluster.find_eq_some.mp hy).1, Or.inl rfl, rfl⟩)
    refine ⟨s₁, s₂, u₂, _, w₁, _, r₀, r, unplaced_zoneWorld _, dependencyCall_zoneWorld, hfirst,
      hleave, hback, hcallable, hcall, groupSelecting (zone "b"), List.mem_singleton.mpr rfl, ?_,
      _, x, ⟨hfound x rfl, ⟨hxns.trans hns.symm, hxwork.trans (congrArg some hname.symm)⟩,
        hxgroup⟩, hxdel⟩
    rw [Set.eq_empty_iff_forall_notMem]
    rintro d ⟨dest, hdest, hselects, -⟩
    refine hzones dest (Cluster.mem_listed.mpr ⟨hdest, Or.inl rfl, rfl⟩) ?_
    exact hselects.carries "zone" "b" (by decide +kernel)

/-- After a call the WorkPlacements that are not being deleted are exactly those
of the history, each up to date. -/
theorem dependencies_follow_history (env : Externals) {origin work : Work} {s t : World}
    {H : History} {r : ScheduleResult} (hs : DependencyRun env origin s H)
    (hkey : work.key = origin.key) (hc : DependencyCall work s)
    (he : Exec (unfailing env) (reconcileWork env work) s r t) :
    Records work (H.next work s) t ∧
      (∀ g ∈ work.spec.workloadGroups, ∀ key x, Holds t work g.id key x →
        Current work g s key x) ∧
      ∀ id key x, Holds t work id key x → x.metadata.deleting = false →
        ∃ g ∈ work.spec.workloadGroups, g.id = id := by
  obtain ⟨htidy, hH⟩ := hs.invariant
  have htidy' := htidy.congr hkey
  refine ⟨hc.records htidy' (hH.congr hkey) he, fun g hg => (hc.group htidy' he hg).2, ?_⟩
  intro id key x hx hlive
  exact hc.swept htidy' he hx hlive

/-- The first call for a dependency that selects a Destination. -/
theorem dependencies_follow_history_sample :
    ∃ (t : World) (r : ScheduleResult),
      Exec (unfailing plainExternals) (reconcileWork plainExternals (workSelecting (zone "a")))
        zoneWorld r t ∧
      ScheduledTo t (workSelecting (zone "a")) "group" "destination" ∧
      Records (workSelecting (zone "a"))
        (History.next (fun _ => ∅) (workSelecting (zone "a")) zoneWorld) t := by
  have hl : (Labels.ofList [("zone", "a")]).Valid := by decide +kernel
  obtain ⟨r, t, he, hscheduled⟩ := exists_scheduledTo plainExternals (zone "a") hl
    (by decide +kernel) (by decide +kernel)
  have he' : Exec (unfailing plainExternals)
      (reconcileWork plainExternals (workSelecting (zone "a"))) zoneWorld r t := by
    unfold zoneWorld
    exact he
  exact ⟨t, r, he', hscheduled, (dependencies_follow_history plainExternals
    (.start (unplaced_zoneWorld _)) rfl dependencyCall_zoneWorld he').1⟩

end Kratix
