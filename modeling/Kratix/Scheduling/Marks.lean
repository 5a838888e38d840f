import Kratix.Scheduling.History
import Kratix.Scheduling.Repeat
import Kratix.Scheduling.Sticky

/-!
# The mark of misplaced WorkPlacements

A WorkPlacement of a resource request stays on its Destination. When the
Destination is no longer selected, the WorkPlacement is marked and its condition
says so. The condition follows when the Destination is selected again, but
nothing takes the mark off.
-/

namespace Kratix

open Apiserver Effect

variable {env : Externals} {s t : World} {work origin : Work} {g : WorkloadGroup}
  {r : ScheduleResult}

/-- The scheduler is called with the stored version of the Work of a resource
request, whose name, IDs and selectors can all be labels. -/
structure RelabelCall (work : Work) (s : World) : Prop where
  ns : work.metadata.ns ≠ ""
  stored : work ∈ s.cluster.objects .work
  request : work.isResourceRequest = true
  prefixes : DistinctPrefixes work.spec.workloadGroups
  lasting : Lasting work s
  name : isValidLabelValue work.metadata.name = true
  ids : ∀ g ∈ work.spec.workloadGroups, isValidLabelValue g.id = true
  selectors : ∀ g ∈ work.spec.workloadGroups, (resolveDestinationSelectorsForWorkloadGroup g).Valid

/-- Runs of such calls, while Works, selectors and Destinations change. -/
def RelabelRun (env : Externals) (origin : Work) (s : World) : Prop :=
  CallRun env RelabelCall origin s

theorem RelabelRun.settled (hs : RelabelRun env origin s) (hkey : work.key = origin.key)
    (hc : RelabelCall work s) (he : Exec (unfailing env) (reconcileWork env work) s r t) :
    CallSettled env work s r t := by
  have htidy : Tidy origin s := CallRun.tidy (fun _ _ hguard => hguard.prefixes.length) hs
  exact exec_reconcileWork_settled ⟨hc.ns, hc.stored, hc.prefixes, htidy.congr hkey, hc.lasting⟩
    hc.name hc.ids he

theorem RelabelRun.target_eq (hs : RelabelRun env origin s) (hkey : work.key = origin.key)
    (hsettled : CallSettled env work s r t) {key : String × String} {x y : WorkPlacement}
    (hy : Holds s work g.id key y) (hx : Holds t work g.id key x) :
    x.spec.targetDestinationName = y.spec.targetDestinationName := by
  have htidy : Tidy origin s := CallRun.tidy (fun _ _ hguard => hguard.prefixes.length) hs
  exact placementKey_inj ((hsettled.tidy.key_of_holds hx).symm.trans
    ((htidy.congr hkey).key_of_holds hy))

theorem isMisplaced_iff_of_valid (hv : (resolveDestinationSelectorsForWorkloadGroup g).Valid)
    {x : WorkPlacement} :
    isMisplaced env g s x = true ↔ x.spec.targetDestinationName ∉ selectedNames g s := by
  rw [← not_iff_not, Bool.not_eq_true, isMisplaced_eq_false, not_not]
  simp only [mem_chosenDestinations_of_valid hv, selectedNames, Set.mem_ofPred_eq, and_assoc]

/-! ### A mark that stays -/

/-- A Destination that only takes what asks for its labels. -/
def strictDestination (labels : Labels) : Destination :=
  ⟨{ name := "destination", labels := labels },
    { path := [], stateStoreRef := ⟨.git, "store"⟩, strictMatchLabels := true }, {}⟩

/-- A resource request is placed, and its Destination is labelled and has its
label taken away again; the scheduler is called each time. -/
def relabelAndBack : Prog (Except ApiError WorkPlacement) := do
  let placed ← reconcileWork plainExternals (requestOf ["group"])
  let _ ← updateObject .destination (strictDestination (.ofList [("zone", "a")]))
  let marked ← reconcileWork plainExternals placed.work
  let _ ← updateObject .destination (strictDestination ∅)
  let _ ← reconcileWork plainExternals marked.work
  getObject .workPlacement "default" "work.destination-group"

def requestedGroup : WorkloadGroup := ⟨[⟨["group"], []⟩], [], "group", []⟩

theorem relabelCall_worldRequesting :
    RelabelCall (requestOf ["group"]) (worldRequesting ["group"]) := by
  obtain ⟨hns, hstored, hrequest, hprefixes, hlive⟩ :
      RequestCall (requestOf ["group"]) (worldRequesting ["group"]) :=
    requestCall_worldRequesting (by decide) (by decide)
  refine ⟨hns, hstored, hrequest, hprefixes, hlive.lasting, by decide, fun g hg => ?_,
    fun g hg => ?_⟩
  · rw [List.mem_singleton.mp hg]
    decide
  · rw [List.mem_singleton.mp hg]
    decide +kernel

/-- A call with the Work that the last one left, after whatever happened to Destinations. -/
theorem RelabelCall.next (hc : RelabelCall work s) (hsettled : CallSettled env work s r t)
    {u : World} (hothers : ∀ k, k ≠ .destination → u.cluster.objects k = t.cluster.objects k) :
    RelabelCall r.work u ∧ r.work.key = work.key := by
  obtain ⟨hmem, hkey⟩ := t.cluster.find_eq_some.mp hsettled.stored
  have hlasting : Lasting r.work u := by
    intro key x hx hbelongs
    have hx' : t.placement key = some x := by
      rw [← hx]
      unfold World.placement Cluster.find
      rw [hothers .workPlacement (by decide)]
    exact hsettled.lasting key x hx' (belongsTo_congr hkey ▸ hbelongs)
  have hstored : r.work ∈ u.cluster.objects .work := by
    rw [hothers .work (by decide)]
    exact hmem
  rw [hsettled.work_eq] at hlasting hstored ⊢
  exact ⟨⟨hc.ns, hstored, hc.request, hc.prefixes, hlasting, hc.name, hc.ids, hc.selectors⟩, rfl⟩

theorem onlyAlike_of_others {u : World}
    (hothers : ∀ k, k ≠ .destination → u.cluster.objects k = t.cluster.objects k) :
    OnlyAlike origin t u := by
  intro key y hy _
  refine ⟨y, ?_, rfl, rfl, rfl, rfl, rfl, rfl⟩
  rw [← hy]
  unfold World.placement Cluster.find
  rw [hothers .workPlacement (by decide)]

theorem exec_updateDestination {o : Destination} {a : Except ApiError Destination}
    (he : Exec (unfailing env) (updateObject .destination o) s a t) :
    ∀ k, k ≠ .destination → t.cluster.objects k = s.cluster.objects k := by
  rcases exec_updateObject (he.mono faulty_of_unfailing) with ⟨rfl, -⟩ | ⟨_, c, -, hrep, rfl, -⟩
  · exact fun _ _ => rfl
  · exact hrep.others

/-- The Destination is selected again, the condition says so, and the mark is still there. -/
theorem mark_stays :
    ∃ (s t : World) (work : Work) (r : ScheduleResult),
      RelabelRun plainExternals (requestOf ["group"]) s ∧ work.key = (requestOf ["group"]).key ∧
      RelabelCall work s ∧
      Exec (unfailing plainExternals) (reconcileWork plainExternals work) s r t ∧
      ∃ g ∈ work.spec.workloadGroups, ∃ key x, Holds t work g.id key x ∧ isMarkedMisplaced x ∧
        x.spec.targetDestinationName ∈ selectedNames g s ∧ ¬ ScheduleFailed x := by
  have heval : (eval (serveAnswered plainExternals) relabelAndBack
      (worldRequesting ["group"])).any (fun out => out.1.toOption.any fun x =>
        decide (x.metadata.ns = "default" ∧ x.metadata.labels.lookup Label.work = some "work" ∧
          x.metadata.labels.lookup Label.workloadGroupID = some "group" ∧
          x.metadata.labels.lookup Label.misscheduled = some "true" ∧
          (findCondition x.status.conditions ConditionType.scheduleSucceeded).any
            (fun c => c.status = .conditionTrue) = true)) = true := by
    decide +kernel
  obtain ⟨a, t', he, ha⟩ :=
    exists_exec_of_eval (h := unfailing plainExternals) unfailing_of_serveAnswered heval
  obtain ⟨r₁, s₁, hcall₁, he₁⟩ := exec_bind.mp he
  obtain ⟨a₁, s₂, hlabel, he₂⟩ := exec_bind.mp he₁
  obtain ⟨r₂, s₃, hcall₂, he₃⟩ := exec_bind.mp he₂
  obtain ⟨a₂, s₄, hback, he₄⟩ := exec_bind.mp he₃
  obtain ⟨r₃, t, hcall₃, hget⟩ := exec_bind.mp he₄
  obtain ⟨rfl, hfound, -⟩ := exec_getObject (hget.mono faulty_of_unfailing)
  have hs : RelabelRun plainExternals (requestOf ["group"]) (worldRequesting ["group"]) :=
    .start (unplaced_worldRequesting _)
  have hc₁ := relabelCall_worldRequesting
  have hsettled₁ := hs.settled rfl hc₁ hcall₁
  obtain ⟨hc₂, hkey₂⟩ := hc₁.next hsettled₁ (exec_updateDestination hlabel)
  have hs₂ : RelabelRun plainExternals (requestOf ["group"]) s₂ :=
    .other (.call hs rfl hc₁ (hcall₁.mono faulty_of_unfailing))
      (onlyAlike_of_others (exec_updateDestination hlabel))
  have hsettled₂ := hs₂.settled hkey₂ hc₂ hcall₂
  obtain ⟨hc₃, hkey₃⟩ := hc₂.next hsettled₂ (exec_updateDestination hback)
  have hs₄ : RelabelRun plainExternals (requestOf ["group"]) s₄ :=
    .other (.call hs₂ hkey₂ hc₂ (hcall₂.mono faulty_of_unfailing))
      (onlyAlike_of_others (exec_updateDestination hback))
  have hsettled₃ := hs₄.settled (hkey₃.trans hkey₂) hc₃ hcall₃
  have hwork := hkey₃.trans hkey₂
  have hgroups : (requestOf ["group"]).spec.workloadGroups = r₂.work.spec.workloadGroups := by
    rw [hsettled₂.work_eq, hsettled₁.work_eq]
  cases a with
  | error e => cases ha
  | ok x =>
    obtain ⟨hns, hname, hgroup, hmark, htrue⟩ := of_decide_eq_true ha
    have hg : requestedGroup ∈ r₂.work.spec.workloadGroups := by
      rw [← hgroups]
      exact List.mem_singleton.mpr rfl
    have hx : Holds t' r₂.work "group" ("default", "work.destination-group") x :=
      Holds.congr hwork ⟨hfound x rfl, ⟨hns, hname⟩, hgroup⟩
    have hreports := ((hsettled₃.groups _ hg).told _ x hx).reports
    have hfailed : ¬ ScheduleFailed x := by
      rintro ⟨c, hfind, hfalse⟩
      simp [hfind, hfalse] at htrue
    refine ⟨s₄, t', r₂.work, r₃, hs₄, hwork, hc₃, hcall₃, _, hg, _, x, hx, hmark, ?_, hfailed⟩
    rw [← not_not (a := _ ∈ _), ← isMisplaced_iff_of_valid (hc₃.selectors _ hg)]
    exact fun hmis => hfailed (hreports.scheduleFailed_iff.mpr hmis)

/-! ### The condition of every WorkPlacement, and its mark -/

/-- The condition is always the current one. The mark is, if no marked
WorkPlacement was for a Destination that is selected. -/
theorem misplaced_mark_current_iff (env : Externals) {origin work : Work} {s t : World}
    {r : ScheduleResult} (hs : RelabelRun env origin s) (hkey : work.key = origin.key)
    (hc : RelabelCall work s) (he : Exec (unfailing env) (reconcileWork env work) s r t) :
    (∀ g ∈ work.spec.workloadGroups, ∀ key x, Holds t work g.id key x →
      (ScheduleFailed x ↔ x.spec.targetDestinationName ∉ selectedNames g s)) ∧
    ((∀ g ∈ work.spec.workloadGroups, ∀ key x, Holds t work g.id key x →
        (isMarkedMisplaced x ↔ x.spec.targetDestinationName ∉ selectedNames g s)) ↔
      ∀ g ∈ work.spec.workloadGroups, ∀ key x, Holds s work g.id key x → isMarkedMisplaced x →
        x.spec.targetDestinationName ∉ selectedNames g s) := by
  have hsettled := hs.settled hkey hc he
  have hmis (g : WorkloadGroup) (hg : g ∈ work.spec.workloadGroups) (x : WorkPlacement) :
      isMisplaced env g s x = true ↔ x.spec.targetDestinationName ∉ selectedNames g s :=
    isMisplaced_iff_of_valid (hc.selectors g hg)
  refine ⟨fun g hg key x hx => ?_, fun hmarks g hg key y hy hmark => ?_,
    fun hbefore g hg key x hx => ?_⟩
  · rw [← hmis g hg]
    exact ((hsettled.groups g hg).told key x hx).reports.scheduleFailed_iff
  · obtain ⟨x, hx⟩ := (hsettled.groups g hg).kept key y hy
    rw [← hs.target_eq hkey hsettled hy hx, ← hmarks g hg key x hx]
    exact ((hsettled.groups g hg).marked key x hx).mpr (Or.inr ⟨hc.request, y, hy, hmark⟩)
  · rw [(hsettled.groups g hg).marked key x hx, ← hmis g hg]
    refine ⟨?_, Or.inl⟩
    rintro (hm | ⟨-, y, hy, hmark⟩)
    · exact hm
    · rw [hmis g hg, hs.target_eq hkey hsettled hy hx]
      exact hbefore g hg key y hy hmark

/-- A resource request that is placed for the first time. -/
theorem misplaced_mark_current_sample :
    ∃ (s t : World) (r : ScheduleResult), RelabelRun plainExternals (requestOf ["group"]) s ∧
      Exec (unfailing plainExternals) (reconcileWork plainExternals (requestOf ["group"])) s r t ∧
      (∃ key x, Holds t (requestOf ["group"]) "group" key x) ∧
      ∀ g ∈ (requestOf ["group"]).spec.workloadGroups, ∀ key x,
        Holds t (requestOf ["group"]) g.id key x →
        (ScheduleFailed x ↔ x.spec.targetDestinationName ∉ selectedNames g s) ∧
        (isMarkedMisplaced x ↔ x.spec.targetDestinationName ∉ selectedNames g s) := by
  obtain ⟨t, r, hcall, hplaced⟩ := exec_reconcileWork_requestOf
  have hs : RelabelRun plainExternals (requestOf ["group"]) (worldRequesting ["group"]) :=
    .start (unplaced_worldRequesting _)
  obtain ⟨hcondition, hmark⟩ :=
    misplaced_mark_current_iff plainExternals hs rfl relabelCall_worldRequesting hcall
  have hfresh := hmark.mpr fun g hg key x hx =>
    absurd hx.belongsTo (unplaced_worldRequesting ["group"] key x hx.stored).1
  exact ⟨_, t, r, hs, hcall, hplaced, fun g hg key x hx =>
    ⟨hcondition g hg key x hx, hfresh g hg key x hx⟩⟩

end Kratix
