import Kratix.Controllers.Work
import Kratix.Scheduling.Footprint
import Kratix.Scheduling.Soundness

/-!
# The two conditions of a Work

A Work reports by two conditions. `ScheduleSucceeded` says by its reason what is
the matter, and `Ready` sums it up for the Promise and the resource request. They
are set together, but `Ready` often only when `ScheduleSucceeded` changes. The
reconciles of Works are interrupted at any call here, and others act in between.
-/

namespace Kratix.WorkController

open Apiserver Effect

/-! ### Pairs of conditions -/

/-- Status and message of the ready condition next to this reason. -/
def readyFor (reason : String) : Option (ConditionStatus × String) :=
  if reason = "AllWorkplacementsScheduled" then some (.conditionTrue, "Ready")
  else if reason = "UnscheduledWorkloads" ∨ reason = "FailedToScheduleWorkloads" then
    some (.conditionFalse, "Pending")
  else if reason = scheduleSucceededConditionMismatchReason then some (.conditionFalse, "Misplaced")
  else if reason = "WorkplacementsFailing" then some (.conditionFalse, "Failing")
  else none

/-- Both conditions are there, or none of them, and what the one says is
determined by the reason of the other. -/
structure Paired (conditions : List Condition) : Prop where
  present : (findCondition conditions ConditionType.ready).isSome =
    (findCondition conditions ConditionType.scheduleSucceeded).isSome
  determined : ∀ scheduled ready,
    findCondition conditions ConditionType.scheduleSucceeded = some scheduled →
    findCondition conditions ConditionType.ready = some ready →
    readyFor scheduled.reason = some (ready.status, ready.message)

theorem paired_nil : Paired [] := ⟨rfl, fun _ _ h => by cases h⟩

/-- The conditions that are set together. -/
structure Couple (pair : Condition × Condition) : Prop where
  scheduled : pair.1.type = ConditionType.scheduleSucceeded
  ready : pair.2.type = ConditionType.ready
  determined : readyFor pair.1.reason = some (pair.2.status, pair.2.message)

theorem couple_workConditions (unscheduled misplaced : List String) :
    Couple (workConditions unscheduled misplaced) := by
  unfold workConditions
  split_ifs <;> exact ⟨rfl, rfl, rfl⟩

theorem couple_failedWorkConditions (workloadGroupID : String) :
    Couple (failedWorkConditions workloadGroupID) := ⟨rfl, rfl, rfl⟩

theorem couple_failingConditions (failed : List String) : Couple (failingConditions failed) :=
  ⟨rfl, rfl, rfl⟩

/-- The condition that is found has the reason, the status and the message that were set. -/
theorem findCondition_set (conditions : List Condition) (new : Condition) :
    ∃ c, findCondition (setStatusCondition conditions new).2 new.type = some c ∧
      c.reason = new.reason ∧ c.status = new.status ∧ c.message = new.message := by
  unfold setStatusCondition
  split
  · next hnone =>
    refine ⟨new, ?_, rfl, rfl, rfl⟩
    unfold findCondition at hnone ⊢
    rw [List.find?_append, hnone]
    simp
  · next old hold =>
    split
    · next hsame =>
      simp only [Condition.hasSameState, Bool.and_eq_true, beq_iff_eq] at hsame
      exact ⟨old, hold, hsame.1.2, hsame.1.1.2, hsame.2⟩
    · exact ⟨new, findCondition_modify conditions new hold, rfl, rfl, rfl⟩

section

variable {pair : Condition × Condition} (hpair : Couple pair)
include hpair

/-- Setting both conditions pairs them, whatever was there before. -/
theorem paired_setBoth (conditions : List Condition) :
    Paired (setStatusCondition (setStatusCondition conditions pair.1).2 pair.2).2 := by
  obtain ⟨scheduled, hscheduled, hreason, -⟩ := findCondition_set conditions pair.1
  obtain ⟨ready, hready, -, hstatus, hmessage⟩ :=
    findCondition_set (setStatusCondition conditions pair.1).2 pair.2
  have hne : pair.1.type ≠ pair.2.type := by
    rw [hpair.scheduled, hpair.ready]
    decide
  rw [← findCondition_setStatusCondition_of_ne _ pair.2 hne] at hscheduled
  rw [hpair.scheduled] at hscheduled
  rw [hpair.ready] at hready
  refine ⟨by rw [hready, hscheduled]; rfl, fun c c' hc hc' => ?_⟩
  obtain rfl := Option.some.inj (hscheduled.symm.trans hc)
  obtain rfl := Option.some.inj (hready.symm.trans hc')
  rw [hreason, hpair.determined, hstatus, hmessage]

/-- The second condition may be left alone where the first one does not change. -/
theorem Paired.setStatusConditions {conditions : List Condition} (hc : Paired conditions) :
    Paired (Kratix.setStatusConditions conditions pair.1 pair.2).2 := by
  have hboth := paired_setBoth hpair conditions
  unfold Kratix.setStatusConditions
  cases hset : setStatusCondition conditions pair.1 with
  | mk changed conditions' =>
    cases changed with
    | true =>
      rw [hset] at hboth
      exact hboth
    | false =>
      -- nothing changed, so these are the old conditions
      have hsame : conditions' = conditions := by
        unfold setStatusCondition at hset
        split at hset
        · cases hset
        · split at hset <;> cases hset
          rfl
      exact hsame ▸ hc

end

/-! ### Runs -/

/-- What others do: no status of a Work is written, and a new Work has no conditions. -/
def OthersAct (s t : World) : Prop :=
  ∀ work ∈ t.cluster.objects .work, work.status.conditions = [] ∨
    ∃ before ∈ s.cluster.objects .work, before.key = work.key ∧ before.status = work.status

/-- Every outcome of a call, after whatever others did since the last one. -/
def amid (env : Externals) : Handler signature World := fun call s r t =>
  ∃ u, OthersAct s u ∧ faulty env call u r t

/-- The states that are reached by reconciles of Works from one in which no Work
has conditions. A reconcile may stop at each of its calls. -/
inductive WorkRun (env : Externals) : World → Prop
  | start {s : World} (hs : ∀ work ∈ s.cluster.objects .work, work.status.conditions = []) :
      WorkRun env s
  | reconcile {s t : World} {ns name : String} (hs : WorkRun env s)
      (ht : Passes (amid env) (reconcile env ns name) s t) : WorkRun env t
  | other {s t : World} (hs : WorkRun env s) (ht : OthersAct s t) : WorkRun env t

def AllPaired (s : World) : Prop :=
  ∀ work ∈ s.cluster.objects .work, Paired work.status.conditions

variable {env : Externals} {s t : World}

theorem AllPaired.othersAct (hs : AllPaired s) (ht : OthersAct s t) : AllPaired t := by
  intro work hwork
  rcases ht work hwork with hnone | ⟨before, hbefore, -, hstatus⟩
  · exact hnone ▸ paired_nil
  · exact hstatus ▸ hs before hbefore

/-- The conditions that the call gives to a Work are paired. -/
def ReportsPaired : Call → Prop
  | .api call => call.Reports (S := scheme) .work fun status => Paired status.conditions
  | _ => True

theorem reportsPaired_of_not_writes {call : Call} (hc : ¬ call.Writes .work) :
    ReportsPaired call := by
  cases call with
  | api call =>
    cases call with
    | create k o => exact fun hk => absurd hk hc
    | updateStatus k o => exact fun hk => absurd hk hc
    | _ => trivial
  | _ => trivial

theorem issues_spared {α : Type} {prog : Prog α} {call : Call} (hp : Obeys (sparing .work) prog)
    (hi : Issues (amid env) prog s call t) : ReportsPaired call :=
  reportsPaired_of_not_writes ((spares_of_sparing hp).issues hi)

theorem AllPaired.call {call : Call} {r : call.Answer} (hs : AllPaired s)
    (hcall : ReportsPaired call) (hc : amid env call s r t) : AllPaired t := by
  obtain ⟨u, hothers, hc⟩ := hc
  have hu := hs.othersAct hothers
  rcases faulty_cluster hc with hsame | ⟨c, rfl, hserved⟩
  · intro work hwork
    rw [hsame] at hwork
    exact hu work hwork
  · intro work hwork
    rw [hserved] at hwork
    have hreports : c.Reports (S := scheme) .work fun status => Paired status.conditions := hcall
    exact statuses_serve hreports hu work hwork

/-! ### What a reconcile reports -/

theorem exec_writeWorkStatus_status {work : Work} {r : Option Failure × Work}
    (he : Exec (amid env) (writeWorkStatus work) s r t) : r.2.status = work.status := by
  obtain ⟨a, u, hupdate, hret⟩ := exec_bind.mp he
  obtain ⟨v, -, hcall⟩ := exec_perform.mp hupdate
  rcases exec_updateStatus (exec_perform.mpr hcall) with ⟨-, hno⟩ | ⟨stored, c, -, -, -, hok⟩
  · cases a with
    | ok x => exact absurd rfl (hno x)
    | error e => rw [hret.1]
  · cases a with
    | ok x => rw [hret.1, hok x rfl]
    | error e => rw [hret.1]

theorem issues_writeWorkStatus {work : Work} {call : Call}
    (hwork : Paired work.status.conditions) (hi : Issues (amid env) (writeWorkStatus work) s call t) :
    ReportsPaired call := by
  rcases issues_bind.mp hi with hi | ⟨a, u, -, hi⟩
  · obtain ⟨rfl, -⟩ := issues_perform.mp hi
    exact fun _ => hwork
  · cases a <;> exact hi.elim

theorem issues_updateWorkStatus {work : Work} {call : Call} (hwork : Paired work.status.conditions)
    (hi : Issues (amid env) (updateWorkStatus env work) s call t) : ReportsPaired call := by
  rcases issues_bind.mp hi with hi | ⟨a, u, -, hi⟩
  · exact issues_spared (obeys_listWorkplacementWithLabels _ _) hi
  · cases a with
    | error e => exact hi.elim
    | ok wps =>
      dsimp only at hi
      split at hi
      · exact hi.elim
      · have hset := hwork.setStatusConditions
          (couple_failingConditions (failedWorkPlacements wps))
        split at hi
        · exact hi.elim
        · next conditions hconditions =>
          rw [hconditions] at hset
          rcases issues_bind.mp hi with hi | ⟨a, v, -, hi⟩
          · obtain ⟨rfl, -⟩ := issues_perform.mp hi
            exact fun _ => hset
          · exact hi.elim

theorem obeys_cleanup (work : Work) :
    Obeys (sparing .work) (cleanupDanglingWorkplacements env work) :=
  obeys_cleanupDanglingWorkplacements (show Kind.workPlacement ≠ .work by decide) work

/-- What scheduling reports is paired, and so is the status of the Work that it leaves. -/
theorem paired_reconcileWork {work : Work} (hwork : Paired work.status.conditions) :
    (∀ call, Issues (amid env) (reconcileWork env work) s call t → ReportsPaired call) ∧
      ∀ r, Exec (amid env) (reconcileWork env work) s r t → Paired r.work.status.conditions := by
  have hgroups : Obeys (sparing .work)
      (reconcileWorkloadGroups env work work.spec.workloadGroups [] []) :=
    calls_reconcileWorkloadGroups (placing_sparing (by decide)) work _ _ _
  constructor
  · intro call hi
    rcases issues_bind.mp hi with hi | ⟨a, u, -, hi⟩
    · exact issues_spared hgroups hi
    · cases a with
      | error wg =>
        rcases issues_bind.mp hi with hi | ⟨r, v, -, hi⟩
        · exact issues_writeWorkStatus (paired_setBoth (couple_failedWorkConditions wg.id) _) hi
        · exact hi.elim
      | ok lists =>
        have hset := hwork.setStatusConditions (couple_workConditions lists.1 lists.2)
        dsimp only at hi
        split at hi
        all_goals
          rcases issues_bind.mp hi with hi | ⟨r, v, -, hi⟩
        · exact issues_writeWorkStatus hset hi
        · split at hi
          · exact hi.elim
          · rcases issues_bind.mp hi with hi | ⟨r, v, -, hi⟩
            · exact issues_spared (obeys_cleanup _) hi
            · exact hi.elim
        · exact hi.elim
        · split at hi
          · exact hi.elim
          · rcases issues_bind.mp hi with hi | ⟨r, v, -, hi⟩
            · exact issues_spared (obeys_cleanup _) hi
            · exact hi.elim
  · intro r he
    obtain ⟨a, u, -, he⟩ := exec_bind.mp he
    cases a with
    | error wg =>
      obtain ⟨out, v, hwrite, hret⟩ := exec_bind.mp he
      rw [hret.1, exec_writeWorkStatus_status hwrite]
      exact paired_setBoth (couple_failedWorkConditions wg.id) _
    | ok lists =>
      have hset := hwork.setStatusConditions (couple_workConditions lists.1 lists.2)
      obtain ⟨out, v, hstatus, hrest⟩ : ∃ out v, (out : Option Failure × Work).2.status =
          (updatedWorkStatus work lists.1 lists.2).2 ∧ Exec (amid env)
            (if out.1.isSome then pure (⟨[], out.1, out.2⟩ : ScheduleResult) else do
              let err ← cleanupDanglingWorkplacements env out.2
              return ⟨lists.1, err, out.2⟩) v r t := by
        dsimp only at he
        split at he
        all_goals
          obtain ⟨out, v, hwrite, hrest⟩ := exec_bind.mp he
        · exact ⟨out, v, exec_writeWorkStatus_status hwrite, hrest⟩
        · obtain ⟨rfl, rfl⟩ := hwrite
          exact ⟨_, _, rfl, hrest⟩
      have hfinal : r.work = out.2 := by
        split at hrest
        · exact congrArg ScheduleResult.work hrest.1
        · obtain ⟨err, w, -, hret⟩ := exec_bind.mp hrest
          exact congrArg ScheduleResult.work hret.1
      rw [hfinal, hstatus]
      exact hset

theorem issues_reportScheduling {result : ScheduleResult} {call : Call}
    (hwork : Paired result.work.status.conditions)
    (hi : Issues (amid env) (reportScheduling env result) s call t) : ReportsPaired call := by
  unfold reportScheduling at hi
  split at hi
  · exact hi.elim
  · exact hi.elim
  · split at hi
    · exact hi.elim
    · exact issues_updateWorkStatus hwork hi

theorem issues_deleteWork {work : Work} {call : Call}
    (hi : Issues (amid env) (deleteWork work) s call t) : ReportsPaired call := by
  have hdelete : Obeys (sparing .work)
      (deleteAllResourcesWithKindMatchingLabel .workPlacement (workNameLabels work.metadata.name)) :=
    obeys_deleteAllResourcesWithKindMatchingLabel (show Kind.workPlacement ≠ .work by decide) _
  rcases issues_bind.mp hi with hi | ⟨a, u, -, hi⟩
  · exact issues_spared hdelete hi
  · cases a with
    | error e => exact hi.elim
    | ok remaining =>
      dsimp only at hi
      split at hi
      · exact hi.elim
      · rcases issues_bind.mp hi with hi | ⟨r, v, -, hi⟩
        · obtain ⟨rfl, -⟩ := issues_perform.mp hi
          trivial
        · exact hi.elim

/-- Where all Works are paired, every call of a reconcile reports a pair. -/
theorem issues_reconcile {ns name : String} {call : Call} (hs : AllPaired s)
    (hi : Issues (amid env) (reconcile env ns name) s call t) : ReportsPaired call := by
  rcases issues_bind.mp hi with hi | ⟨a, u, hget, hi⟩
  · obtain ⟨rfl, -⟩ := issues_perform.mp hi
    trivial
  · obtain ⟨v, hothers, hcall⟩ := exec_perform.mp hget
    have hread := exec_getObject (exec_perform.mpr hcall)
    rcases a with (_ | _ | _ | _ | _) | work
    case ok =>
      have hmem : work ∈ v.cluster.objects .work :=
        (v.cluster.find_eq_some.mp (hread.2.1 work rfl)).1
      have hwork := hs.othersAct hothers work hmem
      dsimp only at hi
      split at hi
      · exact issues_deleteWork hi
      · split at hi
        · rcases issues_bind.mp hi with hi | ⟨r, v, -, hi⟩
          · obtain ⟨rfl, -⟩ := issues_perform.mp hi
            trivial
          · exact hi.elim
        · rcases issues_bind.mp hi with hi | ⟨result, v, hresult, hi⟩
          · exact (paired_reconcileWork hwork).1 call hi
          · exact issues_reportScheduling ((paired_reconcileWork hwork).2 result hresult) hi
    all_goals exact hi.elim

theorem AllPaired.passes {ns name : String} (hs : AllPaired s)
    (ht : Passes (amid env) (reconcile env ns name) s t) : AllPaired t :=
  ht.invariant (fun _ _ _ _ hi hc hu => hu.call (issues_reconcile hs hi) hc) hs

theorem WorkRun.allPaired (hs : WorkRun env s) : AllPaired s := by
  induction hs with
  | start hs => exact fun work hwork => hs work hwork ▸ paired_nil
  | reconcile _ ht ih => exact ih.passes ht
  | other _ ht ih => exact ih.othersAct ht

/-- In every state of every run the conditions of all Works are paired. -/
theorem work_conditions_paired (env : Externals) {s : World} (hs : WorkRun env s) : AllPaired s :=
  hs.allPaired

/-- A dependency that the controller has its finalizer on. -/
def heldWork : Work :=
  { workSelecting [] with
    metadata := { ns := "default", name := "work", finalizers := [Finalizer.workCleanup] } }

/-- The dependency and a Destination for it. -/
def heldWorld : World :=
  worldWith heldWork (destinationLabelled ∅) (fun _ he => by cases he) fun _ he => by cases he

/-- The dependency is placed, then its WorkPlacement cannot be written. -/
def placeAndFail (env : Externals) : Prog (Except ApiError Work) := do
  let _ ← reconcile env "default" "work"
  match ← getObject .workPlacement "default" "work.destination-group" with
  | .error e => return .error e
  | .ok wp =>
    let conditions := (setStatusCondition wp.status.conditions
      ⟨ConditionType.writeSucceeded, .conditionFalse, "", "", 0⟩).2
    let _ ← updateStatus .workPlacement { wp with status := { wp.status with
      conditions := conditions } }
    let _ ← reconcile env "default" "work"
    getObject .work "default" "work"

theorem othersAct_of_objects (hsame : t.cluster.objects .work = s.cluster.objects .work) :
    OthersAct s t := fun work hwork => Or.inr ⟨work, hsame ▸ hwork, rfl, rfl⟩

theorem WorkRun.exec {ns name : String} {r : ReconcileResult} (hs : WorkRun env s)
    (he : Exec (faulty env) (WorkController.reconcile env ns name) s r t) : WorkRun env t :=
  .reconcile hs (he.mono fun _ _ _ _ hc => ⟨_, othersAct_of_objects rfl, hc⟩).passes

theorem work_conditions_paired_sample :
    ∃ (env : Externals) (s : World) (work : Work), WorkRun env s ∧ AllPaired s ∧
      s.cluster.find .work ("default", "work") = some work ∧
      (findCondition work.status.conditions ConditionType.ready).map Condition.message =
        some "Failing" := by
  have heval : (eval (serveAnswered plainExternals) (placeAndFail plainExternals) heldWorld).any
      (fun out => out.1.toOption.any fun work =>
        (findCondition work.status.conditions ConditionType.ready).map Condition.message =
          some "Failing") = true := by
    decide +kernel
  obtain ⟨env, henv⟩ : ∃ env, plainExternals = env := ⟨_, rfl⟩
  rw [henv] at heval
  obtain ⟨a, t, he, ha⟩ :=
    exists_exec_of_eval (h := faulty env) (fun c s r t hc =>
      faulty_of_unfailing c s r t (unfailing_of_serveAnswered c s r t hc)) heval
  have hstart : WorkRun env heldWorld := .start fun work hwork => by
    rw [List.mem_singleton.mp hwork]
    rfl
  obtain ⟨r₁, u₁, hfirst, he⟩ := exec_bind.mp he
  obtain ⟨wp, u₂, hget, he⟩ := exec_bind.mp he
  obtain ⟨rfl, -⟩ := exec_getObject hget
  cases wp with
  | error e =>
    obtain ⟨rfl, -⟩ := he
    cases ha
  | ok wp =>
    obtain ⟨r₂, u₃, hfail, he⟩ := exec_bind.mp he
    obtain ⟨r₃, u₄, hsecond, hlast⟩ := exec_bind.mp he
    obtain ⟨rfl, hfound, -⟩ := exec_getObject hlast
    have hspares (o : scheme.Obj .workPlacement) :
        Spares .work (updateStatus .workPlacement o) := spares_updateStatus (by decide) o
    have hothers := othersAct_of_objects (exec_objects (hspares _) hfail)
    have hrun := ((hstart.exec hfirst).other hothers).exec hsecond
    cases a with
    | error e => cases ha
    | ok work => exact ⟨env, t, work, hrun, work_conditions_paired env hrun, hfound work rfl,
        of_decide_eq_true ha⟩

end Kratix.WorkController
