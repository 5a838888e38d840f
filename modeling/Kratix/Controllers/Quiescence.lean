import Kratix.Controllers.Paired
import Kratix.Scheduling.Repeat
import Kratix.Scheduling.Runs

/-!
# When the Work controller comes to rest

A reconcile without faults is followed by another one, with nothing changed in
between. The scheduler and the controller report different things in the same
two conditions of the Work: as soon as a WorkPlacement could not be written, each
of them overwrites what the other one has reported.
-/

namespace Kratix.WorkController

open Apiserver Effect

variable {env : Externals} {s t u v : World} {work : Work} {ns name : String}

/-- Some WorkPlacement of the Work could not be written. -/
def Failing (work : Work) (s : World) : Prop :=
  ∃ key x, s.placement key = some x ∧ BelongsTo work x ∧
    isStatusConditionFalse x.status.conditions ConditionType.writeSucceeded = true

/-- The controller has its finalizer on the Work, whose name and IDs can be labels
and whose WorkPlacements are the scheduler's. -/
structure Settling (work : Work) (s : World) : Prop where
  finalizer : Finalizer.workCleanup ∈ work.metadata.finalizers
  callable : Callable work s
  name : isValidLabelValue work.metadata.name = true
  ids : ∀ g ∈ work.spec.workloadGroups, isValidLabelValue g.id = true

/-! ### The first reconcile -/

theorem deleteWork_requeues {h : Handler signature World} {r : ReconcileResult}
    (he : Exec h (deleteWork work) s r t) : r.requeue = .default := by
  obtain ⟨a, u, -, hrest⟩ := exec_bind.mp he
  rcases a with e | remaining
  · rw [hrest.1]
  · dsimp only at hrest
    split at hrest
    · rw [hrest.1]
    · obtain ⟨b, v, -, hret⟩ := exec_bind.mp hrest
      rw [hret.1]
      cases b <;> rfl

variable (env) in
theorem failedWorkPlacements_eq_nil (hns : work.metadata.ns ≠ "")
    (hname : isValidLabelValue work.metadata.name = true) :
    failedWorkPlacements (s.cluster.listed .workPlacement work.metadata.ns
      (selectorOrEverything env (workNameLabels work.metadata.name))) = [] ↔ ¬ Failing work s := by
  simp only [failedWorkPlacements, Failing, List.map_eq_nil_iff, List.filter_eq_nil_iff,
    mem_listed_workNameLabels hname hns, not_exists, not_and]
  constructor
  · intro hnone key x hx hbelongs
    exact hnone x ⟨(s.cluster.find_eq_some.mp hx).2 ▸ hx, hbelongs⟩
  · exact fun hnone x hx => hnone x.key x hx.1 hx.2

theorem failingConditions_ne (names : List String) :
    (failingConditions names).1.type ≠ (failingConditions names).2.type :=
  show ConditionType.scheduleSucceeded ≠ ConditionType.ready by decide

/-- Nothing is written where nothing fails; otherwise the conditions say so. -/
theorem exec_updateWorkStatus {r : ReconcileResult} (hns : work.metadata.ns ≠ "")
    (hname : isValidLabelValue work.metadata.name = true)
    (hf : s.cluster.find .work work.key = some work)
    (he : Exec (unfailing env) (updateWorkStatus env work) s r t) :
    SamePlacements s t ∧ (¬ Failing work s ∧ t = s ∨ Failing work s ∧ ∃ conditions names,
      t.cluster.find .work work.key =
          some { work with status := { work.status with conditions := conditions } } ∧
        AlreadySet conditions (failingConditions names)) := by
  obtain ⟨a, u, hlist, hrest⟩ := exec_bind.mp he
  obtain ⟨b, v, hlist', hret⟩ := exec_bind.mp hlist
  obtain ⟨rfl, rfl⟩ := exec_listObjects_unfailing hlist'
  obtain ⟨rfl, rfl⟩ := hret
  have hnil := failedWorkPlacements_eq_nil env (s := u) hns hname
  dsimp only at hrest
  split at hrest
  · next hempty =>
    obtain ⟨-, rfl⟩ := hrest
    exact ⟨fun _ _ => rfl, Or.inl ⟨hnil.mp (List.isEmpty_iff.mp hempty), rfl⟩⟩
  · next hsome =>
    have hfailing : Failing work u := by
      by_contra hnone
      exact hsome (List.isEmpty_iff.mpr (hnil.mpr hnone))
    generalize failedWorkPlacements _ = names at hrest
    have hset := alreadySet_set (failingConditions_ne names) work.status.conditions
    split at hrest
    · next conditions hconditions =>
      obtain ⟨-, rfl⟩ := hrest
      exact ⟨fun _ _ => rfl, Or.inr ⟨hfailing, work.status.conditions, names, hf,
        alreadySet_of_unchanged (congrArg Prod.fst hconditions)⟩⟩
    · next conditions hconditions =>
      rw [hconditions] at hset
      obtain ⟨b, v, hupdate, hret⟩ := exec_bind.mp hrest
      obtain rfl : t = v := hret.2
      have hold : u.cluster.find .work ({ work with status :=
        { work.status with conditions := conditions } } : Work).key = some work := hf
      obtain ⟨rfl, c, hrep, rfl⟩ := exec_updateStatus_stored hold hupdate
      exact ⟨hrep.others, Or.inr ⟨hfailing, conditions, names, hrep.find_self, hset⟩⟩

/-- A reconcile that asks for no other one has scheduled the Work and reported on it. -/
theorem exec_reconcile_settled (hf : s.cluster.find .work (ns, name) = some work)
    (hlive : work.metadata.deleting = false) (hq : Settling work s)
    (he : Exec (unfailing env) (reconcile env ns name) s {} t) :
    ∃ r v, CallSettled env work s r v ∧
      (r.work.isResourceRequest && !r.unscheduled.isEmpty) = false ∧
      Exec (unfailing env) (updateWorkStatus env r.work) v {} t := by
  obtain ⟨a, u, hget, hrest⟩ := exec_bind.mp he
  obtain ⟨rfl, hcase⟩ := exec_getObject_unfailing hget
  rcases hcase with ⟨-, hnone⟩ | ⟨stored, rfl, hstored⟩
  · rw [hf] at hnone
    cases hnone
  · obtain rfl : work = stored := Option.some.inj (hf.symm.trans hstored)
    dsimp only at hrest
    rw [if_neg (by simp [hlive]), if_neg (by simp [hq.finalizer])] at hrest
    obtain ⟨r, v, hcall, hreport⟩ := exec_bind.mp hrest
    have hsettled := exec_reconcileWork_settled hq.callable hq.name hq.ids hcall
    refine ⟨r, v, hsettled, ?_⟩
    unfold reportScheduling at hreport
    rw [hsettled.err] at hreport
    dsimp only at hreport
    split at hreport
    · cases hreport.1
    · next hcase => exact ⟨by simpa using hcase, hreport⟩

/-! ### The second reconcile -/

theorem failing_congr {work' : Work} (hkey : work'.key = work.key) :
    Failing work' s ↔ Failing work s := by
  unfold Failing
  rw [belongsTo_congr hkey]

theorem failing_samePlacements (hsame : SamePlacements s t) : Failing work t ↔ Failing work s := by
  unfold Failing
  simp only [hsame.placement]

theorem still_reconcile {r : ScheduleResult} (hlive : work.metadata.deleting = false)
    (hkey : work.key = (ns, name)) (hq : Settling work s) (hsettled : CallSettled env work s r t)
    (hplaced : (r.work.isResourceRequest && !r.unscheduled.isEmpty) = false)
    (hnone : ¬ Failing work t) :
    Still (unfailing env) (fun _ => True) (reconcile env ns name) t := by
  have hmeta : r.work.metadata = work.metadata := by rw [hsettled.work_eq]
  refine still_bind (still_getObject (hkey ▸ hsettled.stored)) ?_
  rintro _ rfl
  dsimp only
  rw [if_neg (by simp [hmeta, hlive]), if_neg (by simp [hmeta, hq.finalizer])]
  refine still_bind (hsettled.still hq.callable hq.name hq.ids) ?_
  rintro r' ⟨herr, hunscheduled, hwork⟩
  unfold reportScheduling
  rw [herr]
  dsimp only
  rw [hunscheduled, hwork, if_neg (by simp [hplaced])]
  refine still_bind (still_listWorkplacementWithLabels _ _) ?_
  rintro _ rfl
  have hns : r.work.metadata.ns ≠ "" := hmeta ▸ hq.callable.ns
  have hname : isValidLabelValue r.work.metadata.name = true := hmeta ▸ hq.name
  have hnil := (failedWorkPlacements_eq_nil env (s := t) hns hname).mpr
    (fun hfailing => hnone ((failing_congr (by simp [Object.key, hmeta])).mp hfailing))
  dsimp only
  rw [if_pos (List.isEmpty_iff.mpr hnil)]
  exact still_pure trivial

theorem reason_workConditions (unscheduled misplaced : List String) :
    (workConditions unscheduled misplaced).1.reason ≠ "WorkplacementsFailing" := by
  unfold workConditions
  split_ifs <;> simp [scheduleCondition, scheduleSucceededConditionMismatchReason]

theorem type_workConditions (unscheduled misplaced : List String) :
    (workConditions unscheduled misplaced).1.type = ConditionType.scheduleSucceeded := by
  unfold workConditions
  split_ifs <;> rfl

/-- After a report of failing WorkPlacements the scheduler has another status to write. -/
theorem updatedWorkStatus_of_failing {names : List String}
    (hset : AlreadySet work.status.conditions (failingConditions names))
    (unscheduled misplaced : List String) :
    (updatedWorkStatus work unscheduled misplaced).1 = true ∧
      (updatedWorkStatus work unscheduled misplaced).2 ≠ work.status := by
  obtain ⟨c, hfind, hsame⟩ := alreadySet_iff.mp hset
  have hreason : c.reason = "WorkplacementsFailing" := by
    simp only [Condition.hasSameState, Bool.and_eq_true, beq_iff_eq] at hsame
    exact hsame.1.2
  have hfind' : findCondition work.status.conditions
      (workConditions unscheduled misplaced).1.type = some c := by
    rw [type_workConditions]
    exact hfind
  -- the scheduler would leave the condition only with a reason of its own
  have hnot : ¬ AlreadySet work.status.conditions (workConditions unscheduled misplaced) := by
    rw [alreadySet_iff]
    rintro ⟨c', hc', hsame'⟩
    obtain rfl : c = c' := Option.some.inj (hfind'.symm.trans hc')
    simp only [Condition.hasSameState, Bool.and_eq_true, beq_iff_eq] at hsame'
    exact reason_workConditions unscheduled misplaced (hsame'.1.2.symm.trans hreason)
  constructor
  · by_contra hunchanged
    simp only [updatedWorkStatus, Bool.not_eq_true, Bool.or_eq_false_iff] at hunchanged
    exact hnot (alreadySet_of_unchanged hunchanged.2)
  · intro hstatus
    have hagain := alreadySet_set (workConditions_ne unscheduled misplaced) work.status.conditions
    rw [← hstatus] at hnot
    exact hnot hagain

/-- The second reconcile writes another status while it is on its way. -/
theorem passes_of_failing {names : List String} {r : ReconcileResult}
    (hf : s.cluster.find .work (ns, name) = some work) (hlive : work.metadata.deleting = false)
    (hq : Settling work s) (hset : AlreadySet work.status.conditions (failingConditions names))
    (he : Exec (unfailing env) (reconcile env ns name) s r t) :
    ∃ u, Passes (unfailing env) (reconcile env ns name) s u ∧ u ≠ s := by
  obtain ⟨a, v, hget, hrest⟩ := exec_bind.mp he
  obtain ⟨rfl, ⟨-, hnone⟩ | ⟨stored, rfl, hstored⟩⟩ := exec_getObject_unfailing hget
  · rw [hf] at hnone
    cases hnone
  · obtain rfl : work = stored := Option.some.inj (hf.symm.trans hstored)
    dsimp only at hrest
    rw [if_neg (by simp [hlive]), if_neg (by simp [hq.finalizer])] at hrest
    obtain ⟨result, w, hcall, -⟩ := exec_bind.mp hrest
    obtain ⟨lists, x, hgroups, hcall'⟩ := exec_bind.mp hcall
    obtain ⟨hns, hmem, hprefixes, htidy, hlasting⟩ := hq.callable
    have hrun := exec_reconcileWorkloadGroups refines_unfailing hgroups
    obtain ⟨-, rfl⟩ := exec_reconcileWorkloadGroups_settled hns hq.name hq.ids hprefixes htidy
      hlasting hgroups
    simp only [List.nil_append] at hcall' hgroups
    generalize idsWith env work v x .unscheduled work.spec.workloadGroups = us at hcall' hgroups
    generalize idsWith env work v x .misplaced work.spec.workloadGroups = ms at hcall' hgroups
    obtain ⟨htrue, hne⟩ := updatedWorkStatus_of_failing hset us ms
    rw [htrue] at hcall'
    obtain ⟨⟨err, w'⟩, y, hstatus, -⟩ := exec_bind.mp hcall'
    have hfind : x.cluster.find .work ({ work with
        status := (updatedWorkStatus work us ms).2 } : Work).key = some work := by
      have hmem' : work ∈ x.cluster.objects .work := by
        rw [hrun.others (by decide)]
        exact hmem
      exact Cluster.find_key hmem'
    obtain ⟨b, y', hupdate, hret⟩ := exec_bind.mp hstatus
    obtain ⟨rfl, c, hrep, rfl⟩ := exec_updateStatus_stored hfind hupdate
    obtain rfl : y = x.withCluster c := hret.2
    refine ⟨x.withCluster c, ?_, ?_⟩
    · refine passes_bind.mpr (Or.inr ⟨_, v, hget, ?_⟩)
      dsimp only
      rw [if_neg (by simp [hlive]), if_neg (by simp [hq.finalizer])]
      refine passes_bind.mpr (Or.inl (passes_bind.mpr (Or.inr ⟨_, x, hgroups, ?_⟩)))
      dsimp only
      rw [htrue]
      exact passes_bind.mpr (Or.inl hstatus.passes)
    · intro hsame
      have hold : (x.withCluster c).cluster.find .work work.key = some work := by
        rw [hsame]
        exact Cluster.find_key hmem
      have hnew := Option.some.inj (hrep.find_self.symm.trans hold)
      exact hne (congrArg Object.status hnew)

/-! ### A status that is written over and over -/

/-- The dependency is placed, and its WorkPlacement cannot be written. -/
def placeAndBreak (env : Externals) : Prog (Except ApiError WorkPlacement) := do
  let _ ← reconcile env "default" "work"
  match ← getObject .workPlacement "default" "work.destination-group" with
  | .error e => return .error e
  | .ok wp =>
    updateStatus .workPlacement { wp with status := { wp.status with
      conditions := (setStatusCondition wp.status.conditions
        ⟨ConditionType.writeSucceeded, .conditionFalse, "", "", 0⟩).2 } }

/-- The reason that the Work gives for its scheduling. -/
def scheduleReason (s : World) : Option String :=
  (s.cluster.find .work ("default", "work")).bind fun work =>
    (findCondition work.status.conditions ConditionType.scheduleSucceeded).map Condition.reason

/-- A WorkPlacement could not be written. The reconcile that reports this comes to
an end, and the next one first withdraws the report. -/
theorem report_withdrawn :
    ∃ (s t u : World) (x : WorkPlacement),
      Exec (unfailing plainExternals) (placeAndBreak plainExternals) heldWorld (.ok x) s ∧
      Exec (unfailing plainExternals) (reconcile plainExternals "default" "work") s {} t ∧
      Passes (unfailing plainExternals) (reconcile plainExternals "default" "work") t u ∧
      scheduleReason t = some "WorkplacementsFailing" ∧
      scheduleReason u = some "AllWorkplacementsScheduled" := by
  have heval : (eval (serveAnswered plainExternals) (do
      let broken ← placeAndBreak plainExternals
      let r ← reconcile plainExternals "default" "work"
      return (broken, r)) heldWorld).any (fun out => out.1.1.isOk && decide (out.1.2 = {}) &&
        decide (scheduleReason out.2 = some "WorkplacementsFailing") &&
        (visited (serveAnswered plainExternals) (reconcile plainExternals "default" "work")
          out.2).any fun u => decide (scheduleReason u = some "AllWorkplacementsScheduled")) =
        true := by
    decide +kernel
  obtain ⟨env, henv⟩ : ∃ env, plainExternals = env := ⟨_, rfl⟩
  rw [henv] at heval ⊢
  obtain ⟨a, t, he, ha⟩ :=
    exists_exec_of_eval (h := unfailing env) unfailing_of_serveAnswered heval
  obtain ⟨broken, s, hbreak, he'⟩ := exec_bind.mp he
  obtain ⟨r, t', hreport, hret⟩ := exec_bind.mp he'
  obtain ⟨rfl, rfl⟩ := hret
  simp only [Bool.and_eq_true, decide_eq_true_eq, List.any_eq_true] at ha
  obtain ⟨⟨⟨hok, rfl⟩, hreason⟩, u, hu, hreason'⟩ := ha
  cases broken with
  | error e => cases hok
  | ok x =>
    exact ⟨s, t, u, x, hbreak, hreport, passes_of_visited unfailing_of_serveAnswered hu, hreason,
      hreason'⟩

/-! ### When there is nothing left to do -/

/-- A reconcile without faults that asks for no other one, of a Work that the
controller has its finalizer on, is followed by one that changes nothing at any
moment, exactly if no WorkPlacement of the Work failed to be written. -/
theorem work_reconcile_quiescent_iff (env : Externals) {ns name : String} {s t t' : World}
    {r : ReconcileResult}
    (hq : ∀ work, s.cluster.find .work (ns, name) = some work → work.metadata.deleting = false →
      Settling work s)
    (he : Exec (unfailing env) (reconcile env ns name) s {} t)
    (hnext : Exec (unfailing env) (reconcile env ns name) t r t') :
    (∀ u, Passes (unfailing env) (reconcile env ns name) t u → u = t) ↔
      ∀ work, s.cluster.find .work (ns, name) = some work → ¬ Failing work t := by
  cases hf : s.cluster.find .work (ns, name) with
  | none =>
    obtain ⟨a, u, hget, hrest⟩ := exec_bind.mp he
    obtain ⟨rfl, ⟨rfl, -⟩ | ⟨stored, -, hstored⟩⟩ := exec_getObject_unfailing hget
    · obtain ⟨-, rfl⟩ := hrest
      have hstill : Still (unfailing env) (fun _ => True) (reconcile env ns name) t := by
        refine still_bind (still_getObject_missing hf) ?_
        rintro _ rfl
        exact still_pure trivial
      simp only [reduceCtorEq, false_implies, implies_true, iff_true]
      exact fun u hu => hstill.passes hu
    · rw [hf] at hstored
      cases hstored
  | some work =>
    have hkey : work.key = (ns, name) := (s.cluster.find_eq_some.mp hf).2
    simp only [Option.some.injEq, forall_eq']
    cases hlive : work.metadata.deleting with
    | true =>
      obtain ⟨a, u, hget, hrest⟩ := exec_bind.mp he
      obtain ⟨rfl, ⟨-, hnone⟩ | ⟨stored, rfl, hstored⟩⟩ := exec_getObject_unfailing hget
      · rw [hf] at hnone
        cases hnone
      · obtain rfl : work = stored := Option.some.inj (hf.symm.trans hstored)
        dsimp only at hrest
        rw [if_pos hlive] at hrest
        cases deleteWork_requeues hrest
    | false =>
      have hsettling := hq work hf hlive
      obtain ⟨result, v, hsettled, hplaced, hreport⟩ :=
        exec_reconcile_settled hf hlive hsettling he
      have hmeta : result.work.metadata = work.metadata := by rw [hsettled.work_eq]
      have hkey' : result.work.key = work.key := by simp [Object.key, hmeta]
      have hcallable := hsettled.callable hsettling.callable
      obtain ⟨hsame, ⟨hnone, rfl⟩ | ⟨hfailing, conditions, names, hfind, hset⟩⟩ :=
        exec_updateWorkStatus hcallable.ns (hmeta ▸ hsettling.name) (hkey' ▸ hsettled.stored) hreport
      · rw [failing_congr hkey'] at hnone
        have hstill := still_reconcile hlive hkey hsettling hsettled hplaced hnone
        exact ⟨fun _ => hnone, fun _ u hu => hstill.passes hu⟩
      · rw [failing_congr hkey', ← failing_samePlacements hsame] at hfailing
        refine ⟨fun hquiet => ?_, fun hnone => absurd hfailing hnone⟩
        have hfind' := hfind
        rw [hkey', hkey] at hfind'
        have hsettling' : Settling { result.work with status :=
            { result.work.status with conditions := conditions } } t := by
          have htidy := hcallable.tidy.of_samePlacements hsame
          refine ⟨?_, ⟨hcallable.ns, (t.cluster.find_eq_some.mp hfind).1, hcallable.prefixes,
            ⟨htidy.reserved, htidy.regular⟩, fun key x hx => ?_⟩, ?_, ?_⟩
          · simpa [hmeta] using hsettling.finalizer
          · exact hcallable.lasting key x ((hsame.placement key).symm.trans hx)
          · simpa [hmeta] using hsettling.name
          · rw [hsettled.work_eq]
            exact hsettling.ids
        obtain ⟨u, hu, hne⟩ := passes_of_failing hfind' (by simp [hmeta, hlive]) hsettling' hset hnext
        exact absurd (hquiet u hu) hne

theorem settling_heldWork : Settling heldWork heldWorld where
  finalizer := List.mem_singleton.mpr rfl
  callable := by
    have hnone (key : String × String) (x : WorkPlacement) (hx : heldWorld.placement key = some x) :
        False := by
      cases hx.symm.trans (placement_worldWith key)
    refine ⟨show "default" ≠ "" by decide, List.mem_singleton.mpr rfl, ⟨fun g hg => ?_, ?_⟩,
      ⟨fun g d x hx => (hnone _ x hx).elim, fun key x hx => (hnone key x hx).elim⟩,
      fun key x hx => (hnone key x hx).elim⟩
    · rw [List.mem_singleton.mp hg]
      decide
    · simp [heldWork, workSelecting]
  name := by decide
  ids := fun g hg => by
    rw [List.mem_singleton.mp hg]
    decide

/-- A dependency that is placed and whose WorkPlacement nobody has tried to write. -/
theorem work_reconcile_quiescent_sample :
    ∃ t : World, Exec (unfailing plainExternals) (reconcile plainExternals "default" "work")
        heldWorld {} t ∧
      (∃ key x, t.placement key = some x ∧ BelongsTo heldWork x) ∧
      ∀ u, Passes (unfailing plainExternals) (reconcile plainExternals "default" "work") t u →
        u = t := by
  have heval : (eval (serveAnswered plainExternals) (do
      let r ← reconcile plainExternals "default" "work"
      let placements ← listObjects .workPlacement "" Selector.everything
      let _ ← reconcile plainExternals "default" "work"
      return (r, placements)) heldWorld).any (fun out => decide (out.1.1 = {}) &&
        out.1.2.toOption.any fun l => l.any (fun x => decide (x.metadata.ns = "default" ∧
            x.metadata.labels.lookup Label.work = some "work")) &&
          l.all fun x =>
            !isStatusConditionFalse x.status.conditions ConditionType.writeSucceeded) = true := by
    decide +kernel
  have hfound : heldWorld.cluster.find .work ("default", "work") = some heldWork := by rfl
  have hsettling := settling_heldWork
  obtain ⟨env, henv⟩ : ∃ env, plainExternals = env := ⟨_, rfl⟩
  rw [henv] at heval ⊢
  obtain ⟨a, w, he, ha⟩ :=
    exists_exec_of_eval (h := unfailing env) unfailing_of_serveAnswered heval
  obtain ⟨r, t, hfirst, he₁⟩ := exec_bind.mp he
  obtain ⟨l, t', hlist, he₂⟩ := exec_bind.mp he₁
  obtain ⟨rfl, rfl⟩ := exec_listObjects_unfailing hlist
  obtain ⟨r', w', hsecond, hret⟩ := exec_bind.mp he₂
  obtain ⟨rfl, rfl⟩ := hret
  simp only [Bool.and_eq_true, decide_eq_true_eq, Except.toOption, Option.any_some, List.any_eq_true,
    List.all_eq_true, Bool.not_eq_true'] at ha
  obtain ⟨rfl, ⟨x, hx, hbelongs⟩, hwritten⟩ := ha
  have hmem {x : WorkPlacement} : x ∈ t'.cluster.listed .workPlacement "" Selector.everything ↔
      x ∈ t'.cluster.objects .workPlacement :=
    ⟨fun hx => (Cluster.mem_listed.mp hx).1, fun hx => Cluster.mem_listed.mpr ⟨hx, Or.inl rfl, rfl⟩⟩
  refine ⟨t', hfirst, ⟨x.key, x, Cluster.find_key (hmem.mp hx), hbelongs⟩, ?_⟩
  refine (work_reconcile_quiescent_iff env (fun work hwork _ => ?_) hfirst hsecond).mpr
    fun work _ => ?_
  · obtain rfl := Option.some.inj (hfound.symm.trans hwork)
    exact hsettling
  · rintro ⟨key, y, hy, -, hfailed⟩
    rw [hwritten y (hmem.mpr (t'.cluster.find_eq_some.mp hy).1)] at hfailed
    cases hfailed

end Kratix.WorkController
