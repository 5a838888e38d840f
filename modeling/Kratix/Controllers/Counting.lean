import Kratix.Controllers.Paired
import Kratix.Controllers.Status
import Kratix.WorkCreator.Works

/-!
# Which Works are counted

The status of a request or a Promise sums up the ready conditions of its Works. A
Work that was just created has none. And a Promise does not look at the Work of
its static dependencies, whose labels differ from those of its other Works.
-/

namespace Kratix

open Apiserver Effect GoPath
open DynamicResourceRequestController (WorksStatus)
open WorkController (Paired AllPaired WorkRun OthersAct)

/-! ### Classes of Works -/

/-- What the Work reports to its request or Promise. -/
def Work.readiness (work : Work) : Option Condition :=
  findCondition work.status.conditions ConditionType.ready

def Work.IsReady (work : Work) : Prop :=
  ∃ c, work.readiness = some c ∧ c.status = .conditionTrue

def saying (works : List Work) (message : String) : List String :=
  (works.filter fun work => work.readiness.any fun c => c.message == message).map
    fun work => work.metadata.name

theorem saying_cons {work : Work} {c : Condition} (hc : work.readiness = some c)
    (works : List Work) (message : String) : saying (work :: works) message =
      if c.message = message then work.metadata.name :: saying works message
      else saying works message := by
  by_cases hmessage : c.message = message <;> simp [saying, hc, hmessage]

/-- The conditions that are paired have one of four messages. -/
theorem message_of_paired {work : Work} {c : Condition} (hwork : Paired work.status.conditions)
    (hc : work.readiness = some c) : (c.status, c.message) ∈ [(.conditionFalse, "Failing"),
      (.conditionFalse, "Misplaced"), (.conditionFalse, "Pending"), (.conditionTrue, "Ready")] := by
  have hpresent := hwork.present
  rw [show findCondition work.status.conditions ConditionType.ready = some c from hc,
    Option.isSome_some, eq_comm, Option.isSome_iff_exists] at hpresent
  obtain ⟨scheduled, hscheduled⟩ := hpresent
  have hdetermined := hwork.determined scheduled c hscheduled hc
  unfold WorkController.readyFor at hdetermined
  split_ifs at hdetermined <;> (rw [← Option.some.inj hdetermined]; simp)

namespace DynamicResourceRequestController.WorksStatus

def names (s : WorksStatus) : List String := s.failed ++ s.misplaced ++ s.pending ++ s.ready

/-- One step of `ofWorks`. -/
def classify (s : WorksStatus) (work : Work) : Except Failure WorksStatus :=
  match work.readiness with
  | none => .error .panicked
  | some c => .ok (s.add work.metadata.name c.message)

theorem add_eq (s : WorksStatus) (name message : String) : s.add name message =
    ⟨if message = "Failing" then s.failed ++ [name] else s.failed,
      if message = "Misplaced" then s.misplaced ++ [name] else s.misplaced,
      if message = "Pending" then s.pending ++ [name] else s.pending,
      if message = "Ready" then s.ready ++ [name] else s.ready⟩ := by
  unfold add
  split
  · rfl
  · rfl
  · rfl
  · rfl
  · next hfailing hmisplaced hpending hready =>
    rw [if_neg hfailing, if_neg hmisplaced, if_neg hpending, if_neg hready]

theorem foldlM_classify {works : List Work} (h : ∀ work ∈ works, work.readiness.isSome = true)
    (s : WorksStatus) : works.foldlM classify s =
      .ok ⟨s.failed ++ saying works "Failing", s.misplaced ++ saying works "Misplaced",
        s.pending ++ saying works "Pending", s.ready ++ saying works "Ready"⟩ := by
  induction works generalizing s with
  | nil =>
    simp only [saying, List.filter_nil, List.map_nil, List.append_nil]
    rfl
  | cons work works ih =>
    obtain ⟨c, hc⟩ := Option.isSome_iff_exists.mp (h work List.mem_cons_self)
    have hstep : classify s work = .ok (s.add work.metadata.name c.message) := by
      rw [classify, hc]
    rw [List.foldlM_cons, hstep]
    refine (ih (fun work hwork => h work (List.mem_cons_of_mem _ hwork)) _).trans ?_
    have happend (l : List String) (message : String) :
        (if c.message = message then l ++ [work.metadata.name] else l) ++ saying works message =
          l ++ saying (work :: works) message := by
      rw [saying_cons hc]
      split <;> simp
    rw [add_eq]
    simp only [happend]

theorem ofWorks_eq {works : List Work} (h : ∀ work ∈ works, work.readiness.isSome = true) :
    ofWorks works = .ok ⟨saying works "Failing", saying works "Misplaced",
      saying works "Pending", saying works "Ready"⟩ :=
  foldlM_classify h {}

theorem foldlM_classify_panicked {works : List Work} {work : Work} (hwork : work ∈ works)
    (hnone : work.readiness = none) (s : WorksStatus) :
    works.foldlM classify s = .error .panicked := by
  induction works generalizing s with
  | nil => cases hwork
  | cons x works ih =>
    rw [List.foldlM_cons]
    cases hx : x.readiness with
    | none =>
      rw [classify, hx]
      rfl
    | some c =>
      have htail : work ∈ works := by
        rcases List.mem_cons.mp hwork with rfl | htail
        · rw [hnone] at hx
          cases hx
        · exact htail
      rw [classify, hx]
      exact ih htail _

theorem ofWorks_panicked {works : List Work} {work : Work} (hwork : work ∈ works)
    (hnone : work.readiness = none) : ofWorks works = .error .panicked :=
  foldlM_classify_panicked hwork hnone {}

theorem names_perm {works : List Work} (hpaired : ∀ work ∈ works, Paired work.status.conditions)
    (h : ∀ work ∈ works, work.readiness.isSome = true) :
    (names ⟨saying works "Failing", saying works "Misplaced", saying works "Pending",
      saying works "Ready"⟩).Perm (works.map fun work => work.metadata.name) := by
  induction works with
  | nil => exact List.Perm.nil
  | cons work works ih =>
    obtain ⟨c, hc⟩ := Option.isSome_iff_exists.mp (h work List.mem_cons_self)
    have hmessage := message_of_paired (hpaired work List.mem_cons_self) hc
    have hrest := (ih (fun w hw => hpaired w (List.mem_cons_of_mem _ hw))
      fun w hw => h w (List.mem_cons_of_mem _ hw)).cons work.metadata.name
    simp only [names, saying_cons hc, List.map_cons] at hrest ⊢
    simp only [List.mem_cons, Prod.mk.injEq, List.not_mem_nil, or_false] at hmessage
    refine List.Perm.trans (List.perm_iff_count.mpr fun name => ?_) hrest
    rcases hmessage with ⟨-, hm⟩ | ⟨-, hm⟩ | ⟨-, hm⟩ | ⟨-, hm⟩ <;>
      simp only [hm, reduceIte, String.reduceEq, List.count_append, List.count_cons] <;> omega

end DynamicResourceRequestController.WorksStatus

/-! ### Verdicts that are true -/

def ParentStatus.IsTrue (s : ParentStatus) (type : String) : Prop :=
  ∃ v, s.verdict type = some v ∧ v.1 = .conditionTrue

theorem Rule.status_keepStatus (old new : Verdict) : (keepStatus old new).1 = new.1 := by
  unfold keepStatus
  split
  · assumption
  · rfl

section

variable {write : Verdict → Verdict → Verdict}
  (hstatus : ∀ old new : Verdict, (write old new).1 = new.1)
include hstatus

theorem Rule.verdict_of_apply_true {rule : Rule} {old : Option Verdict} {v : Verdict}
    (hv : rule.apply write old = some v) (htrue : v.1 = .conditionTrue) :
    rule.verdict.1 = .conditionTrue := by
  unfold Rule.apply at hv
  split at hv
  · cases old with
    | none =>
      cases hv
      exact htrue
    | some w =>
      cases hv
      exact (hstatus w rule.verdict).symm.trans htrue
  · next hdue =>
    subst hv
    obtain ⟨guard, verdict⟩ := rule
    cases guard with
    | fromTrue => simp [Rule.due, htrue] at hdue
    | otherStatus =>
      simp only [Rule.due, Option.all_some, bne_iff_ne, ne_eq, not_not] at hdue
      exact hdue ▸ htrue
    | otherVerdict =>
      simp only [Rule.due, Option.all_some, Bool.or_eq_true, bne_iff_ne, ne_eq, not_or,
        not_not] at hdue
      exact hdue.1 ▸ htrue

namespace Reporter

variable {works : WorksStatus} {gen : ParentStatus → ℕ → ParentStatus × Bool}
  {stale : ParentStatus → Bool} {a : ParentStatus} {now : ℕ}

/-- Only when all Works are ready, they are reported as that. -/
theorem eq_nil_of_worksSucceeded (h : Reporter write works gen stale)
    (hworks : (gen a now).1.IsTrue ConditionType.worksSucceeded) :
    works.failed = [] ∧ works.pending = [] ∧ works.misplaced = [] := by
  obtain ⟨v, hv, htrue⟩ := hworks
  rw [h.worksSucceeded] at hv
  have hrule := Rule.verdict_of_apply_true hstatus hv htrue
  unfold worksRule at hrule
  split_ifs at hrule with hfailed hpending hmisplaced
  exact ⟨not_not.mp hfailed, not_not.mp hpending, not_not.mp hmisplaced⟩

theorem worksSucceeded_of_reconciled (h : Reporter write works gen stale)
    (hreconciled : (gen a now).1.IsTrue ConditionType.reconciled) :
    (gen a now).1.IsTrue ConditionType.worksSucceeded := by
  obtain ⟨v, hv, htrue⟩ := hreconciled
  obtain ⟨w, hw⟩ : ∃ w, (gen a now).1.verdict ConditionType.worksSucceeded = some w := by
    rw [h.worksSucceeded, Rule.apply]
    split
    · exact ⟨_, rfl⟩
    · cases hold : a.verdict ConditionType.worksSucceeded with
      | none =>
        rename_i hdue
        exact absurd (by rw [hold]; rfl) hdue
      | some w => exact ⟨w, rfl⟩
  refine ⟨w, hw, ?_⟩
  rw [h.reconciled, hw] at hv
  cases hrule : reconciledRule (a.verdict ConditionType.configureWorkflowCompleted) (some w) with
  | some rule =>
    rw [hrule] at hv
    have hverdict := Rule.verdict_of_apply_true hstatus hv htrue
    unfold reconciledRule at hrule
    split_ifs at hrule with _ _ _ _ hboth <;> obtain rfl := Option.some.inj hrule
    · cases hverdict
    · cases hverdict
    · cases hverdict
    · cases hverdict
    · simpa using (Bool.and_eq_true_iff.mp hboth).2
  | none =>
    unfold reconciledRule at hrule
    split_ifs at hrule with _ _ hunknown hfalse hboth
    cases hstatus : w.1 with
    | conditionTrue => rfl
    | conditionFalse => simp [hstatus] at hfalse
    | conditionUnknown => simp [hstatus] at hunknown

end Reporter

end

/-! ### Counting the Works of a parent -/

variable {env : Externals} {s t : World}

/-- The Works that both controllers classify. -/
def listedWorks (env : Externals) (s : World) (ns : String) (labels : Labels) : List Work :=
  (env.parseLabels labels).elim [] (s.cluster.listed .work ns)

def classifyWorks (env : Externals) (ns : String) (labels : Labels) :
    Prog (Except Failure WorksStatus) := do
  match ← getExistingWorks env ns labels with
  | .error e => return .error e
  | .ok works => return WorksStatus.ofWorks works

/-- The classification of the Works ends without a crash, with each name in one class, and
the Works are reported as succeeded only if all are ready. -/
structure Counted (env : Externals) (s : World) (works : List Work)
    (getWorksStatus : Prog (Except Failure WorksStatus))
    (status : ParentStatus → Prog (Except Failure (ParentStatus × Bool))) : Prop where
  ends : ∃ r t, Exec (unfailing env) getWorksStatus s r t
  returns : ∀ r t, Exec (faulty env) getWorksStatus s r t → r ≠ .error .panicked ∧
    ∀ classes, r = .ok classes →
      classes.names.Perm (works.map fun work => work.metadata.name)
  sound : ∀ a out, Yields env s status a out → out.1.IsTrue ConditionType.worksSucceeded →
    ∀ work ∈ works, work.IsReady

theorem mem_objects_of_mem_listedWorks {ns : String} {labels : Labels} {work : Work}
    (h : work ∈ listedWorks env s ns labels) : work ∈ s.cluster.objects .work := by
  unfold listedWorks at h
  cases hsel : env.parseLabels labels with
  | none =>
    rw [hsel] at h
    cases h
  | some sel =>
    rw [hsel] at h
    exact (Cluster.mem_listed.mp h).1

theorem exec_classifyWorks {ns : String} {labels : Labels} {r : Except Failure WorksStatus}
    (he : Exec (faulty env) (classifyWorks env ns labels) s r t) :
    r = .error .invalidSelector ∨ (∃ e, r = .error (.api e)) ∨
      r = WorksStatus.ofWorks (listedWorks env s ns labels) := by
  obtain ⟨a, u, hworks, hret⟩ := exec_bind.mp he
  unfold getExistingWorks at hworks
  cases hsel : env.parseLabels labels with
  | none =>
    rw [hsel] at hworks
    obtain ⟨rfl, rfl⟩ := hworks
    exact .inl hret.1
  | some sel =>
    rw [hsel] at hworks
    obtain ⟨items, v, hlist, hworks⟩ := exec_bind.mp hworks
    obtain ⟨rfl, hitems⟩ := exec_listObjects hlist
    cases items with
    | error e =>
      obtain ⟨rfl, rfl⟩ := hworks
      exact .inr (.inl ⟨e, hret.1⟩)
    | ok items =>
      obtain ⟨rfl, rfl⟩ := hworks
      refine .inr (.inr ?_)
      rw [listedWorks, hsel, Option.elim_some, ← hitems items rfl]
      exact hret.1

theorem exec_classifyWorks_unfailing {labels : Labels} {sel : Selector}
    (hsel : env.parseLabels labels = some sel) (ns : String) (s : World) :
    Exec (unfailing env) (classifyWorks env ns labels) s
      (WorksStatus.ofWorks (listedWorks env s ns labels)) s := by
  rw [listedWorks, hsel]
  exact exec_bind.mpr ⟨_, s, (exec_getExistingWorks_of_parse hsel).mpr ⟨rfl, rfl⟩, rfl, rfl⟩

theorem isReady_of_classes {works : List Work}
    (hpaired : ∀ work ∈ works, Paired work.status.conditions)
    (hready : ∀ work ∈ works, work.readiness.isSome = true)
    (hfailed : saying works "Failing" = []) (hpending : saying works "Pending" = [])
    (hmisplaced : saying works "Misplaced" = []) {work : Work} (hwork : work ∈ works) :
    work.IsReady := by
  obtain ⟨c, hc⟩ := Option.isSome_iff_exists.mp (hready work hwork)
  have hother {message : String} (hnil : saying works message = []) : c.message ≠ message := by
    rintro rfl
    have hmem : work ∈ works.filter fun w => w.readiness.any fun c' => c'.message == c.message :=
      List.mem_filter.mpr ⟨hwork, by simp [hc]⟩
    rw [List.map_eq_nil_iff.mp hnil] at hmem
    cases hmem
  have hmessage := message_of_paired (hpaired work hwork) hc
  simp only [List.mem_cons, Prod.mk.injEq, List.not_mem_nil, or_false, hother hfailed,
    hother hpending, hother hmisplaced, and_false, false_or] at hmessage
  exact ⟨c, hc, hmessage.1⟩

/-- What both controllers have in common: they write verdicts, and the one about the Works by
its rule. -/
theorem isReady_of_yields {ns : String} {labels : Labels}
    {derive : ParentStatus → WorksStatus → ℕ → ParentStatus × Bool}
    {write : Verdict → Verdict → Verdict} {stale : ParentStatus → Bool}
    (hstatus : ∀ old new : Verdict, (write old new).1 = new.1)
    (hreporter : ∀ works, Reporter write works (fun a => derive a works) stale)
    (hs : AllPaired s) {a : ParentStatus} {out : ParentStatus × Bool}
    (hout : Yields env s (fun a => deriveStatus env ns labels (derive a)) a out)
    (htrue : out.1.IsTrue ConditionType.worksSucceeded ∨ out.1.IsTrue ConditionType.reconciled) :
    ∀ work ∈ listedWorks env s ns labels, work.IsReady := by
  obtain ⟨t, he⟩ := hout
  have hpaired (work : Work) (hwork : work ∈ listedWorks env s ns labels) :
      Paired work.status.conditions := hs work (mem_objects_of_mem_listedWorks hwork)
  obtain ⟨r, u, hclassify, he⟩ := exec_bind.mp he
  -- a crash is not the end of the derivation
  have hready (work : Work) (hwork : work ∈ listedWorks env s ns labels) :
      work.readiness.isSome = true := by
    cases hnone : work.readiness with
    | some c => rfl
    | none =>
      rcases exec_classifyWorks (hclassify.mono faulty_of_unfailing) with rfl | ⟨e, rfl⟩ | rfl
      · cases he.1
      · cases he.1
      · rw [WorksStatus.ofWorks_panicked hwork hnone] at he
        cases he.1
  rcases exec_classifyWorks (hclassify.mono faulty_of_unfailing) with rfl | ⟨e, rfl⟩ | rfl
  · cases he.1
  · cases he.1
  · rw [WorksStatus.ofWorks_eq hready] at he
    obtain ⟨now, w, -, he⟩ := exec_bind.mp he
    obtain rfl := Except.ok.inj he.1
    have hworks := htrue.elim id ((hreporter _).worksSucceeded_of_reconciled hstatus)
    obtain ⟨hfailed, hpending, hmisplaced⟩ := (hreporter _).eq_nil_of_worksSucceeded hstatus hworks
    exact fun work => isReady_of_classes hpaired hready hfailed hpending hmisplaced

theorem counted_iff {ns : String} {labels : Labels}
    {derive : ParentStatus → WorksStatus → ℕ → ParentStatus × Bool}
    {write : Verdict → Verdict → Verdict} {stale : ParentStatus → Bool}
    (hstatus : ∀ old new : Verdict, (write old new).1 = new.1)
    (hreporter : ∀ works, Reporter write works (fun a => derive a works) stale)
    (hs : AllPaired s) :
    Counted env s (listedWorks env s ns labels) (classifyWorks env ns labels)
        (fun a => deriveStatus env ns labels (derive a)) ↔
      ∀ work ∈ listedWorks env s ns labels, work.readiness.isSome = true := by
  constructor
  · intro hcounted work hwork
    cases hnone : work.readiness with
    | some c => rfl
    | none =>
      obtain ⟨sel, hsel⟩ : ∃ sel, env.parseLabels labels = some sel := by
        cases hsel : env.parseLabels labels with
        | none =>
          rw [listedWorks, hsel] at hwork
          cases hwork
        | some sel => exact ⟨sel, rfl⟩
      have he := exec_classifyWorks_unfailing hsel ns s
      rw [WorksStatus.ofWorks_panicked hwork hnone] at he
      exact absurd rfl (hcounted.returns _ _ (he.mono faulty_of_unfailing)).1
  · intro hready
    have hpaired (work : Work) (hwork : work ∈ listedWorks env s ns labels) :
        Paired work.status.conditions := hs work (mem_objects_of_mem_listedWorks hwork)
    refine ⟨?_, fun r t he => ?_, ?_⟩
    · cases hsel : env.parseLabels labels with
      | none =>
        refine ⟨.error .invalidSelector, s,
          exec_bind.mpr ⟨.error .invalidSelector, s, ?_, rfl, rfl⟩⟩
        rw [getExistingWorks, hsel]
        exact ⟨rfl, rfl⟩
      | some sel => exact ⟨_, s, exec_classifyWorks_unfailing hsel ns s⟩
    · rcases exec_classifyWorks he with rfl | ⟨e, rfl⟩ | rfl
      · exact ⟨fun h => (by cases h), fun classes h => by cases h⟩
      · exact ⟨fun h => (by cases h), fun classes h => by cases h⟩
      · rw [WorksStatus.ofWorks_eq hready]
        refine ⟨fun h => (by cases h), fun classes hclasses => ?_⟩
        obtain rfl := Except.ok.inj hclasses
        exact WorksStatus.names_perm hpaired hready
    · exact fun a out hout htrue => isReady_of_yields hstatus hreporter hs hout (.inl htrue)

/-! ### Works that others create -/

theorem othersAct_of_adds {o : Work} {c : Cluster scheme}
    (hadd : Adds (S := scheme) .work o s.cluster c) (ho : o.status = {}) :
    OthersAct s (s.withCluster c) := by
  intro work hwork
  rcases hadd.mem_iff.mp hwork with hwork | rfl
  · exact .inr ⟨work, hwork, rfl, rfl⟩
  · exact .inl (congrArg WorkStatus.conditions ho)

theorem othersAct_of_replaces {stored : Work} {new : Option Work} {c : Cluster scheme}
    (hrep : Replaces (S := scheme) .work stored new s.cluster c)
    (hnew : ∀ x, new = some x → x.status = stored.status) : OthersAct s (s.withCluster c) := by
  intro work hwork
  rcases (hrep.mem work).mp hwork with ⟨hwork, -⟩ | hwork
  · exact .inr ⟨work, hwork, rfl, rfl⟩
  · exact .inr ⟨stored, hrep.stored_mem, (hrep.key work hwork).1.symm, (hnew work hwork).symm⟩

theorem othersAct_execute {args : WorkCreatorArgs} {root : FileTree Bytes}
    (hp : Passes (faulty env) (WorkCreator.execute env args root) s t) : OthersAct s t := by
  rcases WorkCreator.passes_execute hp with rfl | ⟨groups, -, happlies⟩
  · exact WorkController.othersAct_of_objects rfl
  · cases happlies with
    | creates uuid sel c _ _ _ hadd ht => exact ht ▸ othersAct_of_adds hadd rfl
    | updates current sel c _ _ hrep ht =>
      refine ht ▸ othersAct_of_replaces hrep fun x hx => ?_
      rw [Object.settle_eq_some hx]

theorem othersAct_applyWorkForStaticDependencies {promise : Promise} {r : Option Failure}
    (he : Exec (faulty env) (PromiseReconciler.applyWorkForStaticDependencies env promise) s r t) :
    OthersAct s t := by
  obtain ⟨uuid, u, huuid, hrest⟩ := exec_bind.mp he
  obtain ⟨-, rfl⟩ := exec_perform.mp huuid
  obtain ⟨found, v, hget, hrest⟩ := exec_bind.mp hrest
  obtain ⟨rfl, -⟩ := exec_getWork hget
  rcases found with e | (_ | existing)
  · obtain ⟨-, rfl⟩ := hrest
    exact WorkController.othersAct_of_objects rfl
  · obtain ⟨res, w, hcreate, hret⟩ := exec_bind.mp hrest
    obtain rfl : t = w := by cases res <;> exact hret.2
    rcases exec_createObject hcreate with ⟨rfl, -⟩ | ⟨c, hadd, rfl, -⟩
    · exact WorkController.othersAct_of_objects rfl
    · exact othersAct_of_adds hadd rfl
  · obtain ⟨now, w, hnow, hwrite⟩ := exec_bind.mp hrest
    obtain ⟨res, w', hupdate, hret⟩ := exec_bind.mp hwrite
    obtain rfl := exec_perform.mp hnow
    obtain rfl : t = w' := by cases res <;> exact hret.2
    rcases exec_updateObject hupdate with ⟨rfl, -⟩ | ⟨stored, c, -, hrep, rfl, -, -, -⟩
    · exact WorkController.othersAct_of_objects rfl
    · refine othersAct_of_replaces hrep fun x hx => ?_
      rw [Object.settle_eq_some hx]
      rfl

theorem workRun_emptyWorld : WorkRun env emptyWorld := .start nofun

/-! ### The main statements -/

/-- In any state that the reconciles of Works reach, while others create Works: each request
and each Promise counts all its Works, if and only if all of them have a ready condition. -/
theorem works_counted_iff (env : Externals) {s : World} (hs : WorkRun env s) :
    (∀ (r : DynamicResourceRequestController) (rr : ResourceRequest) (n : ℕ),
      Counted env s (listedWorks env s rr.metadata.ns
          (DynamicResourceRequestController.worksSelectorLabels r.promiseIdentifier rr.metadata))
        (DynamicResourceRequestController.getWorksStatus env r.promiseIdentifier rr.metadata)
        (fun a => r.generateResourceStatus env { rr with status := a } n) ↔
      ∀ work ∈ listedWorks env s rr.metadata.ns
          (DynamicResourceRequestController.worksSelectorLabels r.promiseIdentifier rr.metadata),
        work.readiness.isSome = true) ∧
    ∀ (promise : Promise) (n : ℕ),
      Counted env s (listedWorks env s promise.metadata.ns
          (PromiseReconciler.worksSelectorLabels promise.metadata))
        (PromiseReconciler.getWorksStatus env promise.metadata)
        (fun a => PromiseReconciler.generateConditions env (promise.withStatus a) n) ↔
      ∀ work ∈ listedWorks env s promise.metadata.ns
          (PromiseReconciler.worksSelectorLabels promise.metadata),
        work.readiness.isSome = true := by
  refine ⟨fun r rr n => ?_, fun promise n => ?_⟩
  · exact counted_iff (fun _ _ => rfl)
      (fun works => DynamicResourceRequestController.reporter works n) hs.allPaired
  · exact counted_iff Rule.status_keepStatus
      (fun works => PromiseReconciler.reporter works n) hs.allPaired

/-- A Work of the request `example` that was just created crashes the controller. -/
theorem new_work_crashes_status :
    ∃ s t : World, WorkRun plainExternals emptyWorld ∧
      Exec (faulty plainExternals) (WorkCreator.execute plainExternals WorkCreator.requestArgs
        (WorkCreator.oneFile [1])) emptyWorld (.ok ()) s ∧ WorkRun plainExternals s ∧
      Exec (unfailing plainExternals) (DynamicResourceRequestController.getWorksStatus
        plainExternals "redis" WorkCreator.redisRequest.metadata) s (.error .panicked) t := by
  have heval : (eval (serveCall plainExternals) (WorkCreator.execute plainExternals
      WorkCreator.requestArgs (WorkCreator.oneFile [1])) emptyWorld).any (fun out =>
        out.1.isOk && (listedWorks plainExternals out.2 "default"
          (DynamicResourceRequestController.worksSelectorLabels "redis"
            WorkCreator.redisRequest.metadata)).any fun work => work.readiness.isNone) = true := by
    decide +kernel
  have hsel := plainExternals.parseLabels_of_valid
    (l := DynamicResourceRequestController.worksSelectorLabels "redis"
      WorkCreator.redisRequest.metadata) (by decide +kernel) (by decide +kernel)
  obtain ⟨env, henv⟩ : ∃ env, plainExternals = env := ⟨_, rfl⟩
  rw [henv] at heval hsel ⊢
  obtain ⟨r, s, he, hpost⟩ := exists_exec_of_eval (h := faulty env) faulty_of_serveCall heval
  obtain ⟨hok, hany⟩ := Bool.and_eq_true_iff.mp hpost
  obtain ⟨⟨⟩, rfl⟩ := exists_ok_of_isOk hok
  obtain ⟨work, hwork, hnone⟩ := List.any_eq_true.mp hany
  have hstart : WorkRun env emptyWorld := workRun_emptyWorld
  have hcrash := exec_classifyWorks_unfailing hsel "default" s
  rw [WorksStatus.ofWorks_panicked hwork (Option.isNone_iff_eq_none.mp hnone)] at hcrash
  exact ⟨s, s, hstart, he, hstart.other (othersAct_execute he.passes), hcrash⟩

/-- The Work of a pipeline is created, gets its finalizer, and is scheduled. -/
def createAndSchedule (env : Externals) (args : WorkCreatorArgs) (name : String) : Prog Unit := do
  let _ ← WorkCreator.execute env args (WorkCreator.oneFile [1])
  let _ ← WorkController.reconcile env (WorkCreator.workNamespace args) name
  let _ ← WorkController.reconcile env (WorkCreator.workNamespace args) name
  return

theorem WorkRun.createAndSchedule {args : WorkCreatorArgs} {name : String} (hs : WorkRun env s)
    (he : Exec (faulty env) (createAndSchedule env args name) s () t) : WorkRun env t := by
  obtain ⟨r, u, hexecute, he⟩ := exec_bind.mp he
  obtain ⟨r', v, hfirst, he⟩ := exec_bind.mp he
  obtain ⟨r'', w, hsecond, he⟩ := exec_bind.mp he
  obtain ⟨-, rfl⟩ := exec_pure.mp he
  exact ((hs.other (othersAct_execute hexecute.passes)).exec hfirst).exec hsecond

/-- Without a Destination the Work of the request is pending. -/
theorem works_counted_iff_sample :
    ∃ (s : World) (work : Work), WorkRun plainExternals s ∧
      work ∈ listedWorks plainExternals s "default"
        (DynamicResourceRequestController.worksSelectorLabels "redis"
          WorkCreator.redisRequest.metadata) ∧
      work.readiness.map Condition.message = some "Pending" ∧
      Counted plainExternals s (listedWorks plainExternals s "default"
          (DynamicResourceRequestController.worksSelectorLabels "redis"
            WorkCreator.redisRequest.metadata))
        (DynamicResourceRequestController.getWorksStatus plainExternals "redis"
          WorkCreator.redisRequest.metadata)
        (fun a => DynamicResourceRequestController.generateResourceStatus plainExternals
          ⟨"redis", true, true, 5, 0⟩ { WorkCreator.redisRequest with status := a } 0) := by
  have heval : (eval (serveCall plainExternals) (createAndSchedule plainExternals
      WorkCreator.requestArgs "redis-example-deploy-aaaaa") emptyWorld).any (fun out =>
        ((listedWorks plainExternals out.2 "default"
          (DynamicResourceRequestController.worksSelectorLabels "redis"
            WorkCreator.redisRequest.metadata)).any fun work =>
          work.readiness.map Condition.message = some "Pending") &&
        (listedWorks plainExternals out.2 "default"
          (DynamicResourceRequestController.worksSelectorLabels "redis"
            WorkCreator.redisRequest.metadata)).all fun work => work.readiness.isSome) = true := by
    decide +kernel
  obtain ⟨env, henv⟩ : ∃ env, plainExternals = env := ⟨_, rfl⟩
  rw [henv] at heval ⊢
  obtain ⟨⟨⟩, s, he, hpost⟩ := exists_exec_of_eval (h := faulty env) faulty_of_serveCall heval
  obtain ⟨hany, hall⟩ := Bool.and_eq_true_iff.mp hpost
  obtain ⟨work, hwork, hpending⟩ := List.any_eq_true.mp hany
  have hrun : WorkRun env s := WorkRun.createAndSchedule workRun_emptyWorld he
  exact ⟨s, work, hrun, hwork, of_decide_eq_true hpending,
    ((works_counted_iff env hrun).1 ⟨"redis", true, true, 5, 0⟩ WorkCreator.redisRequest 0).mpr
      fun work hwork => List.all_eq_true.mp hall work hwork⟩

/-- The Work belongs to the Promise itself and not to one of its requests. -/
def OfPromise (promise : Promise) (work : Work) : Prop :=
  work.metadata.labels.lookup Label.promiseName = some promise.metadata.name ∧
    work.metadata.labels.lookup Label.workType ≠ some WorkflowType.resource.text

instance (promise : Promise) (work : Work) : Decidable (OfPromise promise work) :=
  inferInstanceAs (Decidable (_ ∧ _))

theorem fromSet_worksSelectorLabels_iff {promise : ObjectMeta} {labels : Labels} :
    Selector.fromSet (PromiseReconciler.worksSelectorLabels promise) labels = true ↔
      labels.lookup Label.promiseName = some promise.name ∧
      labels.lookup Label.workType = some WorkflowType.promise.text := by
  have hkeys : [Label.promiseName, Label.workType].Nodup := by decide
  change Selector.fromSet (Labels.ofList [(Label.promiseName, promise.name),
    (Label.workType, WorkflowType.promise.text)]) labels = true ↔ _
  rw [Selector.fromSet_ofList_iff (by exact hkeys)]
  simp

/-- The Works that the Promise lists are those of its workflow. -/
theorem mem_listedWorks_promise {promise : Promise} (hns : promise.metadata.ns = "") {work : Work}
    (hwork : work ∈ s.cluster.objects .work)
    (hname : work.metadata.labels.lookup Label.promiseName = some promise.metadata.name)
    (htype : work.metadata.labels.lookup Label.workType = some WorkflowType.promise.text) :
    work ∈ listedWorks env s promise.metadata.ns
      (PromiseReconciler.worksSelectorLabels promise.metadata) := by
  have hvalid := Labels.valid_iff.mp (s.cluster.labels_valid .work work hwork)
  have hlabels : (PromiseReconciler.worksSelectorLabels promise.metadata).Valid := by
    refine Labels.valid_iff.mpr fun key v hv => hvalid key v ?_
    exact Selector.fromSet_iff.mp (fromSet_worksSelectorLabels_iff.mpr ⟨hname, htype⟩) key v hv
  have hne : PromiseReconciler.worksSelectorLabels promise.metadata ≠ ∅ := by
    intro hempty
    have hlookup : (PromiseReconciler.worksSelectorLabels promise.metadata).lookup
        Label.promiseName = some promise.metadata.name := by
      exact (fromSet_worksSelectorLabels_iff.mp (Selector.fromSet_iff.mpr fun _ _ h => h)).1
    rw [hempty] at hlookup
    cases hlookup
  rw [listedWorks, env.parseLabels_of_valid hne hlabels, hns]
  exact Cluster.mem_listed.mpr
    ⟨hwork, .inl rfl, fromSet_worksSelectorLabels_iff.mpr ⟨hname, htype⟩⟩

/-- A Promise that is reconciled, or whose Works succeeded: all its Works are ready exactly if
those are that do not come from its workflow, as the one of the static dependencies. -/
theorem promise_works_ready_iff (env : Externals) {s : World} (hs : WorkRun env s)
    (promise : Promise) (hns : promise.metadata.ns = "") (n : ℕ) {a : ParentStatus}
    {out : ParentStatus × Bool} (hout : Yields env s
      (fun a => PromiseReconciler.generateConditions env (promise.withStatus a) n) a out)
    (htrue : out.1.IsTrue ConditionType.worksSucceeded ∨ out.1.IsTrue ConditionType.reconciled) :
    (∀ work ∈ s.cluster.objects .work, OfPromise promise work → Work.IsReady work) ↔
      ∀ work ∈ s.cluster.objects .work, OfPromise promise work →
        work.metadata.labels.lookup Label.workType ≠ some WorkflowType.promise.text →
        Work.IsReady work := by
  have hlisted : ∀ work ∈ listedWorks env s promise.metadata.ns
      (PromiseReconciler.worksSelectorLabels promise.metadata), work.IsReady :=
    isReady_of_yields Rule.status_keepStatus (fun works => PromiseReconciler.reporter works n)
      hs.allPaired (by exact hout) htrue
  refine ⟨fun h work hwork hof _ => h work hwork hof, fun h work hwork hof => ?_⟩
  by_cases htype : work.metadata.labels.lookup Label.workType = some WorkflowType.promise.text
  · exact hlisted work (mem_listedWorks_promise hns hwork hof.1 htype)
  · exact h work hwork hof htype

/-- There is a Destination for the Work of the Promise workflow. -/
def installWorkflow (env : Externals) : Prog Unit := do
  let _ ← createObject .destination (destinationLabelled ∅)
  createAndSchedule env (WorkCreator.promiseArgs "install") "redis-install-bbbbb"

theorem promise_works_ready_iff_sample :
    ∃ (s : World) (out : ParentStatus × Bool), ∃ work ∈ s.cluster.objects .work,
      WorkRun plainExternals s ∧
      Yields plainExternals s (fun a => PromiseReconciler.generateConditions plainExternals
        (WorkCreator.redisPromise.withStatus a) 1) {} out ∧
      out.1.IsTrue ConditionType.worksSucceeded ∧
      OfPromise WorkCreator.redisPromise work ∧ Work.IsReady work := by
  have heval : (eval (serveCall plainExternals) (installWorkflow plainExternals) emptyWorld).any
      (fun stored => ((stored.2.cluster.objects .work).any
          fun work => OfPromise WorkCreator.redisPromise work) &&
        ((stored.2.cluster.objects .work).all fun work =>
          work.metadata.labels.lookup Label.workType = some WorkflowType.promise.text) &&
        (eval (serveAnswered plainExternals) (PromiseReconciler.generateConditions plainExternals
          (WorkCreator.redisPromise.withStatus {}) 1) stored.2).any fun x =>
            x.1.toOption.any fun out => (out.1.verdict ConditionType.worksSucceeded).any
              (·.1 == .conditionTrue)) = true := by
    decide +kernel
  obtain ⟨env, henv⟩ : ∃ env, plainExternals = env := ⟨_, rfl⟩
  rw [henv] at heval ⊢
  obtain ⟨⟨⟩, s, he, hpost⟩ := exists_exec_of_eval (h := faulty env) faulty_of_serveCall heval
  obtain ⟨hpost, hyields⟩ := Bool.and_eq_true_iff.mp hpost
  obtain ⟨hany, hall⟩ := Bool.and_eq_true_iff.mp hpost
  obtain ⟨work, hwork, hof⟩ := List.any_eq_true.mp hany
  obtain ⟨out, hout, htrue⟩ : ∃ out, Yields env s (fun a => PromiseReconciler.generateConditions env
      (WorkCreator.redisPromise.withStatus a) 1) {} out ∧
      (out.1.verdict ConditionType.worksSucceeded).any (·.1 == .conditionTrue) = true :=
    exists_yields_of_eval hyields
  obtain ⟨v, hv, htrue⟩ := (Option.any_eq_true _ _).mp htrue
  have hworks : out.1.IsTrue ConditionType.worksSucceeded := ⟨v, hv, beq_iff_eq.mp htrue⟩
  obtain ⟨r, u, hcreate, he⟩ := exec_bind.mp he
  have hspares : Spares .work (createObject .destination (destinationLabelled ∅)) :=
    spares_createObject (by decide) _
  have hrun : WorkRun env s := WorkRun.createAndSchedule (workRun_emptyWorld.other
    (WorkController.othersAct_of_objects (exec_objects hspares hcreate))) he
  refine ⟨s, out, work, hwork, hrun, hout, hworks, of_decide_eq_true hof, ?_⟩
  refine (promise_works_ready_iff env hrun WorkCreator.redisPromise rfl 1 hout (.inl hworks)).mpr
    (fun work hwork _ hother => absurd ?_ hother) work hwork (of_decide_eq_true hof)
  exact of_decide_eq_true (List.all_eq_true.mp hall work hwork)

def promiseWithDependency : Promise :=
  { WorkCreator.redisPromise with spec := { dependencies := [[1]] } }

/-- The Promise reports that all its Works are ready when the one of its dependencies
was just created. -/
theorem static_dependencies_not_covered :
    ∃ (s : World) (out : ParentStatus × Bool), ∃ work ∈ s.cluster.objects .work,
      Exec (faulty plainExternals) (PromiseReconciler.applyWorkForStaticDependencies plainExternals
        promiseWithDependency) emptyWorld none s ∧ WorkRun plainExternals s ∧
      Yields plainExternals s (fun a => PromiseReconciler.generateConditions plainExternals
        (promiseWithDependency.withStatus a) 0) {} out ∧
      out.1.IsTrue ConditionType.worksSucceeded ∧
      OfPromise promiseWithDependency work ∧ ¬ Work.IsReady work := by
  have heval : (eval (serveCall plainExternals)
      (PromiseReconciler.applyWorkForStaticDependencies plainExternals promiseWithDependency)
      emptyWorld).any (fun stored => stored.1.isNone &&
        (stored.2.cluster.objects .work).any (fun work => OfPromise promiseWithDependency work &&
          (Work.readiness work).isNone) &&
        (eval (serveAnswered plainExternals) (PromiseReconciler.generateConditions plainExternals
          (promiseWithDependency.withStatus {}) 0) stored.2).any fun x =>
            x.1.toOption.any fun out => (out.1.verdict ConditionType.worksSucceeded).any
              (·.1 == .conditionTrue)) = true := by
    decide +kernel
  obtain ⟨env, henv⟩ : ∃ env, plainExternals = env := ⟨_, rfl⟩
  rw [henv] at heval ⊢
  obtain ⟨r, s, he, hpost⟩ := exists_exec_of_eval (h := faulty env) faulty_of_serveCall heval
  obtain ⟨hpost, hyields⟩ := Bool.and_eq_true_iff.mp hpost
  obtain ⟨hnone, hany⟩ := Bool.and_eq_true_iff.mp hpost
  obtain rfl := Option.isNone_iff_eq_none.mp hnone
  obtain ⟨work, hwork, hpost⟩ := List.any_eq_true.mp hany
  obtain ⟨hof, hready⟩ := Bool.and_eq_true_iff.mp hpost
  obtain ⟨out, hout, htrue⟩ : ∃ out, Yields env s (fun a => PromiseReconciler.generateConditions env
      (promiseWithDependency.withStatus a) 0) {} out ∧
      (out.1.verdict ConditionType.worksSucceeded).any (·.1 == .conditionTrue) = true :=
    exists_yields_of_eval hyields
  obtain ⟨v, hv, htrue⟩ := (Option.any_eq_true _ _).mp htrue
  refine ⟨s, out, work, hwork, he, workRun_emptyWorld.other
    (othersAct_applyWorkForStaticDependencies he), hout, ⟨v, hv, beq_iff_eq.mp htrue⟩,
    of_decide_eq_true hof, ?_⟩
  rintro ⟨c, hc, -⟩
  rw [hc] at hready
  cases hready

end Kratix
