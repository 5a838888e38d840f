import Kratix.Controllers.Promise
import Kratix.Workflow.Quiescence

/-!
# What the status remembers

Both controllers derive the conditions `WorksSucceeded` and `Reconciled` from the
Works and the workflow, and write them under guards that look at the old value.
What is done to a condition is a `Rule`; the old value leaves no trace exactly if
the rule `Forgets` it.
-/

namespace Kratix

open Apiserver Effect

/-! ### Finding a condition after a write -/

theorem findCondition_eq_head? (conditions : List Condition) (type : String) :
    findCondition conditions type = (conditions.filter fun c => c.type = type).head? := by
  rw [findCondition, List.head?_filter]

theorem Condition.before_of_type_eq {a b : Condition} (h : a.type = b.type) : a.before b := by
  by_cases ha : a.type = ConditionType.ready
  · exact .inl ha
  · exact .inr ⟨h ▸ ha, h.le⟩

theorem findCondition_insertionSort (conditions : List Condition) (type : String) :
    findCondition (conditions.insertionSort Condition.before) type =
      findCondition conditions type := by
  set ofType := conditions.filter fun c => c.type = type with hofType
  have htype (c : Condition) (hc : c ∈ ofType) : c.type = type := by
    simpa using (List.mem_filter.mp hc).2
  have hpairwise : ofType.Pairwise Condition.before :=
    List.pairwise_of_forall_mem_list fun a ha b hb =>
      Condition.before_of_type_eq ((htype a ha).trans (htype b hb).symm)
  have hsublist := (List.sublist_insertionSort hpairwise List.filter_sublist).filter
    fun c => c.type = type
  have hself : (ofType.filter fun c => c.type = type) = ofType :=
    List.filter_eq_self.mpr fun c hc => by simpa using htype c hc
  have hlength := ((List.perm_insertionSort Condition.before conditions).filter
    fun c => c.type = type).length_eq
  rw [hself] at hsublist
  rw [findCondition_eq_head?, findCondition_eq_head?, ← hsublist.eq_of_length hlength.symm]

theorem findCondition_map_of_ne (conditions : List Condition) {c : Condition} {type : String}
    (hne : type ≠ c.type) :
    findCondition (conditions.map fun x => if x.type = c.type then c else x) type =
      findCondition conditions type := by
  unfold findCondition
  induction conditions with
  | nil => rfl
  | cons x rest ih =>
    rw [List.map_cons, List.find?_cons, List.find?_cons, ih]
    by_cases hx : x.type = c.type
    · rw [if_pos hx]
      simp [hx, hne.symm]
    · rw [if_neg hx]

theorem findCondition_setCondition_of_ne (conditions : List Condition) {c : Condition}
    {type : String} (hne : type ≠ c.type) :
    findCondition (setCondition conditions c) type = findCondition conditions type := by
  unfold setCondition
  cases hf : findCondition conditions c.type with
  | none =>
    rw [findCondition_insertionSort, findCondition, findCondition, List.find?_append]
    simp [hne.symm]
  | some old =>
    have hold : old.type = c.type := by simpa using List.find?_some hf
    have htype : (if old.hasSameState c then old else c).type = c.type := by
      split <;> simp [hold]
    simp only
    rw [findCondition_insertionSort, findCondition_map_of_ne _ (by rw [htype]; exact hne)]

namespace PromiseReconciler

theorem findCondition_updateConditions (c : Condition) (conditions : List Condition) :
    findCondition (updateConditions c conditions).1 c.type =
      some ((findCondition conditions c.type).elim c fun old =>
        if old.status = c.status then old else c) := by
  induction conditions with
  | nil => simp [updateConditions, findCondition]
  | cons x rest ih =>
    unfold updateConditions
    by_cases hx : x.type = c.type
    · by_cases hstatus : x.status = c.status <;> simp [findCondition, hx, hstatus]
    · simp only [findCondition] at ih
      simp [findCondition, hx, ih]

theorem findCondition_updateConditions_of_ne {c : Condition} {type : String} (hne : type ≠ c.type)
    (conditions : List Condition) :
    findCondition (updateConditions c conditions).1 type = findCondition conditions type := by
  induction conditions with
  | nil => simp [updateConditions, findCondition, hne.symm]
  | cons x rest ih =>
    unfold updateConditions
    simp only [findCondition] at ih
    by_cases hx : x.type = c.type
    · by_cases hstatus : x.status = c.status <;> simp [findCondition, hx, hstatus, hne.symm]
    · simp [findCondition, hx, ih, List.find?_cons]

end PromiseReconciler

/-! ### Rules -/

/-- What a condition says, and why. -/
abbrev Verdict := ConditionStatus × String

def ParentStatus.verdict (s : ParentStatus) (type : String) : Option Verdict :=
  (s.getCondition type).map fun c => (c.status, c.reason)

/-- Which old values of a condition are written over. -/
inductive Guard
  | fromTrue
  | otherStatus
  | otherVerdict

structure Rule where
  guard : Guard
  verdict : Verdict

namespace Rule

/-- A condition that is not there is always written. -/
def due (rule : Rule) (old : Option Verdict) : Bool :=
  old.all fun v =>
    match rule.guard with
    | .fromTrue => v.1 == .conditionTrue
    | .otherStatus => v.1 != rule.verdict.1
    | .otherVerdict => v.1 != rule.verdict.1 || v.2 != rule.verdict.2

/-- How the condition of a request is written. -/
def overwrite (_ new : Verdict) : Verdict := new

/-- How the condition of a Promise is written: one with the same status is kept. -/
def keepStatus (old new : Verdict) : Verdict := if old.1 = new.1 then old else new

def apply (write : Verdict → Verdict → Verdict) (rule : Rule) (old : Option Verdict) :
    Option Verdict :=
  if rule.due old then some (old.elim rule.verdict (write · rule.verdict)) else old

/-- The old verdict leaves no trace. -/
def Forgets (write : Verdict → Verdict → Verdict) (rule : Rule) (old : Verdict) : Prop :=
  match rule.guard with
  | .fromTrue => old.1 = .conditionTrue ∨ old = rule.verdict
  | .otherStatus => old.1 = rule.verdict.1 → old.2 = rule.verdict.2
  | .otherVerdict => write old rule.verdict = rule.verdict

/-- What both ways to write have in common. -/
structure Writes (write : Verdict → Verdict → Verdict) : Prop where
  self : ∀ v, write v v = v
  other : ∀ old new, old.1 ≠ new.1 → write old new = new

theorem writes_overwrite : Writes overwrite := ⟨fun _ => rfl, fun _ _ _ => rfl⟩

theorem writes_keepStatus : Writes keepStatus :=
  ⟨fun _ => if_pos rfl, fun _ _ h => if_neg h⟩

/-- A rule that waits for the condition to be true makes it something else. -/
def Moves (rule : Rule) : Prop := rule.guard = .fromTrue → rule.verdict.1 ≠ .conditionTrue

variable {write : Verdict → Verdict → Verdict} {rule : Rule}

@[simp] theorem apply_none : rule.apply write none = some rule.verdict := rfl

theorem due_verdict (hm : rule.Moves) : rule.due (some rule.verdict) = false := by
  obtain ⟨guard, verdict⟩ := rule
  cases guard with
  | fromTrue => simpa [due] using hm rfl
  | otherStatus => simp [due]
  | otherVerdict => simp [due]

/-- The rule ends with its verdict and then rests, if and only if it forgets. -/
theorem apply_eq_iff (hw : Writes write) (hm : rule.Moves) (old : Option Verdict) :
    rule.apply write old = some rule.verdict ↔ ∀ v ∈ old, rule.Forgets write v := by
  cases old with
  | none => simp
  | some v =>
    obtain ⟨guard, verdict⟩ := rule
    simp only [Option.mem_def, Option.some.injEq, forall_eq']
    cases guard with
    | fromTrue =>
      have hne : verdict.1 ≠ .conditionTrue := hm rfl
      by_cases hv : v.1 = .conditionTrue
      · have hother : write v verdict = verdict := hw.other v verdict (hv ▸ hne.symm)
        simp [apply, due, Forgets, hv, hother]
      · simp [apply, due, Forgets, hv]
    | otherStatus =>
      by_cases hv : v.1 = verdict.1
      · simp [apply, due, Forgets, hv, Prod.ext_iff]
      · simp [apply, due, Forgets, hv, hw.other v verdict hv]
    | otherVerdict =>
      by_cases hv : v = verdict
      · subst hv
        simp [apply, due, Forgets, hw.self]
      · have hdue : (v.1 != verdict.1 || v.2 != verdict.2) = true := by
          rw [Bool.or_eq_true, bne_iff_ne, bne_iff_ne]
          by_contra hsame
          push Not at hsame
          exact hv (Prod.ext hsame.1 hsame.2)
        simp [apply, due, Forgets, hdue]

/-- A rule that looks at the status only has nothing left to do after it was applied. -/
theorem due_apply_of_otherStatus (hw : Writes write) (hg : rule.guard = .otherStatus)
    (old : Option Verdict) : rule.due (rule.apply write old) = false := by
  obtain ⟨guard, verdict⟩ := rule
  obtain rfl : guard = .otherStatus := hg
  cases old with
  | none => simp [due]
  | some v =>
    by_cases hv : v.1 = verdict.1
    · simp [apply, due, hv]
    · simp [apply, due, hv, hw.other v verdict hv]

/-- There may be no rule. -/
def applyAll (write : Verdict → Verdict → Verdict) (rule : Option Rule) (old : Option Verdict) :
    Option Verdict :=
  rule.elim old fun rule => rule.apply write old

end Rule

/-! ### The rules of the two conditions -/

open DynamicResourceRequestController (WorksStatus)

def worksRule (works : WorksStatus) : Rule :=
  if works.failed ≠ [] then ⟨.fromTrue, (.conditionFalse, "WorksFailing")⟩
  else if works.pending ≠ [] then ⟨.otherStatus, (.conditionUnknown, "WorksPending")⟩
  else if works.misplaced ≠ [] then ⟨.otherVerdict, (.conditionFalse, "WorksMisplaced")⟩
  else ⟨.otherStatus, (.conditionTrue, "WorksSucceeded")⟩

def reconciledRule (workflowCompleted worksSucceeded : Option Verdict) : Option Rule :=
  if workflowCompleted.any fun v => v.1 == .conditionFalse && v.2 == "PipelinesInProgress" then
    some ⟨.otherStatus, (.conditionUnknown, "WorkflowPending")⟩
  else if workflowCompleted.any (·.1 == .conditionFalse) then
    some ⟨.otherVerdict, (.conditionFalse, configureWorkflowCompletedFailedReason)⟩
  else if worksSucceeded.any (·.1 == .conditionUnknown) then
    some ⟨.otherStatus, (.conditionUnknown, "WorksPending")⟩
  else if worksSucceeded.any (·.1 == .conditionFalse) then
    some ⟨.otherStatus, (.conditionFalse, "WorksFailing")⟩
  else if workflowCompleted.any (·.1 == .conditionTrue) &&
      worksSucceeded.any (·.1 == .conditionTrue) then
    some ⟨.otherStatus, (.conditionTrue, "Reconciled")⟩
  else none

theorem moves_worksRule (works : WorksStatus) : (worksRule works).Moves := by
  unfold worksRule
  split_ifs <;> intro h <;> cases h
  decide

theorem moves_reconciledRule {completed works : Option Verdict} {rule : Rule}
    (h : reconciledRule completed works = some rule) : rule.Moves := by
  unfold reconciledRule at h
  split_ifs at h <;> cases h <;> intro hg <;> cases hg

/-- Without the condition of the workflow only the status counts. -/
theorem guard_reconciledRule_none {works : Option Verdict} {rule : Rule}
    (h : reconciledRule none works = some rule) : rule.guard = .otherStatus := by
  unfold reconciledRule at h
  split_ifs at h <;> cases h
  all_goals first | rfl | simp_all

/-- One condition is updated by a rule, and nothing else changes that the status is derived from. -/
structure Follows (write : Verdict → Verdict → Verdict) (type : String) (rule : Option Rule)
    (status : ParentStatus) (out : ParentStatus × Bool) : Prop where
  verdict : out.1.verdict type = Rule.applyAll write rule (status.verdict type)
  others : ∀ other, other ≠ type → out.1.getCondition other = status.getCondition other
  workflows : out.1.workflows = status.workflows
  workflowsSucceeded : out.1.workflowsSucceeded = status.workflowsSucceeded
  updated : out.2 = rule.any fun rule => rule.due (status.verdict type)

section Follows

variable {write : Verdict → Verdict → Verdict} {type : String} {rule : Rule}
  {status : ParentStatus} {due : Bool} {message : String} {now : ℕ}

theorem follows_none : Follows write type none status (status, false) :=
  ⟨rfl, fun _ _ => rfl, rfl, rfl, rfl⟩

theorem follows_skip (hdue : rule.due (status.verdict type) = false) :
    Follows write type (some rule) status (status, false) where
  verdict := by simp [Rule.applyAll, Rule.apply, hdue]
  others _ _ := rfl
  workflows := rfl
  workflowsSucceeded := rfl
  updated := by simp [hdue]

theorem follows_withCondition (hdue : due = rule.due (status.verdict type)) :
    Follows Rule.overwrite type (some rule) status
      (if due then (status.withCondition type rule.verdict.1 rule.verdict.2 message now, true)
        else (status, false)) := by
  cases due with
  | false => exact follows_skip hdue.symm
  | true =>
    have hcarries := carries_setCondition status.conditions
      ⟨type, rule.verdict.1, rule.verdict.2, message, now⟩
    obtain ⟨x, hfind, hsame, -⟩ := hcarries.find
    obtain ⟨-, hstatus, hreason, -⟩ := Condition.hasSameState_iff.mp hsame
    have hwritten : (status.withCondition type rule.verdict.1 rule.verdict.2 message now).getCondition
        type = some x := hfind
    refine ⟨?_, fun other hne => ?_, rfl, rfl, by simp [← hdue]⟩
    · rw [if_pos rfl, ParentStatus.verdict, hwritten, Option.map_some, hstatus, hreason]
      simp only [Rule.applyAll, Option.elim_some, Rule.apply, ← hdue, if_true]
      cases status.verdict type <;> rfl
    · exact findCondition_setCondition_of_ne _ hne

theorem follows_updateConditionOnPromise (hdue : due = rule.due (status.verdict type)) :
    Follows Rule.keepStatus type (some rule) status
      (if due then ((PromiseReconciler.updateConditionOnPromise status
          ⟨type, rule.verdict.1, rule.verdict.2, message, now⟩).1, true)
        else (status, false)) := by
  cases due with
  | false => exact follows_skip hdue.symm
  | true =>
    set c : Condition := ⟨type, rule.verdict.1, rule.verdict.2, message, now⟩
    have hwritten : (PromiseReconciler.updateConditionOnPromise status c).1.getCondition type =
        some ((status.getCondition type).elim c fun old =>
          if old.status = c.status then old else c) :=
      PromiseReconciler.findCondition_updateConditions c status.conditions
    refine ⟨?_, fun other hne => ?_, rfl, rfl, by simp [← hdue]⟩
    · rw [if_pos rfl, ParentStatus.verdict, hwritten]
      simp only [Rule.applyAll, Option.elim_some, Rule.apply, ← hdue, if_true]
      unfold ParentStatus.verdict
      cases status.getCondition type with
      | none => rfl
      | some old =>
        by_cases hstatus : old.status = c.status
        · have hkeep : Rule.keepStatus (old.status, old.reason) rule.verdict =
              (old.status, old.reason) := if_pos hstatus
          simp only [Option.elim_some, if_pos hstatus, Option.map_some, hkeep]
        · have hkeep : Rule.keepStatus (old.status, old.reason) rule.verdict = rule.verdict :=
            if_neg hstatus
          simp only [Option.elim_some, if_neg hstatus, Option.map_some, hkeep, c]
    · exact PromiseReconciler.findCondition_updateConditions_of_ne hne _

end Follows

/-! ### What the controllers do -/

theorem any_verdict (status : ParentStatus) (type : String) (f : Verdict → Bool) :
    (status.verdict type).any f =
      (status.getCondition type).any fun c => f (c.status, c.reason) := by
  unfold ParentStatus.verdict
  cases status.getCondition type <;> rfl

section

variable (status : ParentStatus) (type : String) {now : ConditionStatus} {reason : String}

theorem due_fromTrue {v : Verdict} : ((status.getCondition type).all fun c => c.status == .conditionTrue) =
    Rule.due ⟨.fromTrue, v⟩ (status.verdict type) := by
  unfold ParentStatus.verdict
  cases status.getCondition type <;> rfl

theorem due_otherStatus : ((status.getCondition type).all fun c => c.status != now) =
    Rule.due ⟨.otherStatus, (now, reason)⟩ (status.verdict type) := by
  unfold ParentStatus.verdict
  cases status.getCondition type <;> rfl

theorem due_otherVerdict :
    ((status.getCondition type).all fun c => c.status != now || c.reason != reason) =
      Rule.due ⟨.otherVerdict, (now, reason)⟩ (status.verdict type) := by
  unfold ParentStatus.verdict
  cases status.getCondition type <;> rfl

end

theorem DynamicResourceRequestController.follows_works (status : ParentStatus)
    (works : WorksStatus) (now : ℕ) :
    Follows Rule.overwrite ConditionType.worksSucceeded (some (worksRule works)) status
      (updateWorksSucceededCondition status works now) := by
  unfold updateWorksSucceededCondition worksRule
  by_cases hfailed : works.failed = []
  · by_cases hpending : works.pending = []
    · by_cases hmisplaced : works.misplaced = []
      · simp only [hfailed, hpending, hmisplaced, ne_eq, not_true_eq_false, if_false]
        exact follows_withCondition (due_otherStatus _ _)
      · simp only [hfailed, hpending, hmisplaced, ne_eq, not_true_eq_false, if_false,
          not_false_eq_true, if_true]
        exact follows_withCondition (due_otherVerdict _ _)
    · simp only [hfailed, hpending, ne_eq, not_true_eq_false, if_false, not_false_eq_true, if_true]
      exact follows_withCondition (due_otherStatus _ _)
  · simp only [hfailed, ne_eq, not_false_eq_true, if_true]
    exact follows_withCondition (due_fromTrue _ _)

theorem PromiseReconciler.follows_works (status : ParentStatus) (works : WorksStatus) (now : ℕ) :
    Follows Rule.keepStatus ConditionType.worksSucceeded (some (worksRule works)) status
      (updateWorksSucceededCondition status works now) := by
  unfold updateWorksSucceededCondition worksRule
  by_cases hfailed : works.failed = []
  · by_cases hpending : works.pending = []
    · by_cases hmisplaced : works.misplaced = []
      · simp only [hfailed, hpending, hmisplaced, ne_eq, not_true_eq_false, if_false]
        exact follows_updateConditionOnPromise (due_otherStatus _ _)
      · simp only [hfailed, hpending, hmisplaced, ne_eq, not_true_eq_false, if_false,
          not_false_eq_true, if_true]
        exact follows_updateConditionOnPromise (due_otherVerdict _ _)
    · simp only [hfailed, hpending, ne_eq, not_true_eq_false, if_false, not_false_eq_true, if_true]
      exact follows_updateConditionOnPromise (due_otherStatus _ _)
  · simp only [hfailed, ne_eq, not_false_eq_true, if_true]
    exact follows_updateConditionOnPromise (due_fromTrue _ _)

theorem DynamicResourceRequestController.follows_reconciled (status : ParentStatus) (now : ℕ) :
    Follows Rule.overwrite ConditionType.reconciled
      (reconciledRule (status.verdict ConditionType.configureWorkflowCompleted)
        (status.verdict ConditionType.worksSucceeded)) status
      (updateReconciledCondition status now) := by
  unfold updateReconciledCondition reconciledRule
  simp only [any_verdict]
  split
  · exact follows_withCondition (due_otherStatus _ _)
  split
  · exact follows_withCondition (due_otherVerdict _ _)
  split
  · exact follows_withCondition (due_otherStatus _ _)
  split
  · exact follows_withCondition (due_otherStatus _ _)
  split
  · exact follows_withCondition (due_otherStatus _ _)
  · exact follows_none

theorem PromiseReconciler.follows_reconciled (status : ParentStatus) (now : ℕ) :
    Follows Rule.keepStatus ConditionType.reconciled
      (reconciledRule (status.verdict ConditionType.configureWorkflowCompleted)
        (status.verdict ConditionType.worksSucceeded)) status
      (updateReconciledCondition status now) := by
  unfold updateReconciledCondition reconciledRule
  simp only [any_verdict]
  split
  · exact follows_updateConditionOnPromise (due_otherStatus _ _)
  split
  · exact follows_updateConditionOnPromise (due_otherVerdict _ _)
  split
  · exact follows_updateConditionOnPromise (due_otherStatus _ _)
  split
  · exact follows_updateConditionOnPromise (due_otherStatus _ _)
  split
  · exact follows_updateConditionOnPromise (due_otherStatus _ _)
  · exact follows_none

/-! ### The status after both -/

/-- The counters that a finished workflow leads to. -/
structure Counts (counters : ParentStatus → ParentStatus × Bool) (stale : ParentStatus → Bool) :
    Prop where
  conditions : ∀ a, (counters a).1.conditions = a.conditions
  updated : ∀ a, (counters a).2 = stale a
  settled : ∀ a, stale (counters a).1 = false
  congr : ∀ {a b : ParentStatus}, a.workflows = b.workflows →
    a.workflowsSucceeded = b.workflowsSucceeded →
    a.getCondition ConditionType.configureWorkflowCompleted =
      b.getCondition ConditionType.configureWorkflowCompleted → stale a = stale b

/-- How a function derives a status from the Works: it sets both conditions by their rules,
and counters that depend on the workflow only. -/
structure Reporter (write : Verdict → Verdict → Verdict) (works : WorksStatus)
    (gen : ParentStatus → ℕ → ParentStatus × Bool) (stale : ParentStatus → Bool) : Prop where
  worksSucceeded : ∀ a now, (gen a now).1.verdict ConditionType.worksSucceeded =
    (worksRule works).apply write (a.verdict ConditionType.worksSucceeded)
  reconciled : ∀ a now, (gen a now).1.verdict ConditionType.reconciled = Rule.applyAll write
    (reconciledRule (a.verdict ConditionType.configureWorkflowCompleted)
      ((gen a now).1.verdict ConditionType.worksSucceeded)) (a.verdict ConditionType.reconciled)
  completed : ∀ a now, (gen a now).1.verdict ConditionType.configureWorkflowCompleted =
    a.verdict ConditionType.configureWorkflowCompleted
  updated : ∀ a now, (gen a now).2 = (
    (worksRule works).due (a.verdict ConditionType.worksSucceeded) ||
    (reconciledRule (a.verdict ConditionType.configureWorkflowCompleted)
      ((gen a now).1.verdict ConditionType.worksSucceeded)).any
        (fun rule => rule.due (a.verdict ConditionType.reconciled)) || stale a)
  settled : ∀ a now, stale (gen a now).1 = false

section

variable {write : Verdict → Verdict → Verdict} {works : WorksStatus}

theorem verdict_congr {a b : ParentStatus} {type : String}
    (h : a.getCondition type = b.getCondition type) : a.verdict type = b.verdict type := by
  rw [ParentStatus.verdict, h, ParentStatus.verdict]

theorem reporter_of_follows {f g : ParentStatus → ℕ → ParentStatus × Bool}
    {counters : ParentStatus → ParentStatus × Bool} {stale : ParentStatus → Bool}
    (hf : ∀ a now, Follows write ConditionType.worksSucceeded (some (worksRule works)) a (f a now))
    (hg : ∀ a now, Follows write ConditionType.reconciled
      (reconciledRule (a.verdict ConditionType.configureWorkflowCompleted)
        (a.verdict ConditionType.worksSucceeded)) a (g a now))
    (hc : Counts counters stale) :
    Reporter write works (fun a now => ((counters (g (f a now).1 now).1).1,
      (f a now).2 || (g (f a now).1 now).2 || (counters (g (f a now).1 now).1).2)) stale := by
  have hconditions (a : ParentStatus) (type : String) :
      (counters a).1.getCondition type = a.getCondition type := by
    rw [ParentStatus.getCondition, hc.conditions, ParentStatus.getCondition]
  have hcompleted (a : ParentStatus) (now : ℕ) :
      (f a now).1.getCondition ConditionType.configureWorkflowCompleted =
        a.getCondition ConditionType.configureWorkflowCompleted := (hf a now).others _ (by decide)
  have hworks (a : ParentStatus) (now : ℕ) :
      (counters (g (f a now).1 now).1).1.verdict ConditionType.worksSucceeded =
        (f a now).1.verdict ConditionType.worksSucceeded :=
    verdict_congr ((hconditions _ _).trans ((hg _ now).others _ (by decide)))
  have hreconciled (a : ParentStatus) (now : ℕ) : (f a now).1.verdict ConditionType.reconciled =
      a.verdict ConditionType.reconciled := verdict_congr ((hf a now).others _ (by decide))
  refine ⟨fun a now => ?_, fun a now => ?_, fun a now => ?_, fun a now => ?_, fun a now => ?_⟩
  · rw [hworks, (hf a now).verdict]
    rfl
  · rw [hworks, verdict_congr (hconditions _ _), (hg _ now).verdict, hreconciled,
      verdict_congr (hcompleted a now)]
  · exact verdict_congr ((hconditions _ _).trans (((hg _ now).others _ (by decide)).trans
      (hcompleted a now)))
  · have hstale : stale (g (f a now).1 now).1 = stale a :=
      hc.congr ((hg _ now).workflows.trans (hf a now).workflows)
        ((hg _ now).workflowsSucceeded.trans (hf a now).workflowsSucceeded)
        (((hg _ now).others _ (by decide)).trans (hcompleted a now))
    rw [hworks, hc.updated, hstale, (hf a now).updated, (hg _ now).updated, hreconciled,
      verdict_congr (hcompleted a now)]
    rfl
  · exact hc.settled _

/-! ### Status and history -/

/-- Over these previous values the function returns, its result depends on nothing but the
Works and the condition of the workflow, and a second run has nothing to update. -/
structure HistoryFree (run : ParentStatus → ParentStatus × Bool → Prop) (P : Set ParentStatus) :
    Prop where
  returns : ∀ a ∈ P, ∃ out, run a out
  worksSucceeded : ∀ a ∈ P, ∀ b ∈ P, a.getCondition ConditionType.configureWorkflowCompleted =
      b.getCondition ConditionType.configureWorkflowCompleted →
    ∀ out out', run a out → run b out' →
      out.1.verdict ConditionType.worksSucceeded = out'.1.verdict ConditionType.worksSucceeded
  reconciled : ∀ a ∈ P, ∀ b ∈ P, a.getCondition ConditionType.configureWorkflowCompleted =
      b.getCondition ConditionType.configureWorkflowCompleted →
    (a.getCondition ConditionType.configureWorkflowCompleted).isSome = true →
    ∀ out out', run a out → run b out' →
      out.1.verdict ConditionType.reconciled = out'.1.verdict ConditionType.reconciled
  settled : ∀ a ∈ P, ∀ out out', run a out → run out.1 out' → out'.2 = false

/-- Without a rule, a condition that is there stays. -/
def Rule.ForgetsAll (write : Verdict → Verdict → Verdict) (rule : Option Rule)
    (old : Option Verdict) : Prop :=
  rule.elim (old = none) fun rule => ∀ v ∈ old, rule.Forgets write v

/-- The rules for these Works forget both old conditions. -/
structure Forgetful (write : Verdict → Verdict → Verdict) (works : WorksStatus)
    (a : ParentStatus) : Prop where
  worksSucceeded : ∀ v ∈ a.verdict ConditionType.worksSucceeded, (worksRule works).Forgets write v
  reconciled : (a.getCondition ConditionType.configureWorkflowCompleted).isSome = true →
    Rule.ForgetsAll write (reconciledRule (a.verdict ConditionType.configureWorkflowCompleted)
      (some (worksRule works).verdict)) (a.verdict ConditionType.reconciled)

/-- Nothing but the condition of the workflow. -/
def ParentStatus.forget (a : ParentStatus) : ParentStatus where
  conditions := (a.getCondition ConditionType.configureWorkflowCompleted).toList

theorem getCondition_forget (a : ParentStatus) (type : String) : a.forget.getCondition type =
    if type = ConditionType.configureWorkflowCompleted then a.getCondition type else none := by
  unfold ParentStatus.forget
  cases hc : a.getCondition ConditionType.configureWorkflowCompleted with
  | none =>
    split_ifs with h
    · rw [h, hc]
      rfl
    · rfl
  | some c =>
    have htype : c.type = ConditionType.configureWorkflowCompleted := by
      simpa using List.find?_some hc
    split_ifs with h
    · rw [h, hc]
      simp [ParentStatus.getCondition, findCondition, htype]
    · simp [ParentStatus.getCondition, findCondition, htype, Ne.symm h]

theorem verdict_forget (a : ParentStatus) {type : String}
    (h : type ≠ ConditionType.configureWorkflowCompleted) : a.forget.verdict type = none := by
  rw [ParentStatus.verdict, getCondition_forget, if_neg h]
  rfl

theorem Rule.applyAll_eq_iff (hw : Rule.Writes write) {rule : Option Rule}
    (hm : ∀ x, rule = some x → x.Moves) (old : Option Verdict) :
    Rule.applyAll write rule old = Rule.applyAll write rule none ↔
      Rule.ForgetsAll write rule old := by
  cases rule with
  | none => exact Iff.rfl
  | some rule => exact Rule.apply_eq_iff hw (hm rule rfl) old

theorem Rule.due_applyAll (hw : Rule.Writes write) {rule : Option Rule}
    (hm : ∀ x, rule = some x → x.Moves) {old : Option Verdict}
    (h : Rule.ForgetsAll write rule old) :
    (rule.any fun rule => rule.due (Rule.applyAll write (some rule) old)) = false := by
  cases rule with
  | none => rfl
  | some rule =>
    have happly : rule.apply write old = some rule.verdict :=
      (Rule.apply_eq_iff hw (hm rule rfl) old).mpr h
    change rule.due (rule.apply write old) = false
    rw [happly, Rule.due_verdict (hm rule rfl)]

namespace Reporter

variable {gen : ParentStatus → ℕ → ParentStatus × Bool} {stale : ParentStatus → Bool}
  {a : ParentStatus}

theorem worksSucceeded_eq (h : Reporter write works gen stale) (hw : Rule.Writes write)
    (ha : ∀ v ∈ a.verdict ConditionType.worksSucceeded, (worksRule works).Forgets write v)
    (now : ℕ) :
    (gen a now).1.verdict ConditionType.worksSucceeded = some (worksRule works).verdict := by
  rw [h.worksSucceeded]
  exact (Rule.apply_eq_iff hw (moves_worksRule works) _).mpr ha

theorem worksSucceeded_forget (h : Reporter write works gen stale) (a : ParentStatus) (now : ℕ) :
    (gen a.forget now).1.verdict ConditionType.worksSucceeded = some (worksRule works).verdict := by
  rw [h.worksSucceeded, verdict_forget a (by decide), Rule.apply_none]

/-- A second run has nothing to update. -/
theorem not_updated (h : Reporter write works gen stale) (hw : Rule.Writes write)
    (ha : Forgetful write works a) (now now' : ℕ) : (gen (gen a now).1 now').2 = false := by
  have hworks := h.worksSucceeded_eq hw ha.worksSucceeded now
  have hrest : (worksRule works).due (some (worksRule works).verdict) = false :=
    Rule.due_verdict (moves_worksRule works)
  have hagain : (gen (gen a now).1 now').1.verdict ConditionType.worksSucceeded =
      some (worksRule works).verdict := by
    rw [h.worksSucceeded, hworks, Rule.apply, hrest]
    rfl
  rw [h.updated, hworks, hagain, h.completed, h.settled, h.reconciled, hworks, hrest,
    Bool.false_or, Bool.or_false]
  set rule := reconciledRule (a.verdict ConditionType.configureWorkflowCompleted)
    (some (worksRule works).verdict) with hrule
  have hm (x : Rule) (hx : rule = some x) : x.Moves := moves_reconciledRule hx
  cases hcompleted : a.getCondition ConditionType.configureWorkflowCompleted with
  | some c =>
    have hforgets := ha.reconciled (by rw [hcompleted]; rfl)
    have hdue := Rule.due_applyAll hw hm hforgets
    cases hx : rule with
    | none => rfl
    | some x =>
      rw [hx] at hdue
      exact hdue
  | none =>
    have hnone : a.verdict ConditionType.configureWorkflowCompleted = none := by
      rw [ParentStatus.verdict, hcompleted]
      rfl
    cases hx : rule with
    | none => rfl
    | some x =>
      rw [hrule, hnone] at hx
      exact Rule.due_apply_of_otherStatus hw (guard_reconciledRule_none hx) _

/-- The reconciled condition follows from the Works and the workflow, as far as the rule forgets. -/
theorem reconciled_eq (h : Reporter write works gen stale) (hw : Rule.Writes write)
    (ha : Forgetful write works a)
    (hsome : (a.getCondition ConditionType.configureWorkflowCompleted).isSome = true) (now : ℕ) :
    (gen a now).1.verdict ConditionType.reconciled = Rule.applyAll write
      (reconciledRule (a.verdict ConditionType.configureWorkflowCompleted)
        (some (worksRule works).verdict)) none := by
  rw [h.reconciled, h.worksSucceeded_eq hw ha.worksSucceeded]
  exact (Rule.applyAll_eq_iff hw (fun x hx => moves_reconciledRule hx) _).mpr (ha.reconciled hsome)

theorem historyFree_iff (h : Reporter write works gen stale) (hw : Rule.Writes write)
    {P : Set ParentStatus} (hP : ∀ a ∈ P, a.forget ∈ P) :
    HistoryFree (fun a out => ∃ now, out = gen a now) P ↔ ∀ a ∈ P, Forgetful write works a := by
  constructor
  · intro hfree a ha
    have hcompleted : a.getCondition ConditionType.configureWorkflowCompleted =
        a.forget.getCondition ConditionType.configureWorkflowCompleted := by
      rw [getCondition_forget, if_pos rfl]
    have hworks := hfree.worksSucceeded a ha a.forget (hP a ha) hcompleted _ _ ⟨0, rfl⟩ ⟨0, rfl⟩
    rw [h.worksSucceeded_forget] at hworks
    refine ⟨?_, fun hsome => ?_⟩
    · rw [h.worksSucceeded] at hworks
      exact (Rule.apply_eq_iff hw (moves_worksRule works) _).mp hworks
    · have hreconciled := hfree.reconciled a ha a.forget (hP a ha) hcompleted hsome _ _
        ⟨0, rfl⟩ ⟨0, rfl⟩
      rw [h.reconciled, h.reconciled, hworks, h.worksSucceeded_forget, ← verdict_congr hcompleted,
        verdict_forget a (by decide)] at hreconciled
      exact (Rule.applyAll_eq_iff hw (fun x hx => moves_reconciledRule hx) _).mp hreconciled
  · intro hforgets
    refine ⟨fun a _ => ⟨_, 0, rfl⟩, ?_, ?_, ?_⟩
    · rintro a ha b hb - _ _ ⟨now, rfl⟩ ⟨now', rfl⟩
      rw [h.worksSucceeded_eq hw (hforgets a ha).worksSucceeded,
        h.worksSucceeded_eq hw (hforgets b hb).worksSucceeded]
    · rintro a ha b hb hcompleted hsome _ _ ⟨now, rfl⟩ ⟨now', rfl⟩
      rw [h.reconciled_eq hw (hforgets a ha) hsome,
        h.reconciled_eq hw (hforgets b hb) (hcompleted ▸ hsome), verdict_congr hcompleted]
    · rintro a ha _ _ ⟨now, rfl⟩ ⟨now', rfl⟩
      exact h.not_updated hw (hforgets a ha) now now'

end Reporter

end

/-! ### The two controllers -/

variable {env : Externals} {s t : World}

theorem exec_getExistingWorks_of_parse {ns : String} {labels : Labels} {sel : Selector}
    (hsel : env.parseLabels labels = some sel) {res : Except Failure (List Work)} :
    Exec (unfailing env) (getExistingWorks env ns labels) s res t ↔
      res = .ok (s.cluster.listed .work ns sel) ∧ t = s := by
  simp only [getExistingWorks, hsel]
  constructor
  · intro he
    obtain ⟨a, u, hlist, he⟩ := exec_bind.mp he
    obtain ⟨rfl, rfl⟩ := exec_listObjects_unfailing hlist
    exact he
  · rintro ⟨rfl, rfl⟩
    exact exec_bind.mpr ⟨_, t, answers_listObjects env .work ns _ t, rfl, rfl⟩

theorem exec_timeNow_unfailing {now : ℕ} : Exec (unfailing env) timeNow s now t ↔ t = s := by
  rw [timeNow, exec_perform]
  exact ⟨fun h => h.1, fun h => ⟨h, trivial⟩⟩

/-- Both controllers list the Works by their labels and derive the status from them. -/
def deriveStatus (env : Externals) (ns : String) (labels : Labels)
    (derive : WorksStatus → ℕ → ParentStatus × Bool) :
    Prog (Except Failure (ParentStatus × Bool)) := do
  let classify : Prog (Except Failure WorksStatus) := do
    match ← getExistingWorks env ns labels with
    | .error e => return .error e
    | .ok works => return WorksStatus.ofWorks works
  match ← classify with
  | .error e => return .error e
  | .ok works => return .ok (derive works (← timeNow))

theorem exec_deriveStatus_iff {ns : String} {labels : Labels} {sel : Selector}
    {derive : WorksStatus → ℕ → ParentStatus × Bool} {works : WorksStatus}
    (hsel : env.parseLabels labels = some sel)
    (hworks : WorksStatus.ofWorks (s.cluster.listed .work ns sel) = .ok works)
    {out : ParentStatus × Bool} :
    (∃ t, Exec (unfailing env) (deriveStatus env ns labels derive) s (.ok out) t) ↔
      ∃ now, out = derive works now := by
  unfold deriveStatus
  constructor
  · rintro ⟨t, he⟩
    obtain ⟨res, u, hclassify, he⟩ := exec_bind.mp he
    obtain ⟨l, v, hlist, hclassify⟩ := exec_bind.mp hclassify
    obtain ⟨rfl, rfl⟩ := (exec_getExistingWorks_of_parse hsel).mp hlist
    obtain ⟨rfl, rfl⟩ := exec_pure.mp hclassify
    rw [hworks] at he
    obtain ⟨now, w, -, he⟩ := exec_bind.mp he
    exact ⟨now, Except.ok.inj (exec_pure.mp he).1⟩
  · rintro ⟨now, rfl⟩
    refine ⟨s, exec_bind.mpr ⟨.ok works, s, exec_bind.mpr
      ⟨.ok (s.cluster.listed .work ns sel), s, ?_, ?_⟩, ?_⟩⟩
    · exact (exec_getExistingWorks_of_parse hsel).mpr ⟨rfl, rfl⟩
    · exact exec_pure.mpr ⟨hworks.symm, rfl⟩
    · exact exec_bind.mpr ⟨now, s, exec_timeNow_unfailing.mpr rfl, exec_pure.mpr ⟨rfl, rfl⟩⟩

/-- The counters are out of date, where a missing one reads as `read none`. -/
def staleCounters (read : Option ℤ → ℤ) (n : ℕ) (a : ParentStatus) : Bool :=
  decide (read a.workflows ≠ n ∨ read a.workflowsSucceeded ≠
    if (a.getCondition ConditionType.configureWorkflowCompleted).any
      (·.status == .conditionTrue) then (n : ℤ) else 0)

theorem counts_of_read {read : Option ℤ → ℤ} (hread : ∀ z, read (some z) = z) {n : ℕ}
    {counters : ParentStatus → ParentStatus × Bool}
    (hcounters : ∀ a, counters a = if staleCounters read n a then
      ({ a with
          workflows := some (n : ℤ)
          workflowsSucceeded := some
            (if (a.getCondition ConditionType.configureWorkflowCompleted).any
              (·.status == .conditionTrue) then (n : ℤ) else 0)
          workflowsFailed := some 0 }, true)
      else (a, false)) : Counts counters (staleCounters read n) where
  conditions a := by
    rw [hcounters]
    split <;> rfl
  updated a := by
    rw [hcounters]
    cases staleCounters read n a <;> rfl
  settled a := by
    rw [hcounters]
    cases hstale : staleCounters read n a with
    | false => exact hstale
    | true =>
      unfold staleCounters ParentStatus.getCondition
      simp [hread]
  congr hworkflows hsucceeded hcompleted := by
    simp only [staleCounters, hworkflows, hsucceeded, hcompleted]

theorem DynamicResourceRequestController.counts (n : ℕ) :
    Counts (fun a => generateWorkflowsCounterStatus a n) (staleCounters counterStatus n) := by
  refine counts_of_read (fun _ => rfl) fun a => ?_
  unfold generateWorkflowsCounterStatus staleCounters
  simp only [decide_eq_true_eq]

theorem PromiseReconciler.counts (n : ℕ) :
    Counts (fun a => generateWorkflowsCounterStatus a n) (staleCounters counter n) := by
  refine counts_of_read (fun _ => rfl) fun a => ?_
  unfold generateWorkflowsCounterStatus staleCounters
  simp only [decide_eq_true_eq]

theorem DynamicResourceRequestController.reporter (works : WorksStatus) (n : ℕ) :
    Reporter Rule.overwrite works (fun a now =>
      let worksSucceeded := updateWorksSucceededCondition a works now
      let reconciled := updateReconciledCondition worksSucceeded.1 now
      let counters := generateWorkflowsCounterStatus reconciled.1 n
      (counters.1, worksSucceeded.2 || reconciled.2 || counters.2)) (staleCounters counterStatus n) :=
  reporter_of_follows (fun a now => follows_works a works now) follows_reconciled (counts n)

theorem PromiseReconciler.reporter (works : WorksStatus) (n : ℕ) :
    Reporter Rule.keepStatus works (fun a now =>
      let worksSucceeded := updateWorksSucceededCondition a works now
      let reconciled := updateReconciledCondition worksSucceeded.1 now
      let counters := generateWorkflowsCounterStatus reconciled.1 n
      (counters.1, worksSucceeded.2 || reconciled.2 || counters.2)) (staleCounters counter n) :=
  reporter_of_follows (fun a now => follows_works a works now) follows_reconciled (counts n)

/-- The status function of a controller returns this for a request or Promise with the status. -/
def Yields (env : Externals) (s : World)
    (status : ParentStatus → Prog (Except Failure (ParentStatus × Bool)))
    (a : ParentStatus) (out : ParentStatus × Bool) : Prop :=
  ∃ t, Exec (unfailing env) (status a) s (.ok out) t

/-- For any classified Works and any previous values, absence among them: both controllers
derive the status from the Works and the workflow alone, and find nothing to update a second
time, exactly if the rules forget all the values. -/
theorem status_historyFree_iff (env : Externals) (s : World) (P : Set ParentStatus)
    (hP : ∀ a ∈ P, a.forget ∈ P) :
    (∀ (r : DynamicResourceRequestController) (rr : ResourceRequest) (n : ℕ) (sel : Selector)
      (works : WorksStatus), env.parseLabels (DynamicResourceRequestController.worksSelectorLabels
        r.promiseIdentifier rr.metadata) = some sel →
      WorksStatus.ofWorks (s.cluster.listed .work rr.metadata.ns sel) = .ok works →
      (HistoryFree (Yields env s fun a => r.generateResourceStatus env { rr with status := a } n) P ↔
        ∀ a ∈ P, Forgetful Rule.overwrite works a)) ∧
    (∀ (promise : Promise) (n : ℕ) (sel : Selector) (works : WorksStatus),
      env.parseLabels (PromiseReconciler.worksSelectorLabels promise.metadata) = some sel →
      WorksStatus.ofWorks (s.cluster.listed .work promise.metadata.ns sel) = .ok works →
      (HistoryFree (Yields env s fun a =>
        PromiseReconciler.generateConditions env (promise.withStatus a) n) P ↔
          ∀ a ∈ P, Forgetful Rule.keepStatus works a)) := by
  constructor
  · intro r rr n sel works hsel hworks
    rw [← (DynamicResourceRequestController.reporter works n).historyFree_iff
      Rule.writes_overwrite hP]
    refine iff_of_eq (congrArg (HistoryFree · P) ?_)
    funext a out
    exact propext (exec_deriveStatus_iff hsel hworks)
  · intro promise n sel works hsel hworks
    rw [← (PromiseReconciler.reporter works n).historyFree_iff Rule.writes_keepStatus hP]
    refine iff_of_eq (congrArg (HistoryFree · P) ?_)
    funext a out
    exact propext (exec_deriveStatus_iff hsel hworks)

/-- A Work of a request or, without a name of one, of the Promise, with this message. -/
def workSaying (resourceName workType message : String) : Work where
  metadata := {
    name := "work"
    ns := "default"
    labels := getWorkLabels "redis" resourceName "" workType }
  spec := { promiseName := "redis", resourceName := resourceName }
  status := { conditions := [⟨ConditionType.ready, .conditionFalse, "", message, 0⟩] }

def storeWork (work : Work) : Prog Unit := do
  let _ ← createObject .work { work with status := {} }
  let _ ← updateStatus .work work
  return

def reportedBefore (status : ConditionStatus) (reason : String) : ParentStatus where
  conditions := [⟨ConditionType.worksSucceeded, status, reason, "", 0⟩]

/-- The status function for the request `example`. -/
def requestStatus (env : Externals) (a : ParentStatus) :
    Prog (Except Failure (ParentStatus × Bool)) :=
  DynamicResourceRequestController.generateResourceStatus env ⟨"redis", true, true, 5, 0⟩
    { metadata := { name := "example", ns := "default" }, spec := "", status := a } 0

def promiseStatus (env : Externals) (a : ParentStatus) :
    Prog (Except Failure (ParentStatus × Bool)) :=
  PromiseReconciler.generateConditions env
    { metadata := { name := "redis" }, spec := {}, status := a } 0

theorem exists_yields_of_eval {status : ParentStatus → Prog (Except Failure (ParentStatus × Bool))}
    {a : ParentStatus} {P : ParentStatus × Bool → Bool}
    (h : (eval (serveAnswered env) (status a) s).any (fun x => x.1.toOption.any P) = true) :
    ∃ out, Yields env s status a out ∧ P out = true := by
  obtain ⟨r, t, he, hr⟩ := exists_exec_of_eval unfailing_of_serveAnswered h
  cases r with
  | error e => cases hr
  | ok out => exact ⟨out, ⟨t, he⟩, hr⟩

/-- Works that were pending and now fail go on to be reported as pending. The Promise with
a misplaced Work that failed before has something to update again and again. -/
theorem pending_hides_failure :
    (∃ (s : World) (out out' : ParentStatus × Bool),
      Yields plainExternals s (requestStatus plainExternals)
        (reportedBefore .conditionUnknown "WorksPending") out ∧
      Yields plainExternals s (requestStatus plainExternals) {} out' ∧
      out.1.verdict ConditionType.worksSucceeded = some (.conditionUnknown, "WorksPending") ∧
      out'.1.verdict ConditionType.worksSucceeded = some (.conditionFalse, "WorksFailing")) ∧
    ∃ (s : World) (out out' : ParentStatus × Bool),
      Yields plainExternals s (promiseStatus plainExternals)
        (reportedBefore .conditionFalse "WorksFailing") out ∧
      Yields plainExternals s (promiseStatus plainExternals) out.1 out' ∧ out'.2 = true := by
  have hrequest : (eval (serveAnswered plainExternals)
      (storeWork (workSaying "example" "resource" "Failing")) emptyWorld).any (fun stored =>
        (eval (serveAnswered plainExternals) (requestStatus plainExternals
          (reportedBefore .conditionUnknown "WorksPending")) stored.2).any fun x =>
          x.1.toOption.any fun out => decide (out.1.verdict ConditionType.worksSucceeded =
            some (.conditionUnknown, "WorksPending")) &&
        (eval (serveAnswered plainExternals) (requestStatus plainExternals {}) stored.2).any fun x =>
          x.1.toOption.any fun out => decide (out.1.verdict ConditionType.worksSucceeded =
            some (.conditionFalse, "WorksFailing"))) = true := by
    decide +kernel
  have hpromise : (eval (serveAnswered plainExternals)
      (storeWork (workSaying "" "promise" "Misplaced")) emptyWorld).any (fun stored =>
        (eval (serveAnswered plainExternals) (promiseStatus plainExternals
          (reportedBefore .conditionFalse "WorksFailing")) stored.2).any fun x =>
          x.1.toOption.any fun out =>
            (eval (serveAnswered plainExternals) (promiseStatus plainExternals out.1) stored.2).any
              fun y => y.1.toOption.any fun out' => out'.2) = true := by
    decide +kernel
  -- from here on the externals are not to be evaluated
  obtain ⟨env, henv⟩ : ∃ env, plainExternals = env := ⟨_, rfl⟩
  rw [henv] at hrequest hpromise ⊢
  constructor
  · obtain ⟨_, s, -, h⟩ := exists_exec_of_eval unfailing_of_serveAnswered hrequest
    obtain ⟨out, hout, h⟩ := exists_yields_of_eval h
    obtain ⟨hpending, h⟩ := Bool.and_eq_true_iff.mp h
    obtain ⟨out', hout', hfailing⟩ := exists_yields_of_eval h
    exact ⟨s, out, out', hout, hout', of_decide_eq_true hpending, of_decide_eq_true hfailing⟩
  · obtain ⟨_, s, -, h⟩ := exists_exec_of_eval unfailing_of_serveAnswered hpromise
    obtain ⟨out, hout, h⟩ := exists_yields_of_eval h
    obtain ⟨out', hout', hupdated⟩ := exists_yields_of_eval h
    exact ⟨s, out, out', hout, hout', hupdated⟩

/-- Without Works, it does not matter whether the request was pending before. -/
theorem status_historyFree_iff_sample :
    HistoryFree (Yields plainExternals emptyWorld (requestStatus plainExternals))
      {({} : ParentStatus), reportedBefore .conditionUnknown "WorksPending"} := by
  have hP : ∀ a ∈ ({({} : ParentStatus), reportedBefore .conditionUnknown "WorksPending"} :
      Set ParentStatus), a.forget ∈ ({({} : ParentStatus),
        reportedBefore .conditionUnknown "WorksPending"} : Set ParentStatus) := by
    rintro a (rfl | rfl)
    · exact .inl rfl
    · exact .inl (by decide)
  obtain ⟨sel, hsel⟩ : ∃ sel, plainExternals.parseLabels
      (DynamicResourceRequestController.worksSelectorLabels "redis"
        { name := "example", ns := "default" }) = some sel :=
    ⟨_, plainExternals.parseLabels_of_valid (by decide +kernel) (by decide +kernel)⟩
  refine ((status_historyFree_iff plainExternals emptyWorld _ hP).1 ⟨"redis", true, true, 5, 0⟩
    { metadata := { name := "example", ns := "default" }, spec := "", status := {} } 0 sel {} hsel
    rfl).mpr ?_
  rintro a (rfl | rfl)
  · exact ⟨nofun, nofun⟩
  · refine ⟨fun v hv => ?_, nofun⟩
    obtain rfl := Option.some.inj hv
    exact fun hsame => absurd hsame (by decide)

end Kratix
