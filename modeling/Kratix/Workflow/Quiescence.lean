import Kratix.Workflow.FaultFree

/-!
# Reconciling again after a failed pipeline

A failed Job makes `reconcileConfigure` write the counters and the conditions
of the parent. Reconciling the object that it stored, with the same Jobs, comes
to the same status again, up to the transition times, unless the failed
pipeline is the first one: there each reconcile first takes the failure back.
-/

namespace Kratix

/-! ### Setting a condition twice -/

instance : Std.Total Condition.before where
  total a b := by
    unfold Condition.before
    by_cases ha : a.type = ConditionType.ready
    · exact Or.inl (Or.inl ha)
    · by_cases hb : b.type = ConditionType.ready
      · exact Or.inr (Or.inl hb)
      · rcases le_total a.type b.type with h | h
        · exact Or.inl (Or.inr ⟨hb, h⟩)
        · exact Or.inr (Or.inr ⟨ha, h⟩)

instance : IsTrans Condition Condition.before where
  trans a b c := by
    rintro (ha | ⟨hb, hab⟩) hbc
    · exact Or.inl ha
    · rcases hbc with hb' | ⟨hc, hbc⟩
      · exact absurd hb' hb
      · exact Or.inr ⟨hc, hab.trans hbc⟩

/-- The conditions are in order, and those of the type are one and the same, which says `c`. -/
structure Carries (conditions : List Condition) (c : Condition) : Prop where
  sorted : conditions.Pairwise Condition.before
  found : ∃ x ∈ conditions, x.hasSameState c = true ∧ ∀ y ∈ conditions, y.type = c.type → y = x

theorem Condition.hasSameState_iff {a b : Condition} : a.hasSameState b = true ↔
    a.type = b.type ∧ a.status = b.status ∧ a.reason = b.reason ∧ a.message = b.message := by
  simp [Condition.hasSameState, and_assoc]

theorem Carries.find {conditions : List Condition} {c : Condition} (h : Carries conditions c) :
    ∃ x, findCondition conditions c.type = some x ∧ x.hasSameState c = true ∧
      ∀ y ∈ conditions, y.type = c.type → y = x := by
  obtain ⟨x, hx, hsame, hall⟩ := h.found
  have htype := (Condition.hasSameState_iff.mp hsame).1
  refine ⟨x, ?_, hsame, hall⟩
  cases hf : findCondition conditions c.type with
  | none => exact absurd htype (by simpa using List.find?_eq_none.mp hf x hx)
  | some y => rw [hall y (List.mem_of_find?_eq_some hf) (by simpa using List.find?_some hf)]

theorem Carries.setCondition_eq {conditions : List Condition} {c : Condition}
    (h : Carries conditions c) : setCondition conditions c = conditions := by
  obtain ⟨x, hfind, hsame, hall⟩ := h.find
  have htype := (Condition.hasSameState_iff.mp hsame).1
  have hmap : (conditions.map fun y => if y.type = x.type then x else y) = conditions := by
    conv_rhs => rw [← List.map_id conditions]
    refine List.map_congr_left fun y hy => ?_
    by_cases hty : y.type = x.type
    · rw [if_pos hty]
      exact (hall y hy (hty.trans htype)).symm
    · rw [if_neg hty]
      rfl
  simp only [setCondition, hfind, hsame, if_true, hmap]
  exact h.sorted.insertionSort_eq

theorem pairwise_setCondition (conditions : List Condition) (c : Condition) :
    (setCondition conditions c).Pairwise Condition.before := by
  unfold setCondition
  split <;> exact List.pairwise_insertionSort _ _

theorem carries_setCondition (conditions : List Condition) (c : Condition) :
    Carries (setCondition conditions c) c where
  sorted := pairwise_setCondition conditions c
  found := by
    unfold setCondition
    cases hf : findCondition conditions c.type with
    | none =>
      have hno : ∀ y ∈ conditions, y.type ≠ c.type := by simpa using List.find?_eq_none.mp hf
      refine ⟨c, by simp, Condition.hasSameState_iff.mpr ⟨rfl, rfl, rfl, rfl⟩, fun y hy ht => ?_⟩
      rw [List.mem_insertionSort, List.mem_append, List.mem_singleton] at hy
      exact hy.resolve_left fun hy => hno y hy ht
    | some old =>
      have hold : old.type = c.type := by simpa using List.find?_some hf
      have hmem := List.mem_of_find?_eq_some hf
      -- the transition time of the old condition may be the one that is kept
      obtain ⟨d, hd, hsame⟩ : ∃ d, (if old.hasSameState c then old else c) = d ∧
          d.hasSameState c = true := by
        refine ⟨_, rfl, ?_⟩
        split
        · assumption
        · exact Condition.hasSameState_iff.mpr ⟨rfl, rfl, rfl, rfl⟩
      have htype := (Condition.hasSameState_iff.mp hsame).1
      simp only [hd]
      refine ⟨d, ?_, hsame, fun y hy ht => ?_⟩
      · rw [List.mem_insertionSort, List.mem_map]
        exact ⟨old, hmem, if_pos (hold.trans htype.symm)⟩
      · rw [List.mem_insertionSort, List.mem_map] at hy
        obtain ⟨z, -, rfl⟩ := hy
        by_cases hz : z.type = d.type
        · rw [if_pos hz]
        · rw [if_neg hz] at ht
          exact absurd (ht.trans htype.symm) hz

theorem mem_setCondition_of_ne {conditions : List Condition} {c y : Condition}
    (hne : y.type ≠ c.type) : y ∈ setCondition conditions c ↔ y ∈ conditions := by
  unfold setCondition
  cases hf : findCondition conditions c.type with
  | none =>
    rw [List.mem_insertionSort, List.mem_append, List.mem_singleton]
    exact or_iff_left fun h => hne (congrArg Condition.type h)
  | some old =>
    have hold : old.type = c.type := by simpa using List.find?_some hf
    obtain ⟨d, hd, htype⟩ : ∃ d, (if old.hasSameState c then old else c) = d ∧
        d.type = c.type := by
      refine ⟨_, rfl, ?_⟩
      split
      · exact hold
      · rfl
    simp only [hd]
    rw [List.mem_insertionSort, List.mem_map]
    constructor
    · rintro ⟨z, hz, rfl⟩
      by_cases hzd : z.type = d.type
      · rw [if_pos hzd] at hne
        exact absurd htype hne
      · rwa [if_neg hzd]
    · exact fun hy => ⟨y, hy, if_neg fun h => hne (h.trans htype)⟩

theorem Carries.setCondition_of_ne {conditions : List Condition} {c d : Condition}
    (h : Carries conditions c) (hne : c.type ≠ d.type) : Carries (setCondition conditions d) c where
  sorted := pairwise_setCondition conditions d
  found := by
    obtain ⟨x, hx, hsame, hall⟩ := h.found
    have htype := (Condition.hasSameState_iff.mp hsame).1
    refine ⟨x, (mem_setCondition_of_ne (htype ▸ hne)).mpr hx, hsame, fun y hy ht => ?_⟩
    exact hall y ((mem_setCondition_of_ne (ht ▸ hne)).mp hy) ht

theorem carries_setCondition_pair (conditions : List Condition) {c d : Condition}
    (hne : c.type ≠ d.type) : Carries (setCondition (setCondition conditions c) d) c ∧
      Carries (setCondition (setCondition conditions c) d) d :=
  ⟨(carries_setCondition conditions c).setCondition_of_ne hne, carries_setCondition _ d⟩

theorem Carries.of_hasSameState {conditions : List Condition} {c d : Condition}
    (h : Carries conditions c) (hsame : c.hasSameState d = true) : Carries conditions d := by
  obtain ⟨x, hx, hxc, hall⟩ := h.found
  have hcd := Condition.hasSameState_iff.mp hsame
  have hxc := Condition.hasSameState_iff.mp hxc
  refine ⟨h.sorted, x, hx, Condition.hasSameState_iff.mpr ?_, fun y hy ht => hall y hy ?_⟩
  · exact ⟨hxc.1.trans hcd.1, hxc.2.1.trans hcd.2.1, hxc.2.2.1.trans hcd.2.2.1,
      hxc.2.2.2.trans hcd.2.2.2⟩
  · exact ht.trans hcd.1.symm


/-! ### The status that reports a failed pipeline -/

namespace Workflow

open Apiserver Effect

variable {env : Externals} {p : ParentKind} {opts opts' : Opts p} {s t u : World} {job : Job}
  {k : ℕ} {r : Result p}

def failedStatus (status : ParentStatus) (pipeline : String) (now : ℕ) : ParentStatus :=
  { (status.markConfigureWorkflowAsFailed pipeline now).markReconciledFailing
      configureWorkflowCompletedFailedReason now with workflowsFailed := some 1 }

/-- A status that reports the failure is not changed by reporting it again. -/
theorem failedStatus_twice (status : ParentStatus) (pipeline : String) (now now' : ℕ) :
    failedStatus (failedStatus status pipeline now) pipeline now' =
      failedStatus status pipeline now := by
  have hne : ConditionType.configureWorkflowCompleted ≠ ConditionType.reconciled := by decide
  obtain ⟨l, hl⟩ : ∃ l, setCondition status.conditions
      ⟨ConditionType.configureWorkflowCompleted, .conditionFalse,
        configureWorkflowCompletedFailedReason,
        "A Configure Pipeline has failed: " ++ pipeline, now⟩ = l := ⟨_, rfl⟩
  have hcompleted := hl ▸ carries_setCondition status.conditions _
  obtain ⟨l', hl'⟩ : ∃ l', setCondition l ⟨ConditionType.reconciled, .conditionFalse,
      configureWorkflowCompletedFailedReason, "Failing", now⟩ = l' := ⟨_, rfl⟩
  have hreconciled := hl' ▸ carries_setCondition l _
  have hcompleted' := hl' ▸ hcompleted.setCondition_of_ne hne
  have hsame (c : Condition) (time : ℕ) :
      c.hasSameState { c with lastTransitionTime := time } = true :=
    Condition.hasSameState_iff.mpr ⟨rfl, rfl, rfl, rfl⟩
  have h₁ := (hcompleted'.of_hasSameState (hsame _ now')).setCondition_eq
  have h₂ := (hreconciled.of_hasSameState (hsame _ now')).setCondition_eq
  simp only [failedStatus, ParentStatus.markConfigureWorkflowAsFailed,
    ParentStatus.markReconciledFailing, ParentStatus.withCondition, hl, hl'] at h₁ h₂ ⊢
  rw [h₁, h₂]

theorem withCounters_of_current {status : ParentStatus} {i : ℕ}
    (hreset : resetsFailed status i = false) (hcount : counterStatus status.workflowsSucceeded = i) :
    withCounters status i = status := by
  have hsome : status.workflowsSucceeded = some (i : ℤ) := by
    cases hw : status.workflowsSucceeded with
    | none =>
      rw [hw] at hcount
      simp only [counterStatus, Option.getD_none] at hcount
      omega
    | some n =>
      rw [hw] at hcount
      exact congrArg some hcount
  simp only [withCounters, hreset, Bool.false_eq_true, if_false, ← hsome]

theorem updateCounters_of_current {obj : Parent p} {i : ℕ}
    (h : withCounters obj.status i = obj.status) : updateCounters obj i = pure (.ok obj) := by
  have hsucceeded : some (i : ℤ) = obj.status.workflowsSucceeded :=
    congrArg ParentStatus.workflowsSucceeded h
  have hfailed := congrArg ParentStatus.workflowsFailed h
  have hreset : resetsFailed obj.status i = false := by
    by_contra hne
    have htrue : resetsFailed obj.status i = true := by simpa using hne
    simp only [withCounters, htrue, if_true] at hfailed
    simp [resetsFailed, ← hfailed, counterStatus] at htrue
  unfold updateCounters
  rw [if_neg]
  simp [hreset, ← hsucceeded, counterStatus]

/-- Whether they are written or not, the counters are up to date afterwards. -/
theorem exec_updateCounters_stored {obj obj' : Parent p} {i : ℕ}
    (hs : s.cluster.find (.parent p) obj.key = some obj)
    (he : Exec (faulty env) (updateCounters obj i) s (.ok obj') t) :
    obj' = { obj with status := withCounters obj.status i } ∧
      t.cluster.find (.parent p) obj.key = some obj' := by
  unfold updateCounters at he
  split at he
  · obtain ⟨a, v, hupd, he⟩ := exec_bind.mp he
    cases a with
    | error e => obtain ⟨h, -⟩ := he; cases h
    | ok o =>
      obtain ⟨h, rfl⟩ := he
      cases h
      rcases exec_updateStatus hupd with ⟨-, hno⟩ | ⟨stored, c, hf, hrep, rfl, hyes⟩
      · exact absurd rfl (hno obj')
      · obtain rfl : stored = obj := Option.some.inj (hf.symm.trans hs)
        rw [hyes obj' rfl]
        exact ⟨rfl, hrep.find_self⟩
  · next hcurrent =>
    obtain ⟨h, rfl⟩ := he
    cases h
    simp only [Bool.or_eq_true, bne_iff_ne, not_or, Bool.not_eq_true, ne_eq, not_not] at hcurrent
    rw [withCounters_of_current hcurrent.1 hcurrent.2]
    exact ⟨rfl, hs⟩

theorem exec_markAsFailed_stored {obj : Parent p} {name : String}
    (hs : s.cluster.find (.parent p) obj.key = some obj) (hok : r.err = none)
    (he : Exec (faulty env) (markAsFailed obj name) s r t) :
    ∃ now, t.cluster.find (.parent p) obj.key =
      some { obj with status := failedStatus obj.status name now } := by
  obtain ⟨now, v, hnow, hrest⟩ := exec_bind.mp he
  obtain rfl : v = s := exec_perform.mp hnow
  obtain ⟨a, w, hupd, hlast⟩ := exec_bind.mp hrest
  cases a with
  | error e =>
    obtain ⟨rfl, -⟩ := hlast
    cases hok
  | ok o =>
    obtain ⟨-, rfl⟩ := hlast
    rcases exec_updateStatus hupd with ⟨-, hno⟩ | ⟨stored, c, hf, hrep, rfl, -⟩
    · exact absurd rfl (hno o)
    · obtain rfl : stored = obj := Option.some.inj (hf.symm.trans hs)
      exact ⟨now, hrep.find_self⟩

/-! ### A reconcile that finds a failed Job -/

/-- The most recent Job has failed, and it belongs to the pipeline with index `k`. -/
structure FailedAt (env : Externals) (opts : Opts p) (s : World) (job : Job) (k : ℕ) : Prop where
  latest : Latest env opts s (some job)
  failed : isFailed job = true
  current : ∃ q, opts.resources[k]? = some q ∧ jobIsForPipeline q job = true
  last : ∀ (i : ℕ) q, opts.resources[i]? = some q → jobIsForPipeline q job = true → i ≤ k

/-- What is left to do once the counters are up to date. -/
def report (job : Job) (pipeline : String) (obj : Parent p) : Prog (Result p) :=
  if isRunning job then return ⟨true, none, obj⟩ else markAsFailed obj pipeline

namespace FailedAt

theorem nextPipelineIndex_eq (h : FailedAt env opts s job k) (hman : opts.isManual = false) :
    nextPipelineIndex opts job = k := by
  obtain ⟨q, hq, hfor⟩ := h.current
  simp only [nextPipelineIndex, hman, Bool.false_eq_true, if_false]
  rcases nextIndexFrom_cases job opts.resources.reverse with ⟨-, hnone⟩ |
    ⟨i, q', hi, hfor', hmax, hnext⟩
  · rw [hnone q (List.mem_reverse.mpr (List.mem_of_getElem? hq))] at hfor
    cases hfor
  · rw [List.reverse_reverse] at hi hmax
    rw [h.failed, Bool.true_or, if_pos rfl] at hnext
    have hle := h.last i q' hi hfor'
    have hge := hmax k q hq hfor
    omega

variable {q : PipelineJobResources}

theorem le_last (hq : opts.resources[k]? = some q) : k ≤ opts.resources.length - 1 := by
  have hlt := (List.getElem?_eq_some_iff.mp hq).1
  omega

theorem reconcilePipeline_eq (h : FailedAt env opts s job k) (hman : opts.isManual = false)
    (hfor : jobIsForPipeline q job = true) {obj : Parent p}
    (hobj : obj.metadata = opts.parentObject.metadata) :
    reconcilePipeline env (opts.withParent obj) k q (some job) = report job q.name obj := by
  have hman' : (opts.withParent obj).isManual = false := by
    rw [← hman]
    simp only [Opts.isManual, Opts.withParent, hobj]
  simp only [reconcilePipeline, hfor, if_true, reconcileCurrentPipeline, hman', h.failed, report,
    Bool.false_eq_true, if_false]
  rfl

theorem of_listed (h : FailedAt env opts s job k) {allJobs : List Job}
    (he : Exec (faulty env) (getAllJobs env opts) s (.ok allJobs) t) :
    t = s ∧ (newestFirst allJobs).head? = some job := by
  obtain ⟨rfl, hjobs⟩ := exec_getAllJobs he
  obtain ⟨current, legacy, ⟨sel, hsel, hc⟩, ⟨sel', hsel', hl⟩, rfl⟩ := hjobs _ rfl
  obtain ⟨current', legacy', ⟨sel₁, hsel₁, hc₁⟩, ⟨sel₂, hsel₂, hl₂⟩, hhead⟩ := h.latest
  obtain rfl : sel = sel₁ := Option.some.inj (hsel.symm.trans hsel₁)
  obtain rfl : sel' = sel₂ := Option.some.inj (hsel'.symm.trans hsel₂)
  rw [hc, hl, ← hc₁, ← hl₂]
  exact ⟨rfl, hhead.symm⟩

theorem exec_getAllJobs (h : FailedAt env opts s job k) :
    ∃ allJobs, Exec (faulty env) (getAllJobs env opts) s (.ok allJobs) s := by
  obtain ⟨current, legacy, ⟨sel, hsel, hc⟩, ⟨sel', hsel', hl⟩, -⟩ := h.latest
  have hlist (labels : Labels) (sel : Selector) (hsel : env.parseLabels labels = some sel) :
      Exec (faulty env) (getJobsWithLabels env labels opts.jobNamespace) s
        (.ok (s.cluster.listed .job opts.jobNamespace sel)) s := by
    simp only [getJobsWithLabels, hsel]
    exact exec_bind.mpr ⟨_, s, (answers_listObjects env .job _ sel s).mono faulty_of_unfailing,
      rfl, rfl⟩
  exact ⟨_, exec_bind.mpr ⟨_, s, hlist _ sel hsel, exec_bind.mpr ⟨_, s, hlist _ sel' hsel',
    rfl, rfl⟩⟩⟩

variable (hman : opts.isManual = false)
  (hstored : s.cluster.find (.parent p) opts.parentObject.key = some opts.parentObject)

include hman hstored

/-- A call that returns without an error has written the counters and then the report. -/
theorem exec (h : FailedAt env opts s job k) (hq : opts.resources[k]? = some q)
    (hfor : jobIsForPipeline q job = true) (hok : r.err = none)
    (he : Exec (faulty env) (reconcileConfigure env opts) s r t) :
    ∃ obj u, Exec (faulty env) (updateCounters opts.parentObject k) s (.ok obj) u ∧
      Exec (faulty env) (report job q.name obj) u r t := by
  obtain ⟨a, v, hlist, hrest⟩ := exec_bind.mp he
  cases a with
  | error e =>
    obtain ⟨rfl, -⟩ := hrest
    cases hok
  | ok allJobs =>
  obtain ⟨rfl, hhead⟩ := h.of_listed hlist
  simp only [hhead, Option.map_some, Option.getD_some, h.nextPipelineIndex_eq hman] at hrest
  obtain ⟨b, w, hcount, hlast⟩ := exec_bind.mp hrest
  cases b with
  | error e =>
    obtain ⟨rfl, -⟩ := hlast
    cases hok
  | ok obj =>
  have hmeta := exec_updateCounters hstored hcount obj rfl
  simp only [min_eq_left (le_last hq), hq] at hlast
  rw [h.reconcilePipeline_eq hman hfor hmeta] at hlast
  exact ⟨obj, w, hcount, hlast⟩

/-- A status update of a call is one of the counters or one of the report. -/
theorem issues_cases (h : FailedAt env opts s job k) (hq : opts.resources[k]? = some q)
    (hfor : jobIsForPipeline q job = true) {o : Parent p}
    (hi : Issues (faulty env) (reconcileConfigure env opts) s
      (.api (.updateStatus (.parent p) o)) u) :
    Issues (faulty env) (updateCounters opts.parentObject k) s
        (.api (.updateStatus (.parent p) o)) u ∨
      ∃ obj v, Exec (faulty env) (updateCounters opts.parentObject k) s (.ok obj) v ∧
        Issues (faulty env) (report job q.name obj) v (.api (.updateStatus (.parent p) o)) u := by
  rcases issues_bind.mp hi with hlist | ⟨a, v, hlist, hrest⟩
  · exact absurd rfl ((spares_of_sparing (k := .parent p) obeys_getAllJobs).issues hlist)
  cases a with
  | error e => exact hrest.elim
  | ok allJobs =>
  obtain ⟨rfl, hhead⟩ := h.of_listed hlist
  simp only [hhead, Option.map_some, Option.getD_some, h.nextPipelineIndex_eq hman] at hrest
  rcases issues_bind.mp hrest with hcount | ⟨b, w, hcount, hlast⟩
  · exact Or.inl hcount
  cases b with
  | error e => exact hlast.elim
  | ok obj =>
  have hmeta := exec_updateCounters hstored hcount obj rfl
  simp only [min_eq_left (le_last hq), hq] at hlast
  rw [h.reconcilePipeline_eq hman hfor hmeta] at hlast
  exact Or.inr ⟨obj, w, hcount, hlast⟩

omit hstored in
theorem issues_of_counters (h : FailedAt env opts s job k) {o : Parent p}
    (hi : Issues (faulty env) (updateCounters opts.parentObject k) s
      (.api (.updateStatus (.parent p) o)) u) :
    Issues (faulty env) (reconcileConfigure env opts) s (.api (.updateStatus (.parent p) o)) u := by
  obtain ⟨allJobs, hlist⟩ := h.exec_getAllJobs
  refine issues_bind.mpr (Or.inr ⟨_, s, hlist, ?_⟩)
  simp only [(h.of_listed hlist).2, Option.map_some, Option.getD_some,
    h.nextPipelineIndex_eq hman]
  exact issues_bind.mpr (Or.inl hi)

end FailedAt

/-! ### The second reconcile -/

/-- The conditions apart from their transition times, and all the rest of the status. -/
def content (status : ParentStatus) : ParentStatus :=
  { status with conditions := status.conditions.map fun c => { c with lastTransitionTime := 0 } }

/-- Every status update that the call can issue writes the content that is stored. -/
def StatusQuiet (env : Externals) (opts : Opts p) (s : World) : Prop :=
  ∀ (o : Parent p) u,
    Issues (faulty env) (reconcileConfigure env opts) s (.api (.updateStatus (.parent p) o)) u →
    ∃ stored, u.cluster.find (.parent p) o.key = some stored ∧
      content o.status = content stored.status

/-- Another call on the object as the first one stored it. The Jobs are as the
first one left them; the generated Jobs may have got other names. -/
structure Again (opts opts' : Opts p) (t u : World) : Prop where
  jobs : u.cluster.objects .job = t.cluster.objects .job
  parent : t.cluster.find (.parent p) opts.parentObject.key = some opts'.parentObject
  stored : u.cluster.find (.parent p) opts.parentObject.key = some opts'.parentObject
  workflowType : opts'.workflowType = opts.workflowType
  resources : opts'.resources.map (fun q => (q.name, q.job.metadata.labels)) =
    opts.resources.map fun q => (q.name, q.job.metadata.labels)

theorem jobIsForPipeline_congr {q q' : PipelineJobResources}
    (h : q'.job.metadata.labels = q.job.metadata.labels) (job : Job) :
    jobIsForPipeline q' job = jobIsForPipeline q job := by
  simp only [jobIsForPipeline, h]

theorem Again.getElem? (h : Again opts opts' t u) {i : ℕ} {q' : PipelineJobResources}
    (hq' : opts'.resources[i]? = some q') :
    ∃ q, opts.resources[i]? = some q ∧ q.name = q'.name ∧
      q'.job.metadata.labels = q.job.metadata.labels := by
  have hi := congrArg (fun l => l[i]?) h.resources
  simp only [List.getElem?_map, hq', Option.map_some] at hi
  obtain ⟨q, hq, heq⟩ := Option.map_eq_some_iff.mp hi.symm
  obtain ⟨hname, hlabels⟩ := Prod.mk.inj heq
  exact ⟨q, hq, hname, hlabels.symm⟩

theorem FailedAt.again (h : FailedAt env opts s job k) (hagain : Again opts opts' t u)
    (hjobs : t.cluster.objects .job = s.cluster.objects .job)
    (hmeta : opts'.parentObject.metadata = opts.parentObject.metadata) :
    FailedAt env opts' u job k where
  latest := by
    obtain ⟨current, legacy, hc, hl, hhead⟩ := h.latest
    have hselected {labels : Labels} {ns : String} {jobs : List Job}
        (hs : Selected env labels ns s jobs) : Selected env labels ns u jobs := by
      obtain ⟨sel, hsel, rfl⟩ := hs
      refine ⟨sel, hsel, ?_⟩
      simp only [Cluster.listed, hagain.jobs, hjobs]
    have hlabels : labelsForJobs opts' = labelsForJobs opts := by
      simp only [labelsForJobs, hmeta, hagain.workflowType]
    have hlegacy : legacyLabelsForJobs opts' = legacyLabelsForJobs opts := by
      simp only [legacyLabelsForJobs, hmeta, hagain.workflowType]
    have hns : opts'.jobNamespace = opts.jobNamespace := by simp only [Opts.jobNamespace, hmeta]
    exact ⟨current, legacy, by rw [hlabels, hns]; exact hselected hc,
      by rw [hlegacy, hns]; exact hselected hl, hhead⟩
  failed := h.failed
  current := by
    obtain ⟨q, hq, hfor⟩ := h.current
    have hlen := congrArg List.length hagain.resources
    simp only [List.length_map] at hlen
    have hlt := (List.getElem?_eq_some_iff.mp hq).1
    obtain ⟨q', hq'⟩ : ∃ q', opts'.resources[k]? = some q' :=
      ⟨_, List.getElem?_eq_getElem (by omega)⟩
    obtain ⟨q₀, hq₀, -, hlabels⟩ := hagain.getElem? hq'
    obtain rfl : q₀ = q := Option.some.inj (hq₀.symm.trans hq)
    exact ⟨q', hq', (jobIsForPipeline_congr hlabels job).trans hfor⟩
  last := by
    intro i q' hq' hfor
    obtain ⟨q, hq, -, hlabels⟩ := hagain.getElem? hq'
    exact h.last i q hq ((jobIsForPipeline_congr hlabels job).symm.trans hfor)

/-- What the first call stores: the counters, and the failure if the Job has stopped. -/
theorem FailedAt.stored (h : FailedAt env opts s job k) (hman : opts.isManual = false)
    (hstored : s.cluster.find (.parent p) opts.parentObject.key = some opts.parentObject)
    {q : PipelineJobResources} (hq : opts.resources[k]? = some q)
    (hfor : jobIsForPipeline q job = true) (hok : r.err = none)
    (he : Exec (faulty env) (reconcileConfigure env opts) s r t) :
    t.cluster.objects .job = s.cluster.objects .job ∧
      ∃ status, t.cluster.find (.parent p) opts.parentObject.key =
          some { opts.parentObject with status := status } ∧
        let counted := withCounters opts.parentObject.status k
        if isRunning job then status = counted else ∃ now, status = failedStatus counted q.name now := by
  obtain ⟨obj, v, hcount, hreport⟩ := h.exec hman hstored hq hfor hok he
  have hv := exec_spared (k := .job) (obeys_updateCounters (by simp) _ _) hcount
  obtain ⟨rfl, hfind⟩ := exec_updateCounters_stored hstored hcount
  unfold report at hreport
  split at hreport
  · next hrun =>
    obtain ⟨-, rfl⟩ := hreport
    exact ⟨hv, _, hfind, by simp only [hrun, if_true]⟩
  · next hrun =>
    obtain ⟨now, hnow⟩ := exec_markAsFailed_stored hfind hok hreport
    have ht := exec_spared (k := .job) (obeys_markAsFailed (by simp) _ _) hreport
    exact ⟨ht.trans hv, _, hnow, by rw [if_neg hrun]; exact ⟨now, rfl⟩⟩

/-! ### When the second reconcile is quiet -/

theorem withCounters_idem (status : ParentStatus) (k : ℕ) :
    withCounters (withCounters status k) k = withCounters status k := by
  refine withCounters_of_current ?_ rfl
  cases hreset : resetsFailed status k with
  | true =>
    have hfailed : (withCounters status k).workflowsFailed = some 0 := if_pos hreset
    simp [resetsFailed, hfailed, counterStatus]
  | false =>
    have hfailed : (withCounters status k).workflowsFailed = status.workflowsFailed :=
      if_neg (by simp [hreset])
    simpa only [resetsFailed, hfailed] using hreset

theorem withCounters_failedStatus (status : ParentStatus) (hk : 0 < k) (name : String) (now : ℕ) :
    withCounters (failedStatus (withCounters status k) name now) k =
      failedStatus (withCounters status k) name now := by
  refine withCounters_of_current ?_ rfl
  simp only [resetsFailed, Bool.and_eq_false_iff, beq_eq_false_iff_ne]
  exact Or.inl (by omega)

theorem issues_updateStatus {k : Kind} {o o' : scheme.Obj k}
    (hi : Issues (faulty env) (updateStatus k o) s (.api (.updateStatus k o')) u) :
    o' = o ∧ u = s := by
  obtain ⟨hc, rfl⟩ := issues_perform.mp hi
  cases hc
  exact ⟨rfl, rfl⟩

theorem issues_markAsFailed {obj o : Parent p} {name : String}
    (hi : Issues (faulty env) (markAsFailed obj name) s (.api (.updateStatus (.parent p) o)) u) :
    u = s ∧ ∃ now, o = { obj with status := failedStatus obj.status name now } := by
  rcases issues_bind.mp hi with hnow | ⟨now, v, hnow, hrest⟩
  · cases (issues_perform.mp hnow).1
  obtain rfl : v = s := exec_perform.mp hnow
  rcases issues_bind.mp hrest with hupd | ⟨a, w, -, hlast⟩
  · obtain ⟨rfl, rfl⟩ := issues_updateStatus hupd
    exact ⟨rfl, now, rfl⟩
  · cases a <;> exact hlast.elim

section

variable (h : FailedAt env opts s job k) (hman : opts.isManual = false)
  (hstored : s.cluster.find (.parent p) opts.parentObject.key = some opts.parentObject)
  (hok : r.err = none) (he : Exec (faulty env) (reconcileConfigure env opts) s r t)
  (hagain : Again opts opts' t u)

include h hman hstored hok he hagain

/-- The second call finds the failed Job, and the status that the first one wrote. -/
theorem FailedAt.second : FailedAt env opts' u job k ∧ opts'.isManual = false ∧
    u.cluster.find (.parent p) opts'.parentObject.key = some opts'.parentObject ∧
    ∃ q', opts'.resources[k]? = some q' ∧ jobIsForPipeline q' job = true ∧
      let counted := withCounters opts.parentObject.status k
      if isRunning job then opts'.parentObject.status = counted
      else ∃ now, opts'.parentObject.status = failedStatus counted q'.name now := by
  obtain ⟨q, hq, hfor⟩ := h.current
  obtain ⟨hjobs, status, hfind, hstatus⟩ := h.stored hman hstored hq hfor hok he
  have hparent : opts'.parentObject = { opts.parentObject with status := status } :=
    Option.some.inj (hagain.parent.symm.trans hfind)
  have hmeta : opts'.parentObject.metadata = opts.parentObject.metadata := by rw [hparent]
  have hsecond := h.again hagain hjobs hmeta
  have hkey : opts'.parentObject.key = opts.parentObject.key := by rw [hparent]; rfl
  refine ⟨hsecond, ?_, hkey ▸ hagain.stored, ?_⟩
  · simp only [Opts.isManual, hmeta]
    exact hman
  · obtain ⟨q', hq', hfor'⟩ := hsecond.current
    obtain ⟨q₀, hq₀, hname, -⟩ := hagain.getElem? hq'
    obtain rfl : q₀ = q := Option.some.inj (hq₀.symm.trans hq)
    refine ⟨q', hq', hfor', ?_⟩
    rw [hparent, ← hname]
    exact hstatus

omit hagain in
theorem FailedAt.exists_again : ∃ opts' : Opts p, Again opts opts' t t := by
  obtain ⟨q, hq, hfor⟩ := h.current
  obtain ⟨-, status, hfind, -⟩ := h.stored hman hstored hq hfor hok he
  exact ⟨opts.withParent _, rfl, hfind, hfind, rfl, rfl⟩

theorem statusQuiet_of_later (hlater : 0 < k ∨ isRunning job = true) :
    StatusQuiet env opts' u := by
  obtain ⟨hsecond, hman', hstored', q, hq, hfor, hstatus⟩ :=
    h.second hman hstored hok he hagain
  have hcurrent : withCounters opts'.parentObject.status k = opts'.parentObject.status := by
    by_cases hrun : isRunning job = true
    · simp only [hrun, if_true] at hstatus
      rw [hstatus, withCounters_idem]
    · simp only [hrun] at hstatus
      obtain ⟨now, hnow⟩ := hstatus
      rw [hnow, withCounters_failedStatus _ (hlater.resolve_right hrun)]
  intro o v hi
  rcases hsecond.issues_cases hman' hstored' hq hfor hi with hcount | ⟨obj, w, hcount, hreport⟩
  · rw [updateCounters_of_current hcurrent] at hcount
    exact hcount.elim
  · rw [updateCounters_of_current hcurrent] at hcount
    obtain ⟨hobj, rfl⟩ := hcount
    cases hobj
    unfold report at hreport
    split at hreport
    · exact hreport.elim
    · next hrun =>
      obtain ⟨rfl, now', rfl⟩ := issues_markAsFailed hreport
      simp only [hrun] at hstatus
      obtain ⟨now, hnow⟩ := hstatus
      refine ⟨opts'.parentObject, hstored', ?_⟩
      rw [hnow, failedStatus_twice]

/-- At the first pipeline the second call takes the failure back before it reports it again. -/
theorem not_statusQuiet_of_first (hfirst : k = 0) (hrun : isRunning job = false) :
    ¬ StatusQuiet env opts' u := by
  obtain ⟨hsecond, hman', hstored', q, hq, hfor, hstatus⟩ :=
    h.second hman hstored hok he hagain
  simp only [hrun, Bool.false_eq_true, if_false] at hstatus
  obtain ⟨now, hnow⟩ := hstatus
  have hfailed : opts'.parentObject.status.workflowsFailed = some 1 := by rw [hnow]; rfl
  have hresets : resetsFailed opts'.parentObject.status k = true := by
    simp [resetsFailed, hfailed, hfirst, counterStatus]
  intro hquiet
  have hi : Issues (faulty env) (updateCounters opts'.parentObject k) u
      (.api (.updateStatus (.parent p) { opts'.parentObject with
        status := withCounters opts'.parentObject.status k })) u := by
    unfold updateCounters
    rw [if_pos (by simp [hresets])]
    exact issues_bind.mpr (Or.inl (issues_perform.mpr ⟨rfl, rfl⟩))
  obtain ⟨stored, hfind, hsame⟩ := hquiet _ u (hsecond.issues_of_counters hman' hi)
  obtain rfl : opts'.parentObject = stored := Option.some.inj (hstored'.symm.trans hfind)
  have hcontent := congrArg ParentStatus.workflowsFailed hsame
  simp [content, withCounters, hresets, hfailed] at hcontent

end

/-! ### A Promise whose last pipeline has failed -/

def failedLabels (pipeline : String) : Labels :=
  Labels.ofList [(Label.workflowType, WorkflowType.promise.text), (Label.promiseName, "redis"),
    (Label.pipelineName, pipeline)]

def failedJob (pipeline : String) : Job where
  metadata := { name := pipeline, ns := systemNamespace, labels := failedLabels pipeline }
  spec := ⟨false, pipeline, none, true, "", ""⟩
  status := { failed := 1, conditions := [(.failed, .conditionTrue)] }

def failedResources (pipeline : String) : PipelineJobResources where
  name := pipeline
  pipelineID := pipeline
  job := failedJob pipeline
  shared := ⟨⟨{ name := pipeline }, (), ()⟩, none, [], [], [], []⟩
  workflowType := .promise
  workflowAction := .configure

def failedOpts (pipelines : List String) : Opts .promise where
  parentObject := samplePromise []
  resources := pipelines.map failedResources
  workflowType := .promise
  numberOfJobsToKeep := 5

def storeFailure (pipeline : String) : Prog Unit := do
  let _ ← createObject (.parent .promise) (samplePromise [])
  let _ ← createObject .job (failedJob pipeline)
  return

def latestJob (env : Externals) (opts : Opts p) (s : World) : Option Job := do
  let sel ← env.parseLabels (labelsForJobs opts)
  let sel' ← env.parseLabels (legacyLabelsForJobs opts)
  (newestFirst (s.cluster.listed .job opts.jobNamespace sel ++
    s.cluster.listed .job opts.jobNamespace sel')).head?

theorem latest_of_latestJob (h : latestJob env opts s = some job) :
    Latest env opts s (some job) := by
  obtain ⟨sel, hsel, h⟩ := Option.bind_eq_some_iff.mp h
  obtain ⟨sel', hsel', h⟩ := Option.bind_eq_some_iff.mp h
  exact ⟨_, _, ⟨sel, hsel, rfl⟩, ⟨sel', hsel', rfl⟩, h.symm⟩

/-- Reconcile once behind the failed Job of the pipeline. -/
def reconcilesFailure (pipelines : List String) (pipeline : String) : Bool :=
  (eval (serveCall plainExternals) (storeFailure pipeline) emptyWorld).any fun out =>
    decide (out.2.cluster.find (.parent .promise) (failedOpts pipelines).parentObject.key =
      some (failedOpts pipelines).parentObject) &&
    (latestJob plainExternals (failedOpts pipelines) out.2).any (fun job =>
      isFailed job && !isRunning job && jobIsForPipeline (failedResources pipeline) job) &&
    (eval (serveCall plainExternals) (reconcileConfigure plainExternals (failedOpts pipelines))
      out.2).any fun out' => out'.1.err.isNone

theorem exists_failure {pipelines : List String} {pipeline : String}
    (heval : reconcilesFailure (pipelines ++ [pipeline]) pipeline = true) :
    ∃ (env : Externals) (opts opts' : Opts .promise) (job : Job) (r : Result .promise)
      (s t : World), opts.isManual = false ∧
      s.cluster.find (.parent .promise) opts.parentObject.key = some opts.parentObject ∧
      FailedAt env opts s job pipelines.length ∧ isRunning job = false ∧
      Exec (faulty env) (reconcileConfigure env opts) s r t ∧ r.err = none ∧
      Again opts opts' t t := by
  unfold reconcilesFailure at heval
  -- from here on the externals and the options are not to be evaluated
  obtain ⟨opts, hopts⟩ : ∃ opts, failedOpts (pipelines ++ [pipeline]) = opts := ⟨_, rfl⟩
  obtain ⟨env, henv⟩ : ∃ env, plainExternals = env := ⟨_, rfl⟩
  rw [hopts, henv] at heval
  have hman : opts.isManual = false := by
    rw [← hopts]
    exact (by decide : isManualReconciliation (samplePromise []).metadata.labels = false)
  have hq : opts.resources[pipelines.length]? = some (failedResources pipeline) := by
    simp [← hopts, failedOpts]
  have hlen : opts.resources.length = pipelines.length + 1 := by simp [← hopts, failedOpts]
  obtain ⟨_, s, -, hP⟩ := exists_exec_of_eval (h := faulty env) faulty_of_serveCall heval
  obtain ⟨hP, hexec⟩ := Bool.and_eq_true_iff.mp hP
  obtain ⟨hstored, hjob⟩ := Bool.and_eq_true_iff.mp hP
  have hstored := of_decide_eq_true hstored
  obtain ⟨job, hlatest, hjob⟩ := (Option.any_eq_true _ _).mp hjob
  obtain ⟨hjob, hfor⟩ := Bool.and_eq_true_iff.mp hjob
  obtain ⟨hfailed, hrun⟩ := Bool.and_eq_true_iff.mp hjob
  obtain ⟨r, t, he, hok⟩ := exists_exec_of_eval (h := faulty env) faulty_of_serveCall hexec
  have hok : r.err = none := by simpa using hok
  have hfail : FailedAt env opts s job pipelines.length := by
    refine ⟨latest_of_latestJob hlatest, hfailed, ⟨_, hq, hfor⟩, fun i q hi _ => ?_⟩
    have hlt := (List.getElem?_eq_some_iff.mp hi).1
    omega
  obtain ⟨opts', hagain⟩ := hfail.exists_again hman hstored hok he
  exact ⟨env, opts, opts', job, r, s, t, hman, hstored, hfail, by simpa using hrun, he, hok, hagain⟩

/-- Behind the failed Job of the first pipeline, the second call writes another content. -/
theorem first_failure_rewritten :
    ∃ (env : Externals) (opts opts' : Opts .promise) (job : Job) (r : Result .promise)
      (s t : World), opts.isManual = false ∧
      s.cluster.find (.parent .promise) opts.parentObject.key = some opts.parentObject ∧
      FailedAt env opts s job 0 ∧ Exec (faulty env) (reconcileConfigure env opts) s r t ∧
      r.err = none ∧ Again opts opts' t t ∧ ¬ StatusQuiet env opts' t := by
  have heval : reconcilesFailure ([] ++ ["install"]) "install" = true := by decide +kernel
  obtain ⟨env, opts, opts', job, r, s, t, hman, hstored, h, hrun, he, hok, hagain⟩ :=
    exists_failure heval
  exact ⟨env, opts, opts', job, r, s, t, hman, hstored, h, he, hok, hagain,
    not_statusQuiet_of_first h hman hstored hok he hagain rfl hrun⟩

/-- The first call has succeeded behind a failed Job of pipeline `k`. The second
one writes nothing new exactly if that is not the first pipeline, or if the
failed Job is still active. -/
theorem statusQuiet_after_failure_iff (hman : opts.isManual = false)
    (hstored : s.cluster.find (.parent p) opts.parentObject.key = some opts.parentObject)
    (h : FailedAt env opts s job k) (he : Exec (faulty env) (reconcileConfigure env opts) s r t)
    (hok : r.err = none) (hagain : Again opts opts' t u) :
    StatusQuiet env opts' u ↔ 0 < k ∨ isRunning job = true := by
  constructor
  · intro hquiet
    by_contra hnot
    simp only [not_or, not_lt, Nat.le_zero, Bool.not_eq_true] at hnot
    exact not_statusQuiet_of_first h hman hstored hok he hagain hnot.1 hnot.2 hquiet
  · exact statusQuiet_of_later h hman hstored hok he hagain

theorem statusQuiet_after_failure_iff_sample :
    ∃ (env : Externals) (opts opts' : Opts .promise) (job : Job) (r : Result .promise)
      (s t : World), FailedAt env opts s job 1 ∧
      Exec (faulty env) (reconcileConfigure env opts) s r t ∧ r.err = none ∧
      Again opts opts' t t ∧ StatusQuiet env opts' t := by
  have heval : reconcilesFailure (["plan"] ++ ["apply"]) "apply" = true := by decide +kernel
  obtain ⟨env, opts, opts', job, r, s, t, hman, hstored, h, hrun, he, hok, hagain⟩ :=
    exists_failure heval
  exact ⟨env, opts, opts', job, r, s, t, h, he, hok, hagain,
    (statusQuiet_after_failure_iff hman hstored h he hok hagain).mpr (Or.inl (by decide))⟩

end Workflow

end Kratix
