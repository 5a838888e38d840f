import Kratix.Workflow.Classification
import Kratix.Workflow.Phase

/-!
# What the parent reports when a Job is created

The call that reports a workflow as running is not the one that creates the Job:
it ends, and a later call finds the condition and goes on. Any condition with
status False lets it go on, the one of a failed workflow as well.
-/

namespace Kratix

/-- The workflow is reported as running, and the parent is not reported as failing. -/
structure ParentStatus.ReportsProgress (status : ParentStatus) : Prop where
  running : ∃ c, status.getCondition ConditionType.configureWorkflowCompleted = some c ∧
    c.status = .conditionFalse ∧ c.reason = "PipelinesInProgress"
  notFailing : ∀ c, status.getCondition ConditionType.reconciled = some c →
    ¬ (c.status = .conditionFalse ∧ c.reason = configureWorkflowCompletedFailedReason)

end Kratix

namespace Kratix.Workflow

open Apiserver Effect

variable {env : Externals} {p : ParentKind} {opts : Opts p} {s t u : World} {job : Job}
  {key : String × String} {conditions : List Condition}

/-! ### The stored conditions -/

/-- The parent, if it is still stored, has these conditions. -/
def Shows (p : ParentKind) (key : String × String) (conditions : List Condition) (s : World) :
    Prop :=
  ∀ obj, s.cluster.find (.parent p) key = some obj → obj.status.conditions = conditions

theorem Shows.of_objects (h : Shows p key conditions s)
    (hobjects : t.cluster.objects (.parent p) = s.cluster.objects (.parent p)) :
    Shows p key conditions t := by
  intro obj hobj
  obtain ⟨hmem, hkey⟩ := t.cluster.find_eq_some.mp hobj
  exact h obj (s.cluster.find_eq_some.mpr ⟨hobjects ▸ hmem, hkey⟩)

theorem Shows.passes {α : Type} {prog : Prog α} (h : Shows p key conditions s)
    (hp : Obeys (sparing (.parent p)) prog) (ht : Passes (faulty env) prog s t) :
    Shows p key conditions t := by
  refine Passes.invariant (fun c u r v hi hc hu => ?_) h ht
  exact hu.of_objects (faulty_objects hc ((spares_of_sparing hp).issues hi))

theorem Shows.consume {r : Except Failure (Parent p)} (h : Shows p key conditions s)
    (hkey : opts.parentObject.key = key)
    (he : Exec (faulty env) (consumeManualReconciliation opts) s r t) :
    Shows p key conditions t := by
  unfold consumeManualReconciliation at he
  split at he
  · obtain ⟨a, v, hupd, hrest⟩ := exec_bind.mp he
    obtain rfl : t = v := by
      cases a <;> exact hrest.2
    rcases exec_updateObject hupd with ⟨rfl, -⟩ | ⟨stored, c, hfind, hrep, rfl, -⟩
    · exact h
    · intro obj hobj
      have hstored : stored.status.conditions = conditions := h stored (hkey ▸ hfind)
      obtain ⟨hmem, hobj⟩ := (Cluster.find_eq_some _).mp hobj
      rcases (hrep.mem obj).mp hmem with ⟨-, hne⟩ | hnew
      · have hk : stored.key = key := ((Cluster.find_eq_some _).mp hfind).2.trans hkey
        exact absurd (hobj.trans hk.symm) hne
      · rw [Object.settle_eq_some hnew]
        exact hstored
  · obtain ⟨-, rfl⟩ := he
    exact h

/-! ### Where Jobs are created -/

/-- Anything but the creation of a Job. -/
@[simps]
def withoutJobs : Policy where
  write := fun o => o.1 ≠ .job
  status := fun _ => True
  patch := fun _ => True
  delete := fun _ => True
  files := True

/-- Some execution comes to the creation of the Job in the state `u`. -/
abbrev CreatesJob {α : Type} (env : Externals) (prog : Prog α) (s : World) (job : Job) (u : World) :
    Prop :=
  Issues (faulty env) prog s (.api (.create .job job)) u

theorem not_createsJob {α : Type} {prog : Prog α} (hp : Obeys withoutJobs prog) :
    ¬ CreatesJob env prog s job u := by
  intro hi
  exact hp.issues hi rfl

theorem createsJob_bind {α β : Type} {prog : Prog α} {f : α → Prog β} (hp : Obeys withoutJobs prog)
    (h : CreatesJob env (prog >>= f) s job u) :
    ∃ a t, Exec (faulty env) prog s a t ∧ CreatesJob env (f a) t job u := by
  rcases issues_bind.mp h with h | h
  · exact absurd h (not_createsJob hp)
  · exact h

theorem isShared_ne_parent {k : Kind} (h : isShared k = true) : k ≠ .parent p := by
  rintro rfl
  cases h

/-- A pipeline is started only by a call that has found the condition False, and
the conditions are as it has found them. -/
theorem createsJob_createConfigurePipeline {i : ℕ} {resources : PipelineJobResources}
    (hskip : opts.skipConditions = false)
    (hs : Shows p opts.parentObject.key conditions s)
    (h : CreatesJob env (createConfigurePipeline opts i resources) s job u) :
    opts.parentObject.status.configureWorkflowCompletedConditionStatus = .conditionFalse ∧
      Shows p opts.parentObject.key conditions u := by
  unfold createConfigurePipeline at h
  obtain ⟨updated, t, hset, hrest⟩ :=
    createsJob_bind (obeys_setConfigureWorkflowCompletedConditionStatus trivial _) h
  split at hrest
  · exact hrest.elim
  next hgo =>
  have hfound : opts.parentObject.status.configureWorkflowCompletedConditionStatus =
      .conditionFalse ∧ updated.parentObject = opts.parentObject ∧ t = s := by
    unfold setConfigureWorkflowCompletedConditionStatus at hset
    rw [hskip, if_neg (by simp)] at hset
    split at hset
    · next hfalse =>
      obtain ⟨rfl, rfl⟩ := hset
      exact ⟨hfalse, rfl, rfl⟩
    · obtain ⟨now, v, -, hset⟩ := exec_bind.mp hset
      obtain ⟨a, w, -, hset⟩ := exec_bind.mp hset
      cases a <;> obtain ⟨rfl, -⟩ := hset <;> simp at hgo
  obtain ⟨hfalse, hparent, rfl⟩ := hfound
  obtain ⟨stale, v, hstale, hrest⟩ := createsJob_bind (obeys_getObjectsToDelete _) hrest
  have hv : Shows p opts.parentObject.key conditions v :=
    hs.passes (obeys_getObjectsToDelete _) hstale.passes
  cases stale with
  | error e => exact hrest.elim
  | ok stale =>
    have hwithout : Obeys withoutJobs (consumeManualReconciliation (opts.withParent
        updated.parentObject)) := obeys_consumeManualReconciliation fun _ => by simp
    obtain ⟨consumed, w, hconsume, hrest⟩ := createsJob_bind hwithout hrest
    have hw := hv.consume (by rw [hparent]; rfl) hconsume
    cases consumed with
    | error e => exact hrest.elim
    | ok obj =>
      refine ⟨hfalse, hw.passes ?_ hrest.passes⟩
      refine obeys_bind (obeys_deleteResources fun o ho => ?_) fun _ =>
        obeys_bind (obeys_applyResources fun o ho => ?_) fun _ => obeys_pure _
      · exact isShared_ne_parent (exec_getObjectsToDelete hstale _ rfl o ho)
      · rcases List.mem_append.mp ho with ho | ho
        · exact isShared_ne_parent (isShared_of_mem_getObjects ho)
        · obtain rfl := List.mem_singleton.mp ho
          exact fun h => by cases h

theorem createsJob_reconcilePipeline {i : ℕ} {resources : PipelineJobResources}
    {last : Option Job} (h : CreatesJob env (reconcilePipeline env opts i resources last) s job u) :
    CreatesJob env (createConfigurePipeline opts i resources) s job u := by
  cases last with
  | none => exact h
  | some latest =>
    change CreatesJob env (if jobIsForPipeline resources latest then _ else _) s job u at h
    have hsuspend : Obeys withoutJobs (suspendJob latest) := obeys_suspendJob trivial _
    split at h
    · unfold reconcileCurrentPipeline at h
      split at h
      · split at h
        · refine absurd h (not_createsJob (obeys_bind hsuspend ?_))
          rintro (e | _) <;> exact obeys_pure _
        · exact h.elim
      · split at h
        · exact h
        · split at h
          · exact absurd h (not_createsJob (obeys_markAsFailed trivial _ _))
          · exact absurd h (not_createsJob
              (obeys_bind (obeys_cleanup trivial trivial _) fun _ => obeys_pure _))
    · split at h
      · exact absurd h (not_createsJob (obeys_bind hsuspend fun _ => obeys_pure _))
      · exact h

/-- When a Job is created, the stored parent has the conditions that the call has found. -/
theorem createsJob_reconcileConfigure (hskip : opts.skipConditions = false)
    (hstored : s.cluster.find (.parent p) opts.parentObject.key = some opts.parentObject)
    (h : CreatesJob env (reconcileConfigure env opts) s job u) :
    opts.parentObject.status.configureWorkflowCompletedConditionStatus = .conditionFalse ∧
      Shows p opts.parentObject.key opts.parentObject.status.conditions u := by
  unfold reconcileConfigure at h
  obtain ⟨allJobs, t, hjobs, h⟩ := createsJob_bind obeys_getAllJobs h
  obtain ⟨rfl, -⟩ := exec_getAllJobs hjobs
  cases allJobs with
  | error e => exact h.elim
  | ok allJobs =>
    obtain ⟨counted, v, hcount, h⟩ := createsJob_bind (obeys_updateCounters trivial _ _) h
    cases counted with
    | error e => exact h.elim
    | ok obj =>
      obtain ⟨rfl, hfind⟩ := exec_updateCounters_stored hstored hcount
      dsimp only at h
      split at h
      · exact h.elim
      · have hshows : Shows p opts.parentObject.key opts.parentObject.status.conditions v := by
          intro stored hagain
          cases hfind.symm.trans hagain
          rfl
        have hcreate := createsJob_reconcilePipeline h
        have hfound := createsJob_createConfigurePipeline (by exact hskip) (by exact hshows) hcreate
        exact hfound

/-! ### Reports before a first failure -/

/-- Where the condition lets a call go on, progress is reported. -/
def Fresh (status : ParentStatus) : Prop :=
  status.configureWorkflowCompletedConditionStatus = .conditionFalse → status.ReportsProgress

theorem reportsProgress_congr {status status' : ParentStatus}
    (hc : status'.conditions = status.conditions) :
    status'.ReportsProgress ↔ status.ReportsProgress := by
  have hget (type : String) : status'.getCondition type = status.getCondition type :=
    congrArg (findCondition · type) hc
  constructor
  · exact fun h => ⟨by simpa only [hget] using h.running, by simpa only [hget] using h.notFailing⟩
  · exact fun h => ⟨by simpa only [hget] using h.running, by simpa only [hget] using h.notFailing⟩

theorem Fresh.of_conditions {status status' : ParentStatus} (h : Fresh status)
    (hc : status'.conditions = status.conditions) : Fresh status' := by
  intro hfalse
  refine (reportsProgress_congr hc).mpr (h ?_)
  rw [← hfalse, ParentStatus.configureWorkflowCompletedConditionStatus,
    ParentStatus.configureWorkflowCompletedConditionStatus, ParentStatus.getCondition,
    ParentStatus.getCondition, hc]

theorem reportsProgress_runningStatus (status : ParentStatus) (isTheFirstPipeline : Bool)
    (now : ℕ) : (runningStatus status isTheFirstPipeline now).ReportsProgress := by
  obtain ⟨l, hl⟩ : ∃ l, (if isTheFirstPipeline || status.message == "" ||
      status.message == "Resource requested" then { status with message := "Pending" }
      else status).conditions = l := ⟨_, rfl⟩
  have htypes : ConditionType.configureWorkflowCompleted ≠ ConditionType.reconciled := by decide
  have hne : (⟨ConditionType.configureWorkflowCompleted, .conditionFalse, "PipelinesInProgress",
        "Pipelines are still in progress", now⟩ : Condition).type ≠
      (⟨ConditionType.reconciled, .conditionUnknown, "WorkflowPending", "Pending", now⟩ :
        Condition).type := htypes
  obtain ⟨hrunning, hpending⟩ := carries_setCondition_pair l hne
  obtain ⟨c, hfind, hsame, -⟩ := hrunning.find
  obtain ⟨d, hfind', hsame', -⟩ := hpending.find
  have hc := Condition.hasSameState_iff.mp hsame
  have hd := Condition.hasSameState_iff.mp hsame'
  subst hl
  refine ⟨⟨c, hfind, hc.2.1, hc.2.2.1⟩, fun d' hd' hfailed => ?_⟩
  cases hfind'.symm.trans hd'
  have hunknown := hd.2.1.symm.trans hfailed.1
  cases hunknown

/-- Every status that the call gives to a parent of the kind is fresh. -/
def ReportsFresh (p : ParentKind) : Call → Prop
  | .api call => call.Reports (S := scheme) (.parent p) Fresh
  | _ => True

def AllFresh (p : ParentKind) (s : World) : Prop :=
  ∀ x ∈ s.cluster.objects (.parent p), Fresh x.status

theorem AllFresh.step {c : Call} {r : c.Answer} (hs : AllFresh p s) (hc : ReportsFresh p c)
    (h : faulty env c s r t) : AllFresh p t := by
  rcases faulty_cluster h with hcl | ⟨call, rfl, hcl⟩
  · rwa [AllFresh, hcl]
  · rw [AllFresh, hcl]
    have hreports : call.Reports (S := scheme) (.parent p) Fresh := hc
    exact statuses_serve hreports hs

theorem AllFresh.exec {α : Type} {prog : Prog α} {a : α} (hs : AllFresh p s)
    (hp : prog.Calls (ReportsFresh p)) (he : Exec (faulty env) prog s a t) : AllFresh p t :=
  Passes.invariant (fun _ _ _ _ hi hc hu => hu.step (hp.issues hi) hc) hs he.passes

/-- Anything but writing parents of the kind. -/
@[simps]
def sparingStatus (p : ParentKind) : Policy where
  write := fun o => o.1 ≠ .parent p
  status := fun k => k ≠ .parent p
  patch := fun _ => True
  delete := fun _ => True
  files := True

theorem reportsFresh_of_obeys {c : Call} (h : c.Obeys (sparingStatus p)) : ReportsFresh p c := by
  cases c with
  | api call =>
    cases call with
    | create k o => exact fun hk => absurd hk h
    | updateStatus k o => exact fun hk => absurd hk h
    | _ => trivial
  | _ => trivial

section

variable {α : Type} {prog : Prog α}

theorem calls_of_obeys (h : Obeys (sparingStatus p) prog) : prog.Calls (ReportsFresh p) :=
  h.mono fun _ => reportsFresh_of_obeys

theorem calls_updateStatus_fresh {o : Parent p} (h : Fresh o.status) :
    (updateStatus (.parent p) o).Calls (ReportsFresh p) :=
  calls_perform.mpr fun _ => h

end

theorem calls_updateCounters_fresh {obj : Parent p} (h : Fresh obj.status) (i : ℕ) :
    (updateCounters obj i).Calls (ReportsFresh p) := by
  unfold updateCounters
  split
  · refine calls_bind (calls_updateStatus_fresh (h.of_conditions rfl)) ?_
    rintro (e | o) <;> exact calls_pure _
  · exact calls_pure _

theorem calls_createConfigurePipeline_fresh (i : ℕ) (resources : PipelineJobResources) :
    (createConfigurePipeline opts i resources).Calls (ReportsFresh p) := by
  have hset : (setConfigureWorkflowCompletedConditionStatus opts (i == 0)).Calls
      (ReportsFresh p) := by
    unfold setConfigureWorkflowCompletedConditionStatus
    split
    · exact calls_pure _
    · split
      · exact calls_pure _
      · refine calls_bind (calls_perform.mpr trivial) fun now => ?_
        refine calls_bind (calls_updateStatus_fresh fun _ =>
          reportsProgress_runningStatus _ _ _) ?_
        rintro (e | o) <;> exact calls_pure _
  have hconsume (opts : Opts p) :
      (consumeManualReconciliation opts).Calls (ReportsFresh p) := by
    unfold consumeManualReconciliation
    split
    · refine calls_bind (calls_perform.mpr trivial) ?_
      rintro (e | o) <;> exact calls_pure _
    · exact calls_pure _
  refine calls_bind hset fun updated => ?_
  split
  · exact calls_pure _
  · refine calls_bind (calls_of_obeys (obeys_getObjectsToDelete _)) ?_
    rintro (e | stale)
    · exact calls_pure _
    · refine calls_bind (hconsume _) ?_
      rintro (e | obj)
      · exact calls_pure _
      · refine calls_bind (calls_of_obeys (obeys_deleteResources fun _ _ => trivial)) fun _ => ?_
        refine calls_bind (calls_of_obeys (obeys_applyResources fun o ho => ?_)) fun _ =>
          calls_pure _
        rcases List.mem_append.mp ho with ho | ho
        · exact isShared_ne_parent (isShared_of_mem_getObjects ho)
        · obtain rfl := List.mem_singleton.mp ho
          exact fun h => by cases h

theorem calls_reconcilePipeline_fresh {i : ℕ} {resources : PipelineJobResources}
    {last : Option Job} (hlast : ∀ job, last = some job → isFailed job = false) :
    (reconcilePipeline env opts i resources last).Calls (ReportsFresh p) := by
  have hcreate : (createConfigurePipeline opts i resources).Calls (ReportsFresh p) :=
    calls_createConfigurePipeline_fresh i resources
  cases last with
  | none => exact hcreate
  | some latest =>
    change Program.Calls _ (if jobIsForPipeline resources latest then _ else _)
    have hsuspend : (suspendJob latest).Calls (ReportsFresh p) :=
      calls_of_obeys (obeys_suspendJob trivial _)
    split
    · unfold reconcileCurrentPipeline
      rw [hlast latest rfl]
      split
      · split
        · refine calls_bind hsuspend ?_
          rintro (e | _) <;> exact calls_pure _
        · exact calls_pure _
      · split
        · exact hcreate
        · exact calls_bind (calls_of_obeys (obeys_cleanup trivial trivial _)) fun _ => calls_pure _
    · split
      · exact calls_bind hsuspend fun _ => calls_pure _
      · exact hcreate

/-- The most recent Job, if there is one, has not failed. -/
def NotFailed (env : Externals) (opts : Opts p) (s : World) : Prop :=
  ∀ job, Latest env opts s (some job) → isFailed job = false

theorem exec_reconcileConfigure_fresh {r : Result p} (hs : AllFresh p s)
    (hstored : s.cluster.find (.parent p) opts.parentObject.key = some opts.parentObject)
    (hlast : NotFailed env opts s) (he : Exec (faulty env) (reconcileConfigure env opts) s r t) :
    AllFresh p t := by
  refine Passes.invariant (fun c u a v hi hc hu => hu.step ?_ hc) hs he.passes
  have hfresh : Fresh opts.parentObject.status := hs _ (s.cluster.find_eq_some.mp hstored).1
  unfold reconcileConfigure at hi
  rcases issues_bind.mp hi with hi | ⟨allJobs, w, hjobs, hi⟩
  · exact (calls_of_obeys obeys_getAllJobs).issues hi
  obtain ⟨rfl, hlisted⟩ := exec_getAllJobs hjobs
  cases allJobs with
  | error e => exact hi.elim
  | ok allJobs =>
    rcases issues_bind.mp hi with hi | ⟨counted, w', hcount, hi⟩
    · exact (calls_updateCounters_fresh hfresh _).issues hi
    cases counted with
    | error e => exact hi.elim
    | ok obj =>
      dsimp only at hi
      split at hi
      · exact hi.elim
      · refine (calls_reconcilePipeline_fresh fun job hjob => hlast job ?_).issues hi
        obtain ⟨current, legacy, hcurrent, hlegacy, rfl⟩ := hlisted _ rfl
        exact ⟨current, legacy, hcurrent, hlegacy, hjob.symm⟩

/-- A call for a parent of the kind that meets no failed Job, or something else
that lets fresh reports be fresh. -/
inductive CleanStep (env : Externals) (p : ParentKind) (s t : World) : Prop
  | call (opts : Opts p) (r : Result p)
      (stored : s.cluster.find (.parent p) opts.parentObject.key = some opts.parentObject)
      (last : NotFailed env opts s) (exec : Exec (faulty env) (reconcileConfigure env opts) s r t)
  | others (fresh : AllFresh p s → AllFresh p t)

theorem allFresh_of_steps (hs : AllFresh p s)
    (hrun : Relation.ReflTransGen (CleanStep env p) s t) : AllFresh p t := by
  induction hrun with
  | refl => exact hs
  | tail _ hstep ih =>
    cases hstep with
    | call opts r stored last exec => exact exec_reconcileConfigure_fresh ih stored last exec
    | others fresh => exact fresh ih

/-- When a Job is created, the stored parent reports progress exactly if it did
so when the call began. It does so in all runs without a failed Job. -/
theorem progress_reported_iff :
    (∀ (opts : Opts p) (s : World) (job : Job) (u : World) (obj : Parent p),
      opts.skipConditions = false →
      s.cluster.find (.parent p) opts.parentObject.key = some opts.parentObject →
      CreatesJob env (reconcileConfigure env opts) s job u →
      u.cluster.find (.parent p) opts.parentObject.key = some obj →
      (obj.status.ReportsProgress ↔ opts.parentObject.status.ReportsProgress)) ∧
    ∀ (s₀ s : World), AllFresh p s₀ → Relation.ReflTransGen (CleanStep env p) s₀ s →
      ∀ (opts : Opts p) (job : Job) (u : World) (obj : Parent p), opts.skipConditions = false →
        s.cluster.find (.parent p) opts.parentObject.key = some opts.parentObject →
        CreatesJob env (reconcileConfigure env opts) s job u →
        u.cluster.find (.parent p) opts.parentObject.key = some obj →
        obj.status.ReportsProgress := by
  have hiff (opts : Opts p) (s : World) (job : Job) (u : World) (obj : Parent p)
      (hskip : opts.skipConditions = false)
      (hstored : s.cluster.find (.parent p) opts.parentObject.key = some opts.parentObject)
      (hcreate : CreatesJob env (reconcileConfigure env opts) s job u)
      (hobj : u.cluster.find (.parent p) opts.parentObject.key = some obj) :
      obj.status.ReportsProgress ↔ opts.parentObject.status.ReportsProgress :=
    reportsProgress_congr ((createsJob_reconcileConfigure hskip hstored hcreate).2 obj hobj)
  refine ⟨hiff, ?_⟩
  intro s₀ s hs₀ hrun opts job u obj hskip hstored hcreate hobj
  have hfresh := allFresh_of_steps hs₀ hrun _ (s.cluster.find_eq_some.mp hstored).1
  have hfound := createsJob_reconcileConfigure hskip hstored hcreate
  exact (hiff opts s job u obj hskip hstored hcreate hobj).mpr (hfresh hfound.1)

/-! ### A first run -/

/-- One pipeline, for the Promise as it is now. -/
def againOpts (obj : Promise) : Opts .promise :=
  { failedOpts [] with
    parentObject := obj
    resources := [{ failedResources "install" with
      job := { failedJob "install" with
        metadata := { (failedJob "install").metadata with name := "install-again" }
        status := {} } }] }

def newPromise : Promise := { samplePromise [] with status := {} }

theorem fresh_default : Fresh {} := by
  intro h
  cases h

theorem notFailed_of_none (h : s.cluster.objects .job = []) : NotFailed env opts s := by
  rintro job ⟨current, legacy, ⟨sel, -, hcurrent⟩, ⟨sel', -, hlegacy⟩, hlast⟩
  have hnone (sel : Selector) : s.cluster.listed .job opts.jobNamespace sel = [] := by
    rw [Cluster.listed, h]
    rfl
  rw [hcurrent, hlegacy, hnone, hnone] at hlast
  cases hlast

/-- The creation of a Job while the stored Promise satisfies `P`. -/
def createsJobWhile (P : Promise → Bool) : Call → World → Bool
  | .api (.create .job _), u =>
    (u.cluster.find (.parent .promise) (samplePromise []).key).any P
  | _, _ => false

theorem exists_of_createsJobWhile {P : Promise → Bool} {c : Call}
    (h : createsJobWhile P c u = true) : ∃ job obj, c = .api (.create .job job) ∧
      u.cluster.find (.parent .promise) (samplePromise []).key = some obj ∧ P obj = true := by
  cases c with
  | api call =>
    cases call with
    | create k o =>
      cases k with
      | job =>
        obtain ⟨obj, hfind, hP⟩ := (Option.any_eq_true _ _).mp h
        exact ⟨o, obj, rfl, hfind, hP⟩
      | _ => cases h
    | _ => cases h
  | _ => cases h

/-- The first call reports progress, the second creates the Job. -/
theorem progress_reported_iff_sample : ∃ (s t v : World) (r : Result .promise)
    (obj stored : Promise) (job : Job),
      Exec (faulty plainExternals) (reconcileConfigure plainExternals (againOpts newPromise))
        s r t ∧
      CreatesJob plainExternals (reconcileConfigure plainExternals (againOpts obj)) t job v ∧
      v.cluster.find (.parent .promise) (samplePromise []).key = some stored ∧
      stored.status.ReportsProgress := by
  have heval : (eval (serveCall plainExternals) (createObject (.parent .promise) newPromise)
      emptyWorld).any (fun out =>
        decide (out.2.cluster.find (.parent .promise) (againOpts newPromise).parentObject.key =
          some (againOpts newPromise).parentObject) &&
        (out.2.cluster.objects .job).isEmpty &&
        (eval (serveCall plainExternals) (reconcileConfigure plainExternals (againOpts newPromise))
          out.2).any fun reported =>
            (reported.2.cluster.find (.parent .promise) (samplePromise []).key).any fun obj =>
              decide (obj.key = (samplePromise []).key) && comesTo (serveCall plainExternals)
                (createsJobWhile fun _ => true)
                (reconcileConfigure plainExternals (againOpts obj)) reported.2) =
      true := by
    decide +kernel
  -- from here on the externals are not to be evaluated
  obtain ⟨env, henv⟩ : ∃ env, plainExternals = env := ⟨_, rfl⟩
  rw [henv] at heval ⊢
  have hserve : ∀ c s r t, serveCall env c s = some (r, t) → faulty env c s r t :=
    faulty_of_serveCall
  obtain ⟨a, s, hcreate, heval⟩ := exists_exec_of_eval hserve heval
  obtain ⟨hchecks, heval⟩ := Bool.and_eq_true_iff.mp heval
  obtain ⟨hstored, hnone⟩ := Bool.and_eq_true_iff.mp hchecks
  obtain ⟨r, t, hcall, heval⟩ := exists_exec_of_eval hserve heval
  obtain ⟨obj, hobj, heval⟩ := (Option.any_eq_true _ _).mp heval
  obtain ⟨hkey, heval⟩ := Bool.and_eq_true_iff.mp heval
  obtain ⟨c, v, hi, hc⟩ := exists_issues_of_comesTo hserve heval
  obtain ⟨job, stored, rfl, hfind, -⟩ := exists_of_createsJobWhile hc
  have hkey := of_decide_eq_true hkey
  have hempty : AllFresh .promise emptyWorld := fun x hx => absurd hx List.not_mem_nil
  have hcalls : (createObject (.parent .promise) newPromise).Calls (ReportsFresh .promise) :=
    calls_perform.mpr fun _ => fresh_default
  have hfresh : AllFresh .promise s := hempty.exec hcalls hcreate
  have hstep : CleanStep env .promise s t := .call (againOpts newPromise) r
    (of_decide_eq_true hstored) (notFailed_of_none (List.isEmpty_iff.mp hnone)) hcall
  refine ⟨s, t, v, r, obj, stored, job, hcall, hi, hfind, ?_⟩
  exact progress_reported_iff.2 s t hfresh (.single hstep) (againOpts obj) job v stored rfl
    (hkey ▸ hobj) hi (hkey ▸ hfind)

/-! ### A restart after a failure -/

/-- The Promise as stored, with the label that asks for a new run. -/
def relabelled (s : World) : Option Promise :=
  (s.cluster.find (.parent .promise) (samplePromise []).key).map fun obj =>
    withLabels obj (obj.metadata.labels.insert Label.manualReconciliation "true")

def reportsOther (obj : Promise) : Bool :=
  (obj.status.getCondition ConditionType.configureWorkflowCompleted).any
    fun c => c.reason != "PipelinesInProgress"

theorem not_reportsProgress_of_reportsOther {obj : Promise} (h : reportsOther obj = true) :
    ¬ obj.status.ReportsProgress := by
  rintro ⟨⟨c, hfind, -, hreason⟩, -⟩
  rw [reportsOther, hfind] at h
  simp [hreason] at h

/-- The failure of the only pipeline is reported, the label is set, and the Job
of the new run is created while the Promise still reports the failure. -/
theorem restart_reports_failure : ∃ (s t u v : World) (r : Result .promise)
    (obj obj' stored : Promise) (job : Job),
      Exec (faulty plainExternals) (reconcileConfigure plainExternals (failedOpts ["install"]))
        s r t ∧ relabelled t = some obj ∧
      Exec (faulty plainExternals) (updateObject (.parent .promise) obj) t (.ok obj') u ∧
      (againOpts obj').skipConditions = false ∧
      CreatesJob plainExternals (reconcileConfigure plainExternals (againOpts obj')) u job v ∧
      v.cluster.find (.parent .promise) (samplePromise []).key = some stored ∧
      ¬ stored.status.ReportsProgress := by
  have heval : (eval (serveCall plainExternals) (storeFailure "install") emptyWorld).any (fun out =>
      (eval (serveCall plainExternals) (reconcileConfigure plainExternals (failedOpts ["install"]))
        out.2).any fun failed => (relabelled failed.2).any fun obj =>
          (eval (serveCall plainExternals) (updateObject (.parent .promise) obj) failed.2).any
            fun labelled => labelled.1.toOption.any fun obj' => comesTo (serveCall plainExternals)
              (createsJobWhile reportsOther)
              (reconcileConfigure plainExternals (againOpts obj')) labelled.2) =
      true := by
    decide +kernel
  -- from here on the externals are not to be evaluated
  obtain ⟨env, henv⟩ : ∃ env, plainExternals = env := ⟨_, rfl⟩
  rw [henv] at heval ⊢
  have hserve : ∀ c s r t, serveCall env c s = some (r, t) → faulty env c s r t :=
    faulty_of_serveCall
  obtain ⟨_, s, -, heval⟩ := exists_exec_of_eval hserve heval
  obtain ⟨r, t, hfailed, heval⟩ := exists_exec_of_eval hserve heval
  obtain ⟨obj, hobj, heval⟩ := (Option.any_eq_true _ _).mp heval
  obtain ⟨a, u, hupdate, heval⟩ := exists_exec_of_eval hserve heval
  obtain ⟨obj', ha, heval⟩ := (Option.any_eq_true _ _).mp heval
  obtain ⟨c, v, hi, hunreported⟩ := exists_issues_of_comesTo hserve heval
  obtain ⟨job, stored, rfl, hfind, hother⟩ := exists_of_createsJobWhile hunreported
  have hnot := not_reportsProgress_of_reportsOther hother
  cases a with
  | error e => cases ha
  | ok o =>
    obtain rfl : o = obj' := Option.some.inj ha
    have hskip : (againOpts o).skipConditions = false := rfl
    exact ⟨s, t, u, v, r, obj, o, stored, job, hfailed, hobj, hupdate, hskip, hi, hfind, hnot⟩

end Kratix.Workflow
