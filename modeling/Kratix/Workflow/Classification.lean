import Kratix.Workflow.Order
import Kratix.Workflow.Quiescence

/-!
# What the conditions of a Job say

A condition has a type and a status; only one with status True says that the
Job has completed, failed or is suspended. A Job that was resumed keeps a
Suspended condition with status False. The workflow looks at the types alone.
-/

namespace Kratix.Workflow

open Apiserver Effect

variable {p : ParentKind} {job job' : Job}

/-! ### Conditions with their status -/

/-- A condition of one of the types is present, whatever its status. -/
def Mentions (job : Job) (types : List JobConditionType) : Prop :=
  ∃ c ∈ job.status.conditions, c.1 ∈ types

/-- A condition of one of the types is present and is True. -/
def Asserts (job : Job) (types : List JobConditionType) : Prop :=
  ∃ c ∈ job.status.conditions, c.1 ∈ types ∧ c.2 = .conditionTrue

instance (types : List JobConditionType) : Decidable (Asserts job types) :=
  inferInstanceAs (Decidable (∃ c ∈ _, _))

theorem Asserts.mentions {types : List JobConditionType} (h : Asserts job types) :
    Mentions job types := by
  obtain ⟨c, hc, htype, -⟩ := h
  exact ⟨c, hc, htype⟩

def failureTypes : List JobConditionType := [.failed, .suspended]

def terminalTypes : List JobConditionType := [.complete, .failed, .suspended]

/-- The workflow reads the Job's state off the conditions that are True. -/
structure Classified (job : Job) : Prop where
  running : isRunning job = true ↔ 0 < job.status.active ∨ ¬ Asserts job terminalTypes
  failed : isFailed job = true ↔ Asserts job failureTypes

/-- A Job that mentions a failure or a suspension asserts one of them, and one
without active pods that mentions an end asserts one. -/
structure Unambiguous (job : Job) : Prop where
  failed : Mentions job failureTypes → Asserts job failureTypes
  stopped : job.status.active = 0 → Mentions job terminalTypes → Asserts job terminalTypes

/-! ### What the workflow looks at -/

theorem isFailed_iff : isFailed job = true ↔ Mentions job failureTypes := by
  simp [isFailed, Mentions, failureTypes]

theorem isRunning_iff :
    isRunning job = true ↔ 0 < job.status.active ∨ ¬ Mentions job terminalTypes := by
  have hany : (job.status.conditions.any fun c =>
      c.1 == .complete || c.1 == .suspended || c.1 == .failed) = true ↔
        Mentions job terminalTypes := by
    simp only [Mentions, terminalTypes, List.any_eq_true, Bool.or_eq_true, beq_iff_eq,
      List.mem_cons, List.not_mem_nil, or_false]
    grind
  rw [isRunning, Bool.or_eq_true, decide_eq_true_iff, Bool.not_eq_true', ← Bool.not_eq_true, hany]

theorem classified_iff : Classified job ↔ Unambiguous job := by
  constructor
  · intro h
    refine ⟨fun hmentions => h.failed.mp (isFailed_iff.mpr hmentions), fun hactive hmentions => ?_⟩
    by_contra hnot
    -- the claimed reading takes the Job for a running one, the workflow does not
    rcases isRunning_iff.mp (h.running.mpr (Or.inr hnot)) with hpos | hnone
    · omega
    · exact hnone hmentions
  · intro h
    refine ⟨?_, isFailed_iff.trans ⟨h.failed, Asserts.mentions⟩⟩
    rw [isRunning_iff]
    constructor
    · rintro (hpos | hnone)
      · exact Or.inl hpos
      · exact Or.inr fun hasserts => hnone hasserts.mentions
    · rintro (hpos | hnone)
      · exact Or.inl hpos
      · rcases Nat.eq_zero_or_pos job.status.active with hactive | hpos
        · exact Or.inr fun hmentions => hnone (h.stopped hactive hmentions)
        · exact Or.inl hpos

/-! ### What follows for a reconcile -/

/-- Two histories have left a Job with pods, or without, and with the same
conditions that are True. -/
structure SameOutcome (job job' : Job) : Prop where
  metadata : job'.metadata = job.metadata
  active : 0 < job'.status.active ↔ 0 < job.status.active
  asserts : ∀ types, Asserts job' types ↔ Asserts job types

theorem SameOutcome.isRunning_eq (h : SameOutcome job job') (hjob : Classified job)
    (hjob' : Classified job') : isRunning job' = isRunning job := by
  rw [Bool.eq_iff_iff, hjob.running, hjob'.running, h.active, h.asserts]

theorem SameOutcome.isFailed_eq (h : SameOutcome job job') (hjob : Classified job)
    (hjob' : Classified job') : isFailed job' = isFailed job := by
  rw [Bool.eq_iff_iff, hjob.failed, hjob'.failed, h.asserts]

/-- The state of the Job and the labels decide about the next pipeline. -/
theorem nextIndexFrom_congr (hm : job'.metadata = job.metadata)
    (hrun : isRunning job' = isRunning job) (hfailed : isFailed job' = isFailed job)
    (l : List PipelineJobResources) : nextIndexFrom job' l = nextIndexFrom job l := by
  induction l with
  | nil => rfl
  | cons pipeline rest ih =>
    have hfor : jobIsForPipeline pipeline job' = jobIsForPipeline pipeline job := by
      rw [jobIsForPipeline, jobIsForPipeline, hm]
    rw [nextIndexFrom, nextIndexFrom, hfor, hrun, hfailed, ih]

theorem reconcilePipeline_congr (hm : job'.metadata = job.metadata)
    (hrun : isRunning job' = isRunning job) (hfailed : isFailed job' = isFailed job)
    (env : Externals) (opts : Opts p) (i : ℕ) (pipeline : PipelineJobResources) :
    reconcilePipeline env opts i pipeline (some job') =
      reconcilePipeline env opts i pipeline (some job) := by
  have hfor : jobIsForPipeline pipeline job' = jobIsForPipeline pipeline job := by
    rw [jobIsForPipeline, jobIsForPipeline, hm]
  have hsuspend : suspendJob job' = suspendJob job := by
    rw [suspendJob, suspendJob, hm]
  simp only [reconcilePipeline, reconcileCurrentPipeline, hfor, hrun, hfailed, hsuspend]

/-- What `reconcileConfigure` does when it has listed the Jobs, or has failed to. -/
def proceed (env : Externals) (opts : Opts p) : Except Failure (List Job) → Prog (Result p)
  | .error e => return ⟨false, some e, opts.parentObject⟩
  | .ok allJobs => do
    let mostRecentJob := (newestFirst allJobs).head?
    let pipelineIndex := (mostRecentJob.map (nextPipelineIndex opts)).getD 0
    match ← updateCounters opts.parentObject pipelineIndex with
    | .error e => return ⟨false, some e, opts.parentObject⟩
    | .ok obj =>
      let pipelineIndex := min pipelineIndex (opts.resources.length - 1)
      match opts.resources[pipelineIndex]? with
      | none => return ⟨false, none, obj⟩
      | some pipeline =>
        reconcilePipeline env (opts.withParent obj) pipelineIndex pipeline mostRecentJob

theorem reconcileConfigure_eq (env : Externals) (opts : Opts p) :
    reconcileConfigure env opts = getAllJobs env opts >>= proceed env opts := by
  unfold reconcileConfigure
  congr 1

theorem newestFirst_map {f : Job → Job} {jobs : List Job}
    (hf : ∀ job ∈ jobs, (f job).metadata = job.metadata) :
    newestFirst (jobs.map f) = (newestFirst jobs).map f := by
  refine (List.map_insertionSort _ _ f jobs fun a ha b hb => ?_).symm
  rw [Object.created, Object.created, Object.created, Object.created, hf a ha, hf b hb]

theorem proceed_map (env : Externals) (opts : Opts p) {f : Job → Job} {jobs : List Job}
    (hf : ∀ job ∈ jobs, (f job).metadata = job.metadata ∧
      isRunning (f job) = isRunning job ∧ isFailed (f job) = isFailed job) :
    proceed env opts (.ok (jobs.map f)) = proceed env opts (.ok jobs) := by
  unfold proceed
  simp only
  rw [newestFirst_map fun job hjob => (hf job hjob).1, List.head?_map]
  cases hlast : (newestFirst jobs).head? with
  | none => rfl
  | some job =>
    have hmem : job ∈ jobs := (List.mem_insertionSort _).mp (List.mem_of_mem_head? hlast)
    obtain ⟨hm, hrun, hfailed⟩ := hf job hmem
    have hindex : nextPipelineIndex opts (f job) = nextPipelineIndex opts job := by
      rw [nextPipelineIndex, nextPipelineIndex, nextIndexFrom_congr hm hrun hfailed]
    simp only [Option.map_some, Option.getD_some, hindex,
      reconcilePipeline_congr hm hrun hfailed]

/-- The Job ends with these conditions. -/
def endedWith (conditions : List (JobConditionType × ConditionStatus)) (j : Job) : Job :=
  { j with status := { succeeded := 1, conditions } }

/-- The workflow reads the state of a Job off the conditions that are True
exactly when these leave nothing open. Then it proceeds by them alone: whatever
has happened to the Jobs before, the rest of the reconcile is the same. -/
theorem classified_iff_unambiguous (env : Externals) (opts : Opts p) (job : Job) :
    (Classified job ↔ Unambiguous job) ∧
    reconcileConfigure env opts = getAllJobs env opts >>= proceed env opts ∧
    ∀ (jobs : List Job) (f : Job → Job), (∀ job ∈ jobs, SameOutcome job (f job) ∧
      Unambiguous job ∧ Unambiguous (f job)) →
      proceed env opts (.ok (jobs.map f)) = proceed env opts (.ok jobs) := by
  refine ⟨classified_iff, reconcileConfigure_eq env opts, ?_⟩
  intro jobs f hf
  refine proceed_map env opts fun job hjob => ?_
  obtain ⟨hsame, hjob, hjob'⟩ := hf job hjob
  have hjob := classified_iff.mpr hjob
  have hjob' := classified_iff.mpr hjob'
  exact ⟨hsame.metadata, hsame.isRunning_eq hjob hjob', hsame.isFailed_eq hjob hjob'⟩

/-- A Job that was suspended, resumed and has failed is treated like one that has just failed. -/
theorem classified_iff_unambiguous_sample :
    Classified (endedWith [(.suspended, .conditionFalse), (.failed, .conditionTrue)]
      (failedJob "install")) ∧
    proceed plainExternals (failedOpts ["install"]) (.ok ([failedJob "install"].map
        (endedWith [(.suspended, .conditionFalse), (.failed, .conditionTrue)]))) =
      proceed plainExternals (failedOpts ["install"]) (.ok [failedJob "install"]) := by
  have hresumed : Unambiguous (endedWith [(.suspended, .conditionFalse), (.failed, .conditionTrue)]
      (failedJob "install")) := ⟨fun _ => by decide, fun _ _ => by decide⟩
  have h := classified_iff_unambiguous plainExternals (failedOpts ["install"])
    (endedWith [(.suspended, .conditionFalse), (.failed, .conditionTrue)] (failedJob "install"))
  refine ⟨h.1.mpr hresumed, h.2.2 _ _ fun job hjob => ?_⟩
  cases List.mem_singleton.mp hjob
  refine ⟨⟨rfl, by decide, fun types => ?_⟩, ⟨fun _ => by decide, fun _ _ => by decide⟩, hresumed⟩
  simp [Asserts, endedWith, failedJob]

/-! ### A Job that was suspended and resumed -/

theorem keepsIdentity_endedWith (conditions : List (JobConditionType × ConditionStatus)) :
    KeepsIdentity fun j : Job => some (endedWith conditions j) := by
  intro j j' h
  cases h
  exact ⟨rfl, rfl, fun hv => hv⟩

def endJobs (conditions : List (JobConditionType × ConditionStatus)) (s : World) : World :=
  s.withCluster (s.cluster.rewrite .job (fun j => some (endedWith conditions j))
    (keepsIdentity_endedWith conditions))

def neverSuspended : List (JobConditionType × ConditionStatus) :=
  [(.complete, .conditionTrue)]

def resumed : List (JobConditionType × ConditionStatus) :=
  [(.suspended, .conditionFalse), (.complete, .conditionTrue)]

/-- The names of the pipelines whose Jobs were created since. -/
def startedPipelines (s t : World) : List String :=
  (newJobs s t).map fun j => j.spec.pipelineName

theorem sameOutcome_resumed (job : Job) :
    SameOutcome (endedWith neverSuspended job) (endedWith resumed job) where
  metadata := rfl
  active := Iff.rfl
  asserts := by simp [Asserts, endedWith, resumed, neverSuspended]

theorem not_classified_resumed (job : Job) : ¬ Classified (endedWith resumed job) := by
  intro h
  have hasserts := h.failed.mp rfl
  simp [Asserts, endedWith, resumed, failureTypes] at hasserts

/-- A resumed Job that has completed asserts no failure, but is taken for a failed
one: the workflow counts a failure where it would have started the second pipeline. -/
theorem resumed_job_taken_for_failed :
    (∀ job, SameOutcome (endedWith neverSuspended job) (endedWith resumed job) ∧
      ¬ Classified (endedWith resumed job)) ∧
    ∃ s : World,
      (∃ r t, CallStep plainExternals twoTrigger (endJobs neverSuspended s) r t ∧
        startedPipelines (endJobs neverSuspended s) t = ["apply"]) ∧
      ∃ r t, CallStep plainExternals twoTrigger (endJobs resumed s) r t ∧
        startedPipelines (endJobs resumed s) t = [] ∧
        r.parentObject.status.workflowsFailed = some 1 := by
  refine ⟨fun job => ⟨sameOutcome_resumed job, not_classified_resumed job⟩, ?_⟩
  -- the Job of the first pipeline has been created
  have heval : (eval (serveCall plainExternals) (twoTrigger.configure plainExternals)
      (sampleStart twoPipelines).world).any (fun out =>
        evalCall plainExternals twoTrigger (fun s _ t => startedPipelines s t == ["apply"])
          (endJobs neverSuspended out.2) &&
        evalCall plainExternals twoTrigger (fun s r t => decide (startedPipelines s t = [] ∧
            r.parentObject.status.workflowsFailed = some 1))
          (endJobs resumed out.2)) = true := by
    decide +kernel
  obtain ⟨_, s, -, hs⟩ := exists_exec_of_eval (h := faulty plainExternals) faulty_of_serveCall heval
  obtain ⟨hnever, hresumed⟩ := Bool.and_eq_true_iff.mp hs
  obtain ⟨hstored, r, t, he, hstarted⟩ := exists_call_of_evalCall hnever
  obtain ⟨hstored', r', t', he', hfailed⟩ := exists_call_of_evalCall hresumed
  exact ⟨s, ⟨r, t, ⟨hstored, he.mono faulty_of_faultFree⟩, beq_iff_eq.mp hstarted⟩,
    r', t', ⟨hstored', he'.mono faulty_of_faultFree⟩, of_decide_eq_true hfailed⟩

end Kratix.Workflow
