import Kratix.Workflow.Outcome

/-!
# At most one configure Job of a parent runs

A call inspects the most recent Job only. That is enough as long as it is the
most recent one of the parent: then every older Job has stopped, since a Job is
created only after the one before it has. Labels of a pipeline that replace the
labels by which Kratix finds its Jobs break this.
-/

namespace Kratix.Workflow

open Apiserver Effect

variable {env : Externals} {p : ParentKind} {id : Identity p} {x : Trigger id} {s t : World}

/-- Every Job of the parent can be found, and has stopped if there is a newer one. -/
structure Quiet (id : Identity p) (s : World) : Prop where
  findable : AllFindable id s
  older : ∀ j ∈ s.cluster.objects .job, Owned id j → ∀ j' ∈ s.cluster.objects .job, Owned id j' →
    j.created < j'.created → isRunning j = false

theorem Findable.evolves {j j' : Job} (h : Findable id j) (he : Evolves j j') : Findable id j' where
  ns := he.ns.trans h.ns
  selected := by rw [he.labels]; exact h.selected

theorem AllFindable.carried {doomed : Job → Prop} (h : AllFindable id s)
    (hc : Carried id doomed s t) : AllFindable id t := by
  intro j' hj' ho'
  obtain ⟨j, hj, he⟩ := hc.descends j' hj' ho'
  exact (h j hj (he.owned.mp ho')).evolves he

theorem Quiet.carried {doomed : Job → Prop} (h : Quiet id s) (hc : Carried id doomed s t) :
    Quiet id t where
  findable := h.findable.carried hc
  older := by
    intro i' hi' hoi' j' hj' hoj' hlt
    obtain ⟨i, hi, hei⟩ := hc.descends i' hi' hoi'
    obtain ⟨j, hj, hej⟩ := hc.descends j' hj' hoj'
    rw [hei.created, hej.created] at hlt
    exact hei.stopped (h.older i hi (hei.owned.mp hoi') j hj (hej.owned.mp hoj') hlt)

theorem Quiet.stopped {last : Option Job} (h : Quiet id s) (hown : OnlyOwn env id s)
    (hnew : Newest env id s last) (hfree : ∀ j ∈ last, isRunning j = false) {j : Job}
    (hj : j ∈ s.cluster.objects .job) (ho : Owned id j) : isRunning j = false := by
  obtain ⟨job, rfl, hle⟩ := hnew.ge h.findable hj ho
  rcases hle.lt_or_eq with hlt | heq
  · exact h.older j hj ho job hnew.mem (hnew.owned hown) hlt
  · rw [s.cluster.eq_of_created hj hnew.mem heq]
    exact hfree job rfl

theorem AllFindable.added {q : Pipeline} {job : Job} (h : AllFindable id s)
    (hm : Makes env x q job)
    (hkeys : (x.factory q).KeepsLabels (x.hash env) PipelineFactory.selectingKeys)
    (ha : Added job s t) : AllFindable id t := by
  intro j hj ho
  rcases ha with he | ⟨time, -, -, hns, he⟩ <;> rw [he] at hj
  · exact h j hj ho
  · rcases List.mem_append.mp hj with hj | hj
    · exact h j hj ho
    · cases List.mem_singleton.mp hj
      exact ⟨hm.ns hns, hm.selected hkeys⟩

theorem Quiet.added {q : Pipeline} {job : Job} (h : Quiet id s) (hm : Makes env x q job)
    (hkeys : (x.factory q).KeepsLabels (x.hash env) PipelineFactory.selectingKeys)
    (hstop : ∀ j ∈ s.cluster.objects .job, Owned id j → isRunning j = false)
    (ha : Added job s t) : Quiet id t where
  findable := h.findable.added hm hkeys ha
  older := by
    intro i hi hoi j hj hoj hlt
    rcases ha with he | ⟨time, htime, -, -, he⟩ <;> rw [he] at hi hj
    · exact h.older i hi hoi j hj hoj hlt
    · rcases List.mem_append.mp hi with hi | hi
      · exact hstop i hi hoi
      · -- the new Job is the newest
        cases List.mem_singleton.mp hi
        exfalso
        have hjt : j.created ≤ time := by
          rcases List.mem_append.mp hj with hj | hj
          · exact ((s.cluster.created_lt .job j hj).trans_le htime).le
          · cases List.mem_singleton.mp hj
            exact le_rfl
        exact absurd hlt (by simpa [Object.created, Object.stampedAt] using hjt)

/-- The pipelines of the call leave the selecting labels alone, and the Jobs
that carry them belong to the parent. -/
def SelectsOwn (env : Externals) (s : RunState id) (x : Trigger id) : Prop :=
  (∀ q ∈ x.pipelines, (x.factory q).KeepsLabels (x.hash env) PipelineFactory.selectingKeys) ∧
    OnlyOwn env id s.world

theorem Quiet.step {s t : RunState id} (h : Quiet id s.world)
    (hst : Step env id (SelectsOwn env) s t) : Quiet id t.world := by
  cases hst with
  | environment hu => exact h.carried hu.carried
  | call x r hok hcall =>
    obtain ⟨hkeys, hown⟩ := hok
    cases hcall.outcome with
    | carries jobs old unfinished => exact h.carried jobs
    | completes job q resources newest last isFor finished manual prepared jobs =>
      exact h.carried jobs.carried
    | creates last i q job resources newest pipeline makes free due unfinished prepared jobs =>
      exact h.added makes (hkeys q (List.mem_of_getElem? pipeline))
        (fun j hj ho => h.stopped hown newest free hj ho) jobs

theorem quiet_of_reachable {s : RunState id} (hs : Reachable env id (SelectsOwn env) s) :
    Quiet id s.world := by
  refine hs.induction ?_ fun _ _ => Quiet.step
  rintro s ⟨-, hnone⟩
  exact ⟨fun j hj ho => absurd ho (hnone j hj), fun j hj ho => absurd ho (hnone j hj)⟩

/-- The Job has active pods, or it may start some. -/
def MayRun (j : Job) : Prop :=
  0 < j.status.active ∨ j.spec.suspend = false ∧
    ∀ c ∈ j.status.conditions, c.1 ≠ .complete ∧ c.1 ≠ .failed ∧ c.1 ≠ .suspended

instance (j : Job) : Decidable (MayRun j) := inferInstanceAs (Decidable (_ ∨ _ ∧ ∀ c ∈ _, _))

theorem MayRun.isRunning {j : Job} (h : MayRun j) : isRunning j = true := by
  rcases h with h | ⟨-, h⟩
  · simp [Workflow.isRunning, h]
  · have : (j.status.conditions.any fun c =>
        c.1 == .complete || c.1 == .suspended || c.1 == .failed) = false := by
      simp only [List.any_eq_false, Bool.or_eq_true, beq_iff_eq, not_or]
      exact fun c hc => ⟨⟨(h c hc).1, (h c hc).2.2⟩, (h c hc).2.1⟩
    simp [Workflow.isRunning, this]

/-- In every run whose calls select the parent's own Jobs, at most one Job runs. -/
theorem at_most_one_job_runs {s : RunState id} (hs : Reachable env id (SelectsOwn env) s)
    {j j' : Job} (hj : j ∈ s.world.cluster.objects .job) (hj' : j' ∈ s.world.cluster.objects .job)
    (ho : Owned id j) (ho' : Owned id j') (hrun : MayRun j) (hrun' : MayRun j') : j = j' := by
  have hquiet := quiet_of_reachable hs
  have hnot : ∀ {a b : Job}, a ∈ s.world.cluster.objects .job → b ∈ s.world.cluster.objects .job →
      Owned id a → Owned id b → MayRun a → ¬ a.created < b.created := by
    intro a b ha hb hoa hob hra hlt
    have := hquiet.older a ha hoa b hb hob hlt
    rw [hra.isRunning] at this
    cases this
  refine s.world.cluster.eq_of_created hj hj' (le_antisymm ?_ ?_)
  · exact not_lt.mp (hnot hj' hj ho' ho hrun')
  · exact not_lt.mp (hnot hj hj' ho ho' hrun)

theorem onlyOwn_of_forall (h : ∀ j ∈ s.cluster.objects .job, Owned id j) : OnlyOwn env id s := by
  rintro labels - jobs ⟨sel, -, rfl⟩ j hj
  exact h j (Cluster.mem_listed.mp hj).1

theorem keepsLabels_of_empty {q : Pipeline} {keys : List String} (h : q.labels = ∅) :
    (x.factory q).KeepsLabels (x.hash env) keys := by
  intro key _ v hv
  rw [x.factory_pipeline, h, AList.lookup_empty] at hv
  cases hv

def plainPipeline (name : String) : Pipeline := { name }

/-- The Job that the first call creates for a Promise with one pipeline. -/
theorem at_most_one_job_runs_sample :
    ∃ s : RunState sampleIdentity, Reachable plainExternals sampleIdentity
      (SelectsOwn plainExternals) s ∧ ∃ j ∈ s.world.cluster.objects .job, Owned sampleIdentity j ∧
        MayRun j ∧ ∀ j' ∈ s.world.cluster.objects .job, Owned sampleIdentity j' → MayRun j' →
          j = j' := by
  have heval : (evalRun plainExternals
      (fun s x => decide ((∀ q ∈ x.pipelines, q.labels = ∅) ∧
        ∀ j ∈ s.world.cluster.objects .job, Owned sampleIdentity j))
      [.call (sampleTrigger [plainPipeline "install"] (by decide))]
      (sampleStart [plainPipeline "install"])).any (fun s => decide
        (∃ j ∈ s.world.cluster.objects .job, Owned sampleIdentity j ∧ MayRun j)) = true := by
    decide +kernel
  have hok : ∀ (s : RunState sampleIdentity) x, decide ((∀ q ∈ x.pipelines, q.labels = ∅) ∧
      ∀ j ∈ s.world.cluster.objects .job, Owned sampleIdentity j) = true →
        SelectsOwn plainExternals s x := by
    intro s x hc
    obtain ⟨hl, ho⟩ := of_decide_eq_true hc
    exact ⟨fun q hq => keepsLabels_of_empty (hl q hq), onlyOwn_of_forall ho⟩
  obtain ⟨s, hs, hP⟩ := exists_reachable_of_evalRun hok (initial_sampleStart _) heval
  obtain ⟨j, hj, ho, hr⟩ := of_decide_eq_true hP
  exact ⟨s, hs, j, hj, ho, hr, fun j' hj' ho' hr' => at_most_one_job_runs hs hj hj' ho ho' hr hr'⟩

/-- A pipeline whose own label hides its Jobs from the list calls. -/
def hiddenPipeline : Pipeline :=
  { name := "install", labels := Labels.ofList [(Label.workflowType, "custom")] }

def hiddenTrigger : Trigger sampleIdentity := sampleTrigger [hiddenPipeline] (by decide)

/-- Two calls start two Jobs of the hidden pipeline. -/
theorem two_jobs_run :
    ∃ s : RunState sampleIdentity,
      Reachable plainExternals sampleIdentity (fun s _ => NoOthers sampleIdentity s) s ∧
      ∃ j ∈ s.world.cluster.objects .job, ∃ j' ∈ s.world.cluster.objects .job,
        Owned sampleIdentity j ∧ Owned sampleIdentity j' ∧ MayRun j ∧ MayRun j' ∧ j ≠ j' := by
  have heval : (evalRun plainExternals (fun s _ => decide (NoOthers sampleIdentity s))
      [.call hiddenTrigger, .call hiddenTrigger] (sampleStart [hiddenPipeline])).any (fun s => decide
        (∃ j ∈ s.world.cluster.objects .job, ∃ j' ∈ s.world.cluster.objects .job,
          Owned sampleIdentity j ∧ Owned sampleIdentity j' ∧ MayRun j ∧ MayRun j' ∧ j ≠ j')) =
      true := by
    decide +kernel
  have hok : ∀ (s : RunState sampleIdentity) (_ : Trigger sampleIdentity),
      decide (NoOthers sampleIdentity s) = true → NoOthers sampleIdentity s :=
    fun _ _ => of_decide_eq_true
  obtain ⟨s, hs, hP⟩ := exists_reachable_of_evalRun hok (initial_sampleStart _) heval
  exact ⟨s, hs, of_decide_eq_true hP⟩

end Kratix.Workflow
