import Kratix.Workflow.Ownership

/-!
# The parent object during a workflow call

While its workflows are reconciled, a Promise or a resource request keeps its
finalizers and is neither deleted nor marked for deletion: the calls write its
status, and its labels together with the finalizers that were read before. So
what a controller has read about them still holds whenever a Job is created.
-/

namespace Kratix

open Apiserver Effect

variable {env : Externals} {p : ParentKind} {x : Parent p} {s t u v : World}

/-! ### Phases -/

/-- Two versions of a parent object at one point of its life. -/
structure SamePhase (x o : Parent p) : Prop where
  key : o.key = x.key
  finalizers : o.metadata.finalizers = x.metadata.finalizers
  deleting : o.metadata.deleting = x.metadata.deleting
  created : o.created = x.created

theorem SamePhase.refl (x : Parent p) : SamePhase x x := ⟨rfl, rfl, rfl, rfl⟩

theorem SamePhase.of_metadata {o o' : Parent p} (h : SamePhase x o)
    (hm : o'.metadata = o.metadata) : SamePhase x o' where
  key := by rw [← h.key, Object.key, hm]; rfl
  finalizers := by rw [← h.finalizers, hm]
  deleting := by rw [← h.deleting, hm]
  created := by rw [← h.created, Object.created, hm]; rfl

/-- The stored object is where it was when `x` was read. -/
def Held (x : Parent p) (s : World) : Prop :=
  ∃ o, s.cluster.find (.parent p) x.key = some o ∧ SamePhase x o

/-- A write does not make the object disappear. -/
def Enduring (x : Parent p) : Prop := x.metadata.deleting = true → x.metadata.finalizers ≠ []

/-- Writes that keep the finalizers of one parent object; Jobs are limited to `jobs`. -/
def holding (x : Parent p) (jobs : Job → Prop) : Policy where
  write := fun o =>
    (∀ y : Parent p, o = ⟨.parent p, y⟩ → y.key = x.key →
      y.metadata.finalizers = x.metadata.finalizers) ∧ ∀ j : Job, o = ⟨.job, j⟩ → jobs j
  status := fun _ => True
  patch := fun _ => True
  delete := fun k => k ≠ .parent p
  files := True

variable {jobs : Job → Prop}

theorem holding_write_parent {y : Parent p} (h : y.metadata.finalizers = x.metadata.finalizers) :
    (holding x jobs).write ⟨.parent p, y⟩ := by
  refine ⟨?_, ?_⟩
  · intro z hz _
    cases hz
    exact h
  · intro j hj
    cases hj

theorem holding_write_job {job : Job} (h : jobs job) : (holding x jobs).write ⟨.job, job⟩ := by
  refine ⟨?_, ?_⟩
  · intro y hy
    cases hy
  · intro j hj
    cases hj
    exact h

theorem holding_write_shared {o : AnyObject} (h : Workflow.isShared o.1 = true) :
    (holding x jobs).write o := by
  refine ⟨?_, ?_⟩
  · rintro y rfl
    cases h
  · rintro j rfl
    cases h

theorem holding_delete_shared {k : Kind} (h : Workflow.isShared k = true) :
    (holding x jobs).delete k := by
  rintro rfl
  cases h

theorem Held.step {c : Call} {r : c.Answer} (hx : Enduring x) (hu : Held x u)
    (hc : c.Obeys (holding x jobs)) (h : faulty env c u r v) : Held x v := by
  obtain ⟨o, hfind, hphase⟩ := hu
  rcases faulty_cluster h with hcl | ⟨call, rfl, hcl⟩
  · exact ⟨o, hcl ▸ hfind, hphase⟩
  obtain ⟨hmem, hkey⟩ := u.cluster.find_eq_some.mp hfind
  have hfate := serve_fate call hmem
  rw [← hcl] at hfate
  cases hfate with
  | kept found metadata => exact ⟨_, hkey ▸ found, hphase.of_metadata metadata⟩
  | @written y update key found finalizers =>
    subst update
    have hy : y.metadata.finalizers = x.metadata.finalizers := hc.1 y rfl (key.trans hkey)
    have hsettle : (o.accept y).settle = some (o.accept y) := by
      refine if_neg fun hgone => ?_
      obtain ⟨hdel, hempty⟩ := Bool.and_eq_true_iff.mp hgone
      refine hx (hphase.deleting ▸ hdel) ?_
      rw [← hy]
      exact List.isEmpty_iff.mp hempty
    exact ⟨o.accept y, hkey ▸ found.trans hsettle, hphase.key, hy, hphase.deleting, hphase.created⟩
  | deleted delete found =>
    subst delete
    exact absurd rfl hc

/-! ### Programs that hold the object -/

/-- Whatever happens, the program finds the object in its phase at every call, and
makes no call that changes it. -/
def Steadily {α : Type} (env : Externals) (jobs : Job → Prop) (x : Parent p) (prog : Prog α)
    (s : World) : Prop :=
  ∀ c u, Issues (faulty env) prog s c u → Held x u ∧ c.Obeys (holding x jobs)

section

variable {α β : Type} {prog : Prog α}

theorem Steadily.passes (hx : Enduring x) (hs : Held x s) (hp : Steadily env jobs x prog s)
    (ht : Passes (faulty env) prog s t) : Held x t := by
  refine Passes.invariant ?_ hs ht
  intro c u r v hi hc hu
  exact hu.step hx (hp c u hi).2 hc

theorem Steadily.exec {a : α} (hx : Enduring x) (hs : Held x s) (hp : Steadily env jobs x prog s)
    (he : Exec (faulty env) prog s a t) : Held x t := hp.passes hx hs he.passes

theorem steadily_pure (a : α) : Steadily env jobs x (pure a : Prog α) s :=
  fun _ _ hi => hi.elim

theorem steadily_of_obeys (hx : Enduring x) (hs : Held x s) (hp : Obeys (holding x jobs) prog) :
    Steadily env jobs x prog s := by
  intro c u hi
  refine ⟨Passes.invariant ?_ hs hi.passes, hp.issues hi⟩
  intro c' u' r v' hi' hc hu
  exact hu.step hx (hp.issues hi') hc

theorem steadily_bind {f : α → Prog β} (hx : Enduring x) (hs : Held x s)
    (hp : Steadily env jobs x prog s)
    (hf : ∀ a t, Exec (faulty env) prog s a t → Held x t → Steadily env jobs x (f a) t) :
    Steadily env jobs x (prog >>= f) s := by
  intro c u hi
  rcases issues_bind.mp hi with hi | ⟨a, t, he, hi⟩
  · exact hp c u hi
  · exact hf a t he (hp.exec hx hs he) c u hi

end

/-! ### The workflow reconciler -/

namespace Workflow

variable {opts : Opts p}

theorem exec_updateCounters_phase {obj obj' : Parent p} {i : ℕ} (hs : Held x s)
    (hobj : SamePhase x obj) (he : Exec (faulty env) (updateCounters obj i) s (.ok obj') t) :
    SamePhase x obj' := by
  unfold updateCounters at he
  split at he
  · obtain ⟨a, u, hupd, hrest⟩ := exec_bind.mp he
    cases a with
    | error e =>
      obtain ⟨h, -⟩ := hrest
      cases h
    | ok stored' =>
      obtain ⟨h, -⟩ := hrest
      cases h
      rcases exec_updateStatus hupd with ⟨-, hno⟩ | ⟨stored, c, hfind, -, -, hyes⟩
      · exact absurd rfl (hno _)
      · obtain ⟨o, ho, hphase⟩ := hs
        obtain rfl : o = stored :=
          Option.some.inj (ho.symm.trans ((congrArg _ hobj.key.symm).trans hfind))
        rw [hyes _ rfl]
        exact hphase.of_metadata rfl
  · obtain ⟨h, -⟩ := he
    cases h
    exact hobj

theorem obeys_holding_consumeManualReconciliation (ho : SamePhase x opts.parentObject) :
    Obeys (holding x jobs) (consumeManualReconciliation opts) :=
  obeys_consumeManualReconciliation fun _ => holding_write_parent ho.finalizers

theorem obeys_holding_applyResources {pipeline : PipelineJobResources} (hjob : jobs pipeline.job) :
    Obeys (holding x jobs) (applyResources (pipeline.getObjects ++ [⟨.job, pipeline.job⟩])) := by
  refine obeys_applyResources fun o ho => ?_
  rcases List.mem_append.mp ho with ho | ho
  · exact holding_write_shared (isShared_of_mem_getObjects ho)
  · obtain rfl := List.mem_singleton.mp ho
    exact holding_write_job hjob

theorem steadily_createConfigurePipeline {i : ℕ} {pipeline : PipelineJobResources}
    (hx : Enduring x) (hs : Held x s) (ho : SamePhase x opts.parentObject)
    (hjob : jobs pipeline.job) :
    Steadily env jobs x (createConfigurePipeline opts i pipeline) s := by
  refine steadily_bind hx hs (steadily_of_obeys hx hs
    (obeys_setConfigureWorkflowCompletedConditionStatus trivial _)) ?_
  intro updated t hset ht
  split
  · exact steadily_pure _
  · next hgo =>
    have hparent : updated.parentObject = opts.parentObject := by
      unfold setConfigureWorkflowCompletedConditionStatus at hset
      split at hset
      · exact congrArg Result.parentObject hset.1
      · split at hset
        · exact congrArg Result.parentObject hset.1
        · obtain ⟨now, u, -, hset⟩ := exec_bind.mp hset
          obtain ⟨a, v, -, hset⟩ := exec_bind.mp hset
          cases a <;> obtain ⟨rfl, -⟩ := hset <;> simp at hgo
    refine steadily_bind hx ht (steadily_of_obeys hx ht (obeys_getObjectsToDelete _)) ?_
    rintro (e | stale) u hstale hu
    · exact steadily_pure _
    have hman : SamePhase x (opts.withParent updated.parentObject).parentObject := by
      rw [hparent]
      exact ho
    refine steadily_bind hx hu
      (steadily_of_obeys hx hu (obeys_holding_consumeManualReconciliation hman)) ?_
    rintro (e | obj) v - hv
    · exact steadily_pure _
    have hdelete : ∀ o ∈ stale, (holding x jobs).delete o.1 := fun o hmem =>
      holding_delete_shared (exec_getObjectsToDelete hstale _ rfl o hmem)
    refine steadily_of_obeys hx hv ?_
    refine obeys_bind (obeys_deleteResources hdelete) fun _ => ?_
    exact obeys_bind (obeys_holding_applyResources hjob) fun _ => obeys_pure _

theorem steadily_reconcilePipeline {i : ℕ} {pipeline : PipelineJobResources} {last : Option Job}
    (hx : Enduring x) (hs : Held x s) (ho : SamePhase x opts.parentObject)
    (hjob : jobs pipeline.job) :
    Steadily env jobs x (reconcilePipeline env opts i pipeline last) s := by
  have hsuspend (job : Job) : Obeys (holding x jobs) (suspendJob job) := obeys_suspendJob trivial job
  have hcreate : Steadily env jobs x (createConfigurePipeline opts i pipeline) s :=
    steadily_createConfigurePipeline hx hs ho hjob
  cases last with
  | none => exact hcreate
  | some job =>
    change Steadily env jobs x (if jobIsForPipeline pipeline job then _ else _) s
    split
    · unfold reconcileCurrentPipeline
      split
      · split
        · refine steadily_of_obeys hx hs (obeys_bind (hsuspend job) ?_)
          rintro (e | _) <;> exact obeys_pure _
        · exact steadily_pure _
      · split
        · exact hcreate
        · split
          · exact steadily_of_obeys hx hs (obeys_markAsFailed trivial _ _)
          · have hclean : Obeys (holding x jobs) (cleanup env opts opts.jobNamespace) :=
              obeys_cleanup (by simp [holding]) (by simp [holding]) _
            exact steadily_of_obeys hx hs (obeys_bind hclean fun _ => obeys_pure _)
    · split
      · exact steadily_of_obeys hx hs (obeys_bind (hsuspend job) fun _ => obeys_pure _)
      · exact hcreate

theorem steadily_reconcileConfigure (hx : Enduring x) (hs : Held x s)
    (ho : SamePhase x opts.parentObject) (hjobs : ∀ res ∈ opts.resources, jobs res.job) :
    Steadily env jobs x (reconcileConfigure env opts) s := by
  refine steadily_bind hx hs (steadily_of_obeys hx hs obeys_getAllJobs) ?_
  rintro (e | allJobs) t - ht
  · exact steadily_pure _
  refine steadily_bind hx ht (steadily_of_obeys hx ht (obeys_updateCounters trivial _ _)) ?_
  rintro (e | obj) u hcount hu
  · exact steadily_pure _
  dsimp only
  split
  · exact steadily_pure _
  · next pipeline hget =>
    exact steadily_reconcilePipeline hx hu (exec_updateCounters_phase ht ho hcount)
      (hjobs pipeline (List.mem_of_getElem? hget))

theorem steadily_reconcileDelete (hx : Enduring x) (hs : Held x s)
    (ho : SamePhase x opts.parentObject) (hjobs : ∀ res ∈ opts.resources, jobs res.job) :
    Steadily env jobs x (reconcileDelete env opts) s := by
  unfold reconcileDelete
  split
  · exact steadily_pure _
  · next pipeline rest hres =>
    have hcreate : Obeys (holding x jobs) (createDeletePipeline opts pipeline) := by
      refine obeys_bind (obeys_holding_consumeManualReconciliation ho) ?_
      rintro (e | obj)
      · exact obeys_pure _
      · have hjob := hjobs pipeline (hres ▸ List.mem_cons_self)
        exact obeys_bind (obeys_holding_applyResources hjob) fun _ => obeys_pure _
    refine steadily_of_obeys hx hs (obeys_bind (obeys_getJobsWithLabels _ _) ?_)
    rintro (e | found)
    · exact obeys_pure _
    dsimp only
    split
    · exact hcreate
    · next job hhead =>
      split
      · split
        · refine obeys_bind (obeys_suspendJob trivial job) ?_
          rintro (e | _) <;> exact obeys_pure _
        · exact obeys_pure _
      · split
        · exact hcreate
        · split
          · exact obeys_pure _
          · split <;> exact obeys_pure _

/-- The delete workflow is done only if there is none, or the most recent Job of its
pipeline has succeeded. -/
theorem exec_reconcileDelete_done {r : Result p}
    (he : Exec (faulty env) (reconcileDelete env opts) s r t) (herr : r.err = none)
    (habort : r.abort = false) :
    t = s ∧ r.parentObject = opts.parentObject ∧
      (opts.resources = [] ∨ ∃ pipeline rest found job, opts.resources = pipeline :: rest ∧
        Selected env pipeline.job.metadata.labels opts.parentObject.metadata.ns s found ∧
        (newestFirst found).head? = some job ∧ 0 < job.status.succeeded) := by
  have hcreate {pipeline : PipelineJobResources}
      (he : Exec (faulty env) (createDeletePipeline opts pipeline) s r t) : False := by
    obtain ⟨a, u, -, hrest⟩ := exec_bind.mp he
    cases a with
    | error e =>
      obtain ⟨rfl, -⟩ := hrest
      cases herr
    | ok obj =>
      obtain ⟨_, v, -, hend⟩ := exec_bind.mp hrest
      obtain ⟨rfl, -⟩ := hend
      cases habort
  unfold reconcileDelete at he
  split at he
  · next hres =>
    obtain ⟨rfl, rfl⟩ := he
    exact ⟨rfl, rfl, Or.inl hres⟩
  · next pipeline rest hres =>
    obtain ⟨a, u, hlist, hrest⟩ := exec_bind.mp he
    obtain ⟨rfl, hselected⟩ := exec_getJobsWithLabels hlist
    cases a with
    | error e =>
      obtain ⟨rfl, -⟩ := hrest
      cases herr
    | ok found =>
      dsimp only at hrest
      split at hrest
      · exact (hcreate hrest).elim
      · next job hhead =>
        split at hrest
        · split at hrest
          · obtain ⟨b, w, -, hend⟩ := exec_bind.mp hrest
            cases b <;> obtain ⟨rfl, -⟩ := hend <;> cases habort
          · obtain ⟨rfl, -⟩ := hrest
            cases habort
        · split at hrest
          · exact (hcreate hrest).elim
          · split at hrest
            · next hsucceeded =>
              obtain ⟨rfl, rfl⟩ := hrest
              exact ⟨rfl, rfl, Or.inr ⟨pipeline, rest, found, job, hres, hselected found rfl, hhead,
                hsucceeded⟩⟩
            · split at hrest <;> obtain ⟨rfl, -⟩ := hrest
              · cases herr
              · cases habort

end Workflow

end Kratix
