import Kratix.Controllers.DynamicResourceRequest
import Kratix.WorkCreator.Execute
import Kratix.Workflow.Phase

/-!
# The life of a resource request

A request gets three finalizers before its first configure Job. After its
deletion has been requested they go in a fixed order: the one for the delete
workflow when that has succeeded, the one for the Works when none is left, and
the one for the Jobs. Every call of a reconcile keeps to this, so it holds in
all runs, wherever reconciles are cut off.
-/

namespace Kratix

open Apiserver Effect

variable {env : Externals} {p : ParentKind} {key : String × String} {f : String}
  {s t u v : World}

/-! ### Taking finalizers off -/

def HasFinalizer (p : ParentKind) (key : String × String) (f : String) (s : World) : Prop :=
  ∃ o, s.cluster.find (.parent p) key = some o ∧ f ∈ o.metadata.finalizers

/-- The object has lost the finalizer between `u` and `v`. -/
def Drops (p : ParentKind) (key : String × String) (f : String) (u v : World) : Prop :=
  ∃ o, u.cluster.find (.parent p) key = some o ∧ f ∈ o.metadata.finalizers ∧
    ∀ o', v.cluster.find (.parent p) key = some o' → o'.created = o.created →
      f ∉ o'.metadata.finalizers

theorem Drops.update {c : Call} {a : c.Answer} (hd : Drops p key f u v)
    (h : faulty env c u a v) :
    ∃ y : Parent p, c = .api (.update (.parent p) y) ∧ y.key = key ∧
      f ∉ y.metadata.finalizers := by
  obtain ⟨o, hfind, hf, hgone⟩ := hd
  obtain ⟨hmem, rfl⟩ := u.cluster.find_eq_some.mp hfind
  rcases faulty_cluster h with hcl | ⟨call, rfl, hcl⟩
  · exact absurd hf (hgone o (hcl ▸ hfind) rfl)
  have hfate := serve_fate call hmem
  rw [← hcl] at hfate
  cases hfate with
  | @kept o' found metadata =>
    have hcreated : o'.created = o.created := by rw [Object.created, metadata]; rfl
    exact absurd (metadata ▸ hf) (hgone o' found hcreated)
  | @written y update hkey found finalizers =>
    subst update
    refine ⟨y, rfl, hkey, fun hfy => ?_⟩
    have hsettle : (o.accept y).settle = some (o.accept y) := by
      refine if_neg fun hempty => ?_
      have hnil := List.isEmpty_iff.mp (Bool.and_eq_true_iff.mp hempty).2
      exact List.ne_nil_of_mem hfy hnil
    exact hgone _ (found.trans hsettle) rfl hfy
  | deleted delete found =>
    have hsettle : o.markDeleting.settle = some o.markDeleting := by
      refine if_neg fun hempty => ?_
      have hnil := List.isEmpty_iff.mp (Bool.and_eq_true_iff.mp hempty).2
      exact List.ne_nil_of_mem hf hnil
    exact absurd hf (hgone o.markDeleting (found.trans hsettle) rfl)

theorem Drops.hasFinalizer (hd : Drops p key f u v) : HasFinalizer p key f u := by
  obtain ⟨o, hfind, hf, -⟩ := hd
  exact ⟨o, hfind, hf⟩

theorem Held.hasFinalizer_iff {x : Parent p} (h : Held x u) :
    HasFinalizer p x.key f u ↔ f ∈ x.metadata.finalizers := by
  obtain ⟨o, hfind, hphase⟩ := h
  constructor
  · rintro ⟨o', hfind', hf⟩
    obtain rfl := Option.some.inj (hfind.symm.trans hfind')
    exact hphase.finalizers ▸ hf
  · exact fun hf => ⟨o, hfind, hphase.finalizers ▸ hf⟩

theorem not_drops_of_obeys {x : Parent p} {jobs : Job → Prop} {c : Call} {a : c.Answer}
    (hu : Held x u) (hc : c.Obeys (holding x jobs)) (h : faulty env c u a v) :
    ¬ Drops p x.key f u v := by
  intro hd
  obtain ⟨y, rfl, hkey, hf⟩ := hd.update h
  rw [hc.1 y rfl hkey] at hf
  exact hf (hu.hasFinalizer_iff.mp hd.hasFinalizer)

theorem Drops.removeFinalizer {x obj : Parent p} {g : String} {c : Call} {a : c.Answer}
    (hd : Drops p x.key f u v) (hu : Held x u) (hobj : SamePhase x obj)
    (hc : c = .api (.update (.parent p) (removeFinalizer obj g))) (h : faulty env c u a v) :
    f = g := by
  obtain ⟨y, hy, -, hf⟩ := hd.update h
  obtain rfl : Kratix.removeFinalizer obj g = y := by
    rw [hc] at hy
    cases hy
    rfl
  have hfx := hu.hasFinalizer_iff.mp hd.hasFinalizer
  rw [← hobj.finalizers] at hfx
  by_contra hne
  exact hf (List.mem_filter.mpr ⟨hfx, by simpa using hne⟩)

namespace DynamicResourceRequestController

variable {r : DynamicResourceRequestController} {ns name : String}

/-! ### The protocol -/

/-- The call creates a Job that runs the work creator, as those of configure pipelines do. -/
def CreatesConfigureJob (c : Call) : Prop :=
  ∃ j : Job, c = .api (.create .job j) ∧ j.spec.workCreator.isSome = true

/-- The request is stored with all finalizers, and not marked for deletion. -/
def Settled (r : DynamicResourceRequestController) (key : String × String) (s : World) : Prop :=
  ∃ rr, s.cluster.find (.parent r.rrKind) key = some rr ∧ rr.metadata.deleting = false ∧
    ∀ f ∈ rrFinalizers, f ∈ rr.metadata.finalizers

/-- The labels of a Job of the delete pipeline, with the hash of the specifications. -/
def deleteJobLabels (env : Externals) (promise : Promise) (rr : ResourceRequest) (q : Pipeline) :
    Labels :=
  let factory := q.forResource promise .delete rr
  factory.pipelineJobLabels (factory.objHash env)

/-- There is no delete pipeline, or the most recent Job of the first one has succeeded. -/
def DeleteWorkflowDone (env : Externals) (promise : Promise) (rr : ResourceRequest) (s : World) :
    Prop :=
  promise.pipelines .resource .delete = [] ∨
    ∃ q sel job, (promise.pipelines .resource .delete).head? = some q ∧
      env.parseLabels (deleteJobLabels env promise rr q) = some sel ∧
      (newestFirst (s.cluster.listed .job rr.metadata.ns sel)).head? = some job ∧
      0 < job.status.succeeded

/-- What the call `c`, which leads from `u` to `v`, may do in a reconcile that has
started in `s`. -/
structure Lawful (env : Externals) (r : DynamicResourceRequestController) (ns name : String)
    (s : World) (c : Call) (u v : World) : Prop where
  configure : CreatesConfigureJob c → r.canCreateResources = true ∧
    (∃ promise, s.cluster.find (.parent .promise) ("", r.promiseIdentifier) = some promise ∧
      isPaused promise = false) ∧ r.Settled (ns, name) s ∧ r.Settled (ns, name) u
  deleted : ∀ f ∈ rrFinalizers, Drops r.rrKind (ns, name) f u v →
    ∃ rr, u.cluster.find (.parent r.rrKind) (ns, name) = some rr ∧ rr.metadata.deleting = true
  second : Drops r.rrKind (ns, name) Finalizer.workCleanup u v →
    ¬ HasFinalizer r.rrKind (ns, name) Finalizer.runDeleteWorkflows u
  third : Drops r.rrKind (ns, name) Finalizer.removeAllWorkflowJobs u v →
    ¬ HasFinalizer r.rrKind (ns, name) Finalizer.runDeleteWorkflows u ∧
      ¬ HasFinalizer r.rrKind (ns, name) Finalizer.workCleanup u
  deleteWorkflow : Drops r.rrKind (ns, name) Finalizer.runDeleteWorkflows u v →
    ∃ promise rr, s.cluster.find (.parent .promise) ("", r.promiseIdentifier) = some promise ∧
      s.cluster.find (.parent r.rrKind) (ns, name) = some rr ∧
      DeleteWorkflowDone env promise rr s
  works : Drops r.rrKind (ns, name) Finalizer.workCleanup u v →
    ∃ sel, env.parseLabels (Labels.ofList [(Label.promiseName, r.promiseIdentifier),
      (Label.resourceName, name)]) = some sel ∧ s.cluster.listed .work ns sel = []

/-- Calls that take off no finalizer, and create no configure Job before its time. -/
theorem Lawful.of_kept {c : Call}
    (hkept : ∀ f ∈ rrFinalizers, ¬ Drops r.rrKind (ns, name) f u v)
    (hjob : CreatesConfigureJob c → r.canCreateResources = true ∧
      (∃ promise, s.cluster.find (.parent .promise) ("", r.promiseIdentifier) = some promise ∧
        isPaused promise = false) ∧ r.Settled (ns, name) s ∧ r.Settled (ns, name) u) :
    Lawful env r ns name s c u v where
  configure := hjob
  deleted := fun f hf hd => absurd hd (hkept f hf)
  second := fun hd => absurd hd (hkept _ (by simp [rrFinalizers]))
  third := fun hd => absurd hd (hkept _ (by simp [rrFinalizers]))
  deleteWorkflow := fun hd => absurd hd (hkept _ (by simp [rrFinalizers]))
  works := fun hd => absurd hd (hkept _ (by simp [rrFinalizers]))

/-- A program whose calls are all lawful, whatever happens. -/
def Lawfully {α : Type} (env : Externals) (r : DynamicResourceRequestController)
    (ns name : String) (s : World) (prog : Prog α) (t : World) : Prop :=
  ∀ c u a v, Issues (faulty env) prog t c u → faulty env c u a v → Lawful env r ns name s c u v

section

variable {α β : Type} {prog : Prog α} {rr : Parent r.rrKind}

theorem lawfully_pure (a : α) : Lawfully env r ns name s (pure a : Prog α) t :=
  fun _ _ _ _ hi => hi.elim

theorem lawfully_bind {g : α → Prog β} (hp : Lawfully env r ns name s prog t)
    (hg : ∀ a u, Exec (faulty env) prog t a u → Lawfully env r ns name s (g a) u) :
    Lawfully env r ns name s (prog >>= g) t := by
  intro c u a v hi hc
  rcases issues_bind.mp hi with hi | ⟨b, w, he, hi⟩
  · exact hp c u a v hi hc
  · exact hg b w he c u a v hi hc

/-- The request keeps its finalizers, and no configure Job is created. -/
theorem lawfully_of_steadily (hkey : rr.key = (ns, name))
    (hp : Steadily env (fun j => j.spec.workCreator = none) rr prog t) :
    Lawfully env r ns name s prog t := by
  intro c u a v hi hc
  obtain ⟨hu, hobeys⟩ := hp c u hi
  refine .of_kept (fun f _ => hkey ▸ not_drops_of_obeys hu hobeys hc) ?_
  rintro ⟨j, rfl, hj⟩
  rw [hobeys.2 j rfl] at hj
  cases hj

/-- The request is ready for its configure workflow, and stays so. -/
theorem lawfully_of_settled {promise : Promise} (hkey : rr.key = (ns, name))
    (hcan : r.canCreateResources = true)
    (hpromise : s.cluster.find (.parent .promise) ("", r.promiseIdentifier) = some promise)
    (hpaused : isPaused promise = false) (hs : Held rr s) (hlive : rr.metadata.deleting = false)
    (hall : ∀ f ∈ rrFinalizers, f ∈ rr.metadata.finalizers)
    (hp : Steadily env (fun _ => True) rr prog t) : Lawfully env r ns name s prog t := by
  have hsettled {u : World} (hu : Held rr u) : r.Settled (ns, name) u := by
    obtain ⟨o, hfind, hphase⟩ := hu
    refine ⟨o, hkey ▸ hfind, hphase.deleting.trans hlive, ?_⟩
    rw [hphase.finalizers]
    exact hall
  intro c u a v hi hc
  obtain ⟨hu, hobeys⟩ := hp c u hi
  refine .of_kept (fun f _ => hkey ▸ not_drops_of_obeys hu hobeys hc) fun _ => ?_
  exact ⟨hcan, ⟨promise, hpromise, hpaused⟩, hsettled hs, hsettled hu⟩

theorem lawfully_of_status (hp : Obeys { status := fun _ => True } prog) :
    Lawfully env r ns name s prog t := by
  intro c u a v hi hc
  have hobeys := hp.issues hi
  refine .of_kept ?_ ?_
  · intro f _ hd
    obtain ⟨y, rfl, -⟩ := hd.update hc
    exact hobeys
  · rintro ⟨j, rfl, -⟩
    exact hobeys.elim

theorem lawfully_updateObject {y : Parent r.rrKind} (hkey : rr.key = (ns, name)) (ht : Held rr t)
    (hy : ∀ f ∈ rr.metadata.finalizers, f ∈ y.metadata.finalizers) :
    Lawfully env r ns name s (updateObject (.parent r.rrKind) y) t := by
  intro c u a v hi hc
  obtain ⟨rfl, rfl⟩ := issues_perform.mp hi
  refine .of_kept ?_ ?_
  · intro f _ hd
    obtain ⟨y', h, -, hf⟩ := hd.update hc
    cases h
    rw [← hkey] at hd
    exact hf (hy f (ht.hasFinalizer_iff.mp hd.hasFinalizer))
  · rintro ⟨j, h, -⟩
    cases h

theorem lawfully_removeRequestFinalizer {obj : Parent r.rrKind} {g : String}
    (hkey : rr.key = (ns, name)) (ht : Held rr t) (hobj : SamePhase rr obj)
    (hdel : rr.metadata.deleting = true)
    (hfirst : g = Finalizer.runDeleteWorkflows →
      ∃ promise rr, s.cluster.find (.parent .promise) ("", r.promiseIdentifier) = some promise ∧
        s.cluster.find (.parent r.rrKind) (ns, name) = some rr ∧
        DeleteWorkflowDone env promise rr s)
    (hsecond : g = Finalizer.workCleanup →
      Finalizer.runDeleteWorkflows ∉ rr.metadata.finalizers ∧
      ∃ sel, env.parseLabels (Labels.ofList [(Label.promiseName, r.promiseIdentifier),
        (Label.resourceName, name)]) = some sel ∧ s.cluster.listed .work ns sel = [])
    (hthird : g = Finalizer.removeAllWorkflowJobs →
      Finalizer.runDeleteWorkflows ∉ rr.metadata.finalizers ∧
        Finalizer.workCleanup ∉ rr.metadata.finalizers) :
    Lawfully env r ns name s (r.removeRequestFinalizer obj g) t := by
  intro c u a v hi hc
  obtain ⟨rfl, rfl⟩ := issues_perform.mp hi
  have honly {f : String} (hd : Drops r.rrKind (ns, name) f u v) : g = f :=
    (Drops.removeFinalizer (hkey ▸ hd) ht hobj rfl hc).symm
  have hcarries {f : String} (hf : f ∉ rr.metadata.finalizers) :
      ¬ HasFinalizer r.rrKind (ns, name) f u :=
    fun h => hf (ht.hasFinalizer_iff.mp (hkey ▸ h))
  refine ⟨?_, ?_, ?_, ?_, ?_, ?_⟩
  · rintro ⟨j, h, -⟩
    cases h
  · intro f _ _
    obtain ⟨o, hfind, hphase⟩ := ht
    exact ⟨o, hkey ▸ hfind, hphase.deleting.trans hdel⟩
  · exact fun hd => hcarries (hsecond (honly hd)).1
  · exact fun hd => ⟨hcarries (hthird (honly hd)).1, hcarries (hthird (honly hd)).2⟩
  · exact fun hd => hfirst (honly hd)
  · exact fun hd => (hsecond (honly hd)).2

end

/-! ### What the parts of a reconcile write -/

section

variable {policy : Policy} {rr : ResourceRequest}

theorem obeys_deleteWorks (h : policy.delete .work) (works : List Work) :
    Obeys policy (deleteWorks works) := by
  induction works with
  | nil => exact obeys_pure _
  | cons w works ih =>
    refine obeys_bind (obeys_deleteObject h _ _) ?_
    rintro (e | x)
    · exact obeys_pure _
    · exact ih

theorem obeys_updateRequestStatus (h : policy.status (.parent r.rrKind)) (status : ParentStatus) :
    Obeys policy (r.updateRequestStatus rr status) := obeys_updateStatus h _

theorem obeys_setPausedReconciliationStatusConditions (h : policy.status (.parent r.rrKind)) :
    Obeys policy (r.setPausedReconciliationStatusConditions rr) := by
  unfold setPausedReconciliationStatusConditions
  dsimp only
  split
  · refine obeys_bind obeys_timeNow fun now => ?_
    exact obeys_bind (obeys_updateRequestStatus h _) fun _ => obeys_pure _
  · exact obeys_pure _

theorem obeys_ensurePromiseIsUnavailable (h : policy.status (.parent r.rrKind)) :
    Obeys policy (r.ensurePromiseIsUnavailable rr) := by
  unfold ensurePromiseIsUnavailable
  split
  · refine obeys_bind obeys_timeNow fun now => ?_
    exact obeys_bind (obeys_updateRequestStatus h _) fun _ => obeys_pure _
  · exact obeys_pure _

theorem obeys_ensurePromiseIsAvailable (h : policy.status (.parent r.rrKind)) :
    Obeys policy (r.ensurePromiseIsAvailable rr) := by
  refine obeys_bind obeys_timeNow fun now => ?_
  exact obeys_bind (obeys_updateRequestStatus h _) fun _ => obeys_pure _

theorem obeys_generateResourceStatus (n : ℕ) :
    Obeys policy (r.generateResourceStatus env rr n) := by
  refine obeys_bind (obeys_bind (Workflow.obeys_getExistingWorks _ _) ?_) ?_
  · rintro (e | works) <;> exact obeys_pure _
  · rintro (e | works)
    · exact obeys_pure _
    · exact obeys_bind obeys_timeNow fun now => obeys_pure _

theorem obeys_reportSuccess (h : policy.status (.parent r.rrKind)) :
    Obeys policy (r.reportSuccess rr) := by
  unfold reportSuccess
  split
  · exact obeys_pure _
  · split
    · split
      · exact obeys_bind (obeys_updateRequestStatus h _) fun _ => obeys_pure _
      · exact obeys_pure _
    · exact obeys_pure _

theorem obeys_reportWorkflows (h : policy.status (.parent r.rrKind)) (promise : Promise) (n : ℕ) :
    Obeys policy (r.reportWorkflows env promise rr n) := by
  unfold reportWorkflows
  split
  · exact obeys_bind (obeys_updateRequestStatus h _) fun _ => obeys_pure _
  · split
    · unfold updateWorkflowStatusCountersToZero
      split
      · exact obeys_bind (obeys_updateRequestStatus h _) fun _ => obeys_pure _
      · exact obeys_pure _
    · refine obeys_bind (obeys_generateResourceStatus n) ?_
      rintro (e | ⟨status, statusUpdate⟩)
      · exact obeys_pure _
      · dsimp only
        split
        · exact obeys_bind (obeys_updateRequestStatus h _) fun _ => obeys_pure _
        · exact obeys_reportSuccess h

end

/-! ### One reconcile -/

section

variable {promise : Promise} {rr : Parent r.rrKind}

theorem held_of_find (hrr : s.cluster.find (.parent r.rrKind) rr.key = some rr) : Held rr s :=
  ⟨rr, hrr, .refl rr⟩

theorem workCreator_of_generated {qs : List Pipeline} {resources : List PipelineJobResources}
    (h : List.Forall₂ (Workflow.Generated env s)
      (qs.map fun q => q.forResource promise .delete rr) resources) :
    ∀ res ∈ resources, res.job.spec.workCreator = none := by
  rw [List.forall₂_map_left_iff] at h
  induction h with
  | nil => simp
  | cons hres _ ih =>
    obtain ⟨isLast, uuid, -, hnamed⟩ := hres
    rw [List.forall_mem_cons]
    refine ⟨?_, ih⟩
    rw [(Workflow.resourcesNamed_ok hnamed).2]
    rfl

theorem deleteWorkflowDone_of_generated {resources : List PipelineJobResources}
    (h : List.Forall₂ (Workflow.Generated env s)
      ((promise.pipelines .resource .delete).map fun q => q.forResource promise .delete rr)
      resources)
    (hdone : resources = [] ∨ ∃ pipeline rest found job, resources = pipeline :: rest ∧
      Workflow.Selected env pipeline.job.metadata.labels rr.metadata.ns s found ∧
      (newestFirst found).head? = some job ∧ 0 < job.status.succeeded) :
    DeleteWorkflowDone env promise rr s := by
  unfold DeleteWorkflowDone
  cases hpipes : promise.pipelines .resource .delete with
  | nil => exact Or.inl rfl
  | cons q qs =>
    rw [hpipes] at h
    rcases hdone with rfl | ⟨pipeline, rest, found, job, rfl, ⟨sel, hsel, rfl⟩, hhead, hsucc⟩
    · cases h
    · obtain ⟨⟨isLast, uuid, -, hnamed⟩, -⟩ := List.forall₂_cons.mp h
      rw [(Workflow.resourcesNamed_ok hnamed).2] at hsel
      exact Or.inr ⟨q, sel, job, rfl, hsel, hhead, hsucc⟩

theorem lawfully_runDeleteWorkflows
    (hpromise : s.cluster.find (.parent .promise) ("", r.promiseIdentifier) = some promise)
    (hkey : rr.key = (ns, name)) (hrr : s.cluster.find (.parent r.rrKind) rr.key = some rr)
    (hdel : rr.metadata.deleting = true)
    (hf : Finalizer.runDeleteWorkflows ∈ rr.metadata.finalizers) :
    Lawfully env r ns name s (r.runDeleteWorkflows env promise rr) s := by
  have hs := held_of_find hrr
  have hx : Enduring rr := fun _ => List.ne_nil_of_mem hf
  refine lawfully_bind (lawfully_of_steadily hkey
    (steadily_of_obeys hx hs (Workflow.obeys_generateResources _))) ?_
  rintro (e | resources) u hgen
  · exact lawfully_pure _
  obtain ⟨rfl, hforall⟩ := Workflow.exec_generateResources hgen
  have hgenerated := hforall resources rfl
  have hdelete : Steadily env (fun j => j.spec.workCreator = none) rr
      (Workflow.reconcileDelete env (r.jobOpts rr resources)) u :=
    Workflow.steadily_reconcileDelete hx hs (.refl rr) (workCreator_of_generated hgenerated)
  refine lawfully_bind (lawfully_of_steadily hkey hdelete) ?_
  intro result v hresult
  have hv := hdelete.exec hx hs hresult
  dsimp only
  split
  · refine lawfully_of_steadily hkey (steadily_of_obeys hx hv ?_)
    refine obeys_bind obeys_timeNow fun now => ?_
    exact obeys_bind (obeys_updateRequestStatus trivial _) fun _ => obeys_pure _
  · exact lawfully_pure _
  · next herr =>
    split
    · exact lawfully_pure _
    · next habort =>
      obtain ⟨rfl, hparent, hdone⟩ :=
        Workflow.exec_reconcileDelete_done hresult herr (by simpa using habort)
      refine lawfully_bind ?_ fun _ _ _ => lawfully_pure _
      have hobj : SamePhase rr result.parentObject := by
        rw [hparent]
        exact .refl rr
      refine lawfully_removeRequestFinalizer hkey hv hobj hdel ?_ ?_ ?_
      · intro _
        refine ⟨promise, rr, hpromise, hkey ▸ hrr, ?_⟩
        exact deleteWorkflowDone_of_generated hgenerated hdone
      · exact fun h => absurd h (by decide)
      · exact fun h => absurd h (by decide)

theorem lawfully_deleteWork (hkey : rr.key = (ns, name))
    (hrr : s.cluster.find (.parent r.rrKind) rr.key = some rr)
    (hdel : rr.metadata.deleting = true)
    (hfirst : Finalizer.runDeleteWorkflows ∉ rr.metadata.finalizers)
    (hf : Finalizer.workCleanup ∈ rr.metadata.finalizers) :
    Lawfully env r ns name s (r.deleteWork env rr) s := by
  have hs := held_of_find hrr
  have hx : Enduring rr := fun _ => List.ne_nil_of_mem hf
  obtain ⟨hns, hname⟩ := Prod.mk.inj hkey
  refine lawfully_bind (lawfully_of_steadily hkey
    (steadily_of_obeys hx hs (Workflow.obeys_getExistingWorks _ _))) ?_
  rintro (e | works) u hlist
  · exact lawfully_pure _
  obtain ⟨rfl, hworks⟩ := exec_getExistingWorks hlist
  obtain ⟨sel, hsel, hworks⟩ := hworks works rfl
  cases works with
  | nil =>
    refine lawfully_bind (lawfully_removeRequestFinalizer hkey hs (.refl rr) hdel ?_ ?_ ?_) ?_
    · exact fun h => absurd h (by decide)
    · rw [hname] at hsel
      rw [hns] at hworks
      exact fun _ => ⟨hfirst, sel, hsel, hworks.symm⟩
    · exact fun h => absurd h (by decide)
    · rintro (e | _) _ _ <;> exact lawfully_pure _
  | cons w works =>
    refine lawfully_of_steadily hkey (steadily_of_obeys hx hs ?_)
    refine obeys_bind (obeys_deleteWorks (by simp [holding]) _) ?_
    rintro (e | _) <;> exact obeys_pure _

theorem lawfully_deleteWorkflows (hkey : rr.key = (ns, name))
    (hrr : s.cluster.find (.parent r.rrKind) rr.key = some rr)
    (hdel : rr.metadata.deleting = true)
    (hfirst : Finalizer.runDeleteWorkflows ∉ rr.metadata.finalizers)
    (hsecond : Finalizer.workCleanup ∉ rr.metadata.finalizers)
    (hf : Finalizer.removeAllWorkflowJobs ∈ rr.metadata.finalizers) :
    Lawfully env r ns name s (r.deleteWorkflows rr) s := by
  have hx : Enduring rr := fun _ => List.ne_nil_of_mem hf
  have hdelete (l : Labels) {t : World} (ht : Held rr t) :
      Steadily env (fun j => j.spec.workCreator = none) rr
        (deleteAllResourcesWithKindMatchingLabel .job l) t :=
    steadily_of_obeys hx ht (obeys_deleteAllResourcesWithKindMatchingLabel (by simp [holding]) l)
  have hs := held_of_find hrr
  refine lawfully_bind (lawfully_of_steadily hkey (hdelete _ hs)) ?_
  rintro (e | remaining) u hcurrent
  · exact lawfully_pure _
  have hu := (hdelete _ hs).exec hx hs hcurrent
  refine lawfully_bind (lawfully_of_steadily hkey (hdelete _ hu)) ?_
  rintro (e | legacy) v hlegacy
  · exact lawfully_pure _
  have hv := (hdelete _ hu).exec hx hu hlegacy
  dsimp only
  split
  · refine lawfully_bind (lawfully_removeRequestFinalizer hkey hv (.refl rr) hdel ?_ ?_ ?_) ?_
    · exact fun h => absurd h (by decide)
    · exact fun h => absurd h (by decide)
    · exact fun _ => ⟨hfirst, hsecond⟩
    · rintro (e | _) _ _ <;> exact lawfully_pure _
  · exact lawfully_pure _

theorem lawfully_deleteResources
    (hpromise : s.cluster.find (.parent .promise) ("", r.promiseIdentifier) = some promise)
    (hkey : rr.key = (ns, name)) (hrr : s.cluster.find (.parent r.rrKind) rr.key = some rr)
    (hdel : rr.metadata.deleting = true) :
    Lawfully env r ns name s (r.deleteResources env promise rr) s := by
  have hmem (f : String) : containsFinalizer rr f = true ↔ f ∈ rr.metadata.finalizers := by
    simp [containsFinalizer]
  unfold deleteResources
  split
  · exact lawfully_pure _
  split
  · next h => exact lawfully_runDeleteWorkflows hpromise hkey hrr hdel ((hmem _).mp h)
  next hfirst =>
  rw [hmem] at hfirst
  split
  · next h => exact lawfully_deleteWork hkey hrr hdel hfirst ((hmem _).mp h)
  next hsecond =>
  rw [hmem] at hsecond
  split
  · next h => exact lawfully_deleteWorkflows hkey hrr hdel hfirst hsecond ((hmem _).mp h)
  · exact lawfully_pure _

theorem steadily_reconcileWorkflows (hx : Enduring rr) (hs : Held rr s) :
    Steadily env (fun _ => True) rr (r.reconcileWorkflows env promise rr) s := by
  refine steadily_bind hx hs (steadily_of_obeys hx hs (Workflow.obeys_generateResources _)) ?_
  rintro (e | resources) t - ht
  · exact steadily_pure _
  dsimp only
  split
  · refine steadily_of_obeys hx ht ?_
    exact obeys_bind (obeys_updateRequestStatus trivial _) fun _ => obeys_pure _
  · refine steadily_bind hx ht
      (Workflow.steadily_reconcileConfigure hx ht (.refl rr) fun _ _ => trivial) ?_
    rintro result u - hu
    split
    · exact steadily_pure _
    · exact steadily_of_obeys hx hu (obeys_reportWorkflows trivial _ _)

theorem mem_withAddedFinalizers {σ τ : Type} (o : Object σ τ) (finalizers : List String) {f : String}
    (hf : f ∈ o.metadata.finalizers) :
    f ∈ (withAddedFinalizers o finalizers).metadata.finalizers := by
  induction finalizers generalizing o with
  | nil => exact hf
  | cons g finalizers ih =>
    refine ih (addFinalizer o g) ?_
    rw [addFinalizer_eq]
    dsimp only [withFinalizers]
    split
    · exact hf
    · exact List.mem_append_left _ hf

theorem lawfully_reconcileRequest
    (hpromise : s.cluster.find (.parent .promise) ("", r.promiseIdentifier) = some promise)
    (hkey : rr.key = (ns, name)) (hrr : s.cluster.find (.parent r.rrKind) rr.key = some rr) :
    Lawfully env r ns name s (r.reconcileRequest env promise rr) s := by
  have hs := held_of_find hrr
  unfold reconcileRequest
  split
  · exact lawfully_of_status (obeys_setPausedReconciliationStatusConditions trivial)
  next hpaused =>
  split
  · exact lawfully_bind (lawfully_updateObject hkey hs fun f hf => hf) fun _ _ _ => lawfully_pure _
  split
  · next hdel => exact lawfully_deleteResources hpromise hkey hrr hdel
  next hdel =>
  split
  · exact lawfully_of_status (obeys_ensurePromiseIsUnavailable trivial)
  next hcan =>
  split
  · exact lawfully_of_status (obeys_ensurePromiseIsAvailable trivial)
  split
  · refine lawfully_bind (lawfully_updateObject hkey hs ?_) fun _ _ _ => lawfully_pure _
    exact fun f hf => mem_withAddedFinalizers rr rrFinalizers hf
  next hmissing =>
  have hall : ∀ f ∈ rrFinalizers, f ∈ rr.metadata.finalizers := by
    simpa [finalizersAreMissing, containsFinalizer] using hmissing
  have hx : Enduring rr := fun h => absurd h hdel
  refine lawfully_of_settled hkey (by simpa using hcan) hpromise (by simpa using hpaused) hs
    (by simpa using hdel) hall ?_
  refine steadily_bind hx hs (steadily_of_obeys hx hs obeys_timeNow) ?_
  rintro now t - ht
  dsimp only
  split
  · refine steadily_of_obeys hx ht (obeys_bind (obeys_updateObject ?_) fun _ => obeys_pure _)
    exact holding_write_parent rfl
  · exact steadily_reconcileWorkflows hx ht

/-- Every call of a reconcile keeps to the protocol, from any state. -/
theorem lawfully_reconcile : Lawfully env r ns name s (r.reconcile env ns name) s := by
  unfold reconcile
  split
  · exact lawfully_pure _
  refine lawfully_bind (lawfully_of_status (obeys_getObject _ _)) ?_
  rintro (e | promise) u hget
  · exact lawfully_pure _
  obtain ⟨rfl, hpromise, -⟩ := exec_getObject hget
  refine lawfully_bind (lawfully_of_status (obeys_getObject _ _)) ?_
  rintro ((_ | _ | _ | _ | _) | rr) v hget'
  case ok =>
    obtain ⟨rfl, hrr, -⟩ := exec_getObject hget'
    have hfind := hrr rr rfl
    have hkey := (v.cluster.find_eq_some.mp hfind).2
    exact lawfully_reconcileRequest (hpromise promise rfl) hkey (hkey ▸ hfind)
  all_goals exact lawfully_pure _

end

/-! ### Runs -/

/-- The finalizers that are left go from the last one backwards. -/
def InOrder (finalizers : List String) : Prop :=
  (Finalizer.runDeleteWorkflows ∈ finalizers → Finalizer.workCleanup ∈ finalizers) ∧
    (Finalizer.workCleanup ∈ finalizers → Finalizer.removeAllWorkflowJobs ∈ finalizers)

instance (finalizers : List String) : Decidable (InOrder finalizers) :=
  inferInstanceAs (Decidable (_ ∧ _))

/-- Others may do anything, but leave the finalizers of the request to its controller. -/
structure Elsewhere (promiseName : String) (key : String × String) (s t : World) : Prop where
  clock : s.cluster.clock ≤ t.cluster.clock
  request : ∀ o', t.cluster.find (.parent (.resource promiseName)) key = some o' →
    s.cluster.clock ≤ o'.created ∨
      ∃ o, s.cluster.find (.parent (.resource promiseName)) key = some o ∧
        o.created = o'.created ∧
        (o.metadata.deleting = true → o'.metadata.deleting = true) ∧
        ∀ f ∈ rrFinalizers, f ∈ o'.metadata.finalizers ↔ f ∈ o.metadata.finalizers

/-- A step in the life of a request: a reconcile with whatever settings, which may
be cut off anywhere, or something that happens elsewhere. -/
inductive Step (env : Externals) (promiseName ns name : String) (s t : World) : Prop
  | reconcile (r : DynamicResourceRequestController) (hr : r.promiseIdentifier = promiseName)
      (h : Passes (faulty env) (r.reconcile env ns name) s t)
  | elsewhere (h : Elsewhere promiseName (ns, name) s t)

/-- The request, if it still exists, is being deleted and has lost its finalizers in order. -/
structure Retreats (promiseName : String) (key : String × String) (created : ℕ) (s : World) :
    Prop where
  clock : created < s.cluster.clock
  request : ∀ o, s.cluster.find (.parent (.resource promiseName)) key = some o →
    o.created = created → o.metadata.deleting = true ∧ InOrder o.metadata.finalizers

theorem Retreats.elsewhere {promiseName : String} {created : ℕ}
    (hs : Retreats promiseName key created s) (h : Elsewhere promiseName key s t) :
    Retreats promiseName key created t where
  clock := hs.clock.trans_le h.clock
  request := by
    rintro o' hfind rfl
    rcases h.request o' hfind with hnew | ⟨o, ho, hcreated, hdel, hfin⟩
    · exact absurd hs.clock (not_lt.mpr hnew)
    · obtain ⟨hd, hfirst, hsecond⟩ := hs.request o ho hcreated
      refine ⟨hdel hd, ?_, ?_⟩
      · rw [hfin _ (by simp [rrFinalizers]), hfin _ (by simp [rrFinalizers])]
        exact hfirst
      · rw [hfin _ (by simp [rrFinalizers]), hfin _ (by simp [rrFinalizers])]
        exact hsecond

theorem Retreats.call {created : ℕ} {c : Call} {a : c.Answer}
    (hu : Retreats r.promiseIdentifier (ns, name) created u)
    (hlawful : Lawful env r ns name s c u v) (h : faulty env c u a v) :
    Retreats r.promiseIdentifier (ns, name) created v where
  clock := hu.clock.trans_le (faulty_clock h)
  request := by
    rintro o' hfind' rfl
    rcases faulty_cluster h with hcl | ⟨call, rfl, hcl⟩
    · exact hu.request o' (hcl ▸ hfind') rfl
    rw [hcl] at hfind'
    obtain ⟨hmem', hkey'⟩ := (Cluster.find_eq_some _).mp hfind'
    rcases serve_origin call hmem' with hnew | ⟨o, ho, hkey, hcreated⟩
    · exact absurd hu.clock (not_lt.mpr hnew)
    have hfind : u.cluster.find (.parent r.rrKind) (ns, name) = some o :=
      u.cluster.find_eq_some.mpr ⟨ho, hkey.trans hkey'⟩
    obtain ⟨hdel, hfirst, hsecond⟩ := hu.request o hfind hcreated
    have hdrop {f : String} (hf : f ∈ o.metadata.finalizers) (hf' : f ∉ o'.metadata.finalizers) :
        Drops r.rrKind (ns, name) f u v := by
      refine ⟨o, hfind, hf, fun x hx _ => ?_⟩
      rw [hcl, hfind'] at hx
      cases hx
      exact hf'
    have hsub : o'.metadata.deleting = true ∧
        ∀ f ∈ o'.metadata.finalizers, f ∈ o.metadata.finalizers := by
      have hfate := serve_fate call ho
      cases hfate with
      | kept found metadata =>
        rw [hkey, hkey', hfind'] at found
        cases found
        rw [metadata]
        exact ⟨hdel, fun f hf => hf⟩
      | written update _ found finalizers =>
        rw [hkey, hkey', hfind'] at found
        rw [Object.settle_eq_some found.symm]
        exact ⟨hdel, finalizers hdel⟩
      | deleted delete found =>
        rw [hkey, hkey', hfind'] at found
        rw [Object.settle_eq_some found.symm]
        exact ⟨rfl, fun f hf => hf⟩
    refine ⟨hsub.1, ?_, ?_⟩
    · intro hf
      by_contra hgone
      have hf := hsub.2 _ hf
      exact hlawful.second (hdrop (hfirst hf) hgone) ⟨o, hfind, hf⟩
    · intro hf
      by_contra hgone
      have hf := hsub.2 _ hf
      exact (hlawful.third (hdrop (hsecond hf) hgone)).2 ⟨o, hfind, hf⟩

theorem Retreats.step {promiseName : String} {created : ℕ}
    (hs : Retreats promiseName (ns, name) created s) (h : Step env promiseName ns name s t) :
    Retreats promiseName (ns, name) created t := by
  cases h with
  | reconcile r hr h =>
    subst hr
    refine Passes.invariant ?_ hs h
    intro c u a v hi hc hu
    exact hu.call (lawfully_reconcile c u a v hi hc) hc
  | elsewhere h => exact hs.elsewhere h

theorem Retreats.run {promiseName : String} {created : ℕ}
    (hs : Retreats promiseName (ns, name) created s)
    (hrun : Relation.ReflTransGen (Step env promiseName ns name) s t) :
    Retreats promiseName (ns, name) created t := by
  induction hrun with
  | refl => exact hs
  | tail _ hstep ih => exact ih.step hstep

/-- In every run each call of the next reconcile keeps to the protocol; and a request
whose deletion has been requested loses its finalizers in order. -/
theorem request_lifecycle {promiseName : String}
    (hrun : Relation.ReflTransGen (Step env promiseName ns name) s t) :
    (∀ r : DynamicResourceRequestController, r.promiseIdentifier = promiseName →
      ∀ c u a v, Issues (faulty env) (r.reconcile env ns name) t c u → faulty env c u a v →
        Lawful env r ns name t c u v) ∧
    ∀ o o', s.cluster.find (.parent (.resource promiseName)) (ns, name) = some o →
      o.metadata.deleting = true → InOrder o.metadata.finalizers →
      t.cluster.find (.parent (.resource promiseName)) (ns, name) = some o' →
      o'.created = o.created →
      o'.metadata.deleting = true ∧ InOrder o'.metadata.finalizers := by
  refine ⟨fun r _ c u a v hi hc => lawfully_reconcile c u a v hi hc, ?_⟩
  intro o o' ho hdel horder ho' hcreated
  have hs : Retreats promiseName (ns, name) o.created s := by
    refine ⟨s.cluster.created_lt _ o (s.cluster.find_eq_some.mp ho).1, ?_⟩
    intro x hx _
    obtain rfl := Option.some.inj (ho.symm.trans hx)
    exact ⟨hdel, horder⟩
  exact (hs.run hrun).request o' ho' hcreated

def sampleController : DynamicResourceRequestController where
  promiseIdentifier := "redis"
  enabled := true
  canCreateResources := true
  numberOfJobsToKeep := 5
  reconciliationInterval := 36000

def sampleRequest : ResourceRequest where
  metadata := {
    name := "example"
    ns := "default"
    labels := promiseNameLabel "redis"
    finalizers := rrFinalizers }
  spec := ""
  status := {}

/-- A request with all finalizers, whose deletion has been requested. -/
def retreatWorld : World :=
  let promise : Promise := { metadata := { name := "redis" }, spec := {}, status := {} }
  let installed := (serve (.create (Kind.parent .promise) promise) (Cluster.empty scheme)).2
  let requested := (serve (.create (Kind.parent (.resource "redis")) sampleRequest) installed).2
  emptyWorld.withCluster
    (serve (.delete (Kind.parent (.resource "redis")) "default" "example") requested).2

/-- Without a delete pipeline, the first reconcile takes off the first finalizer. -/
theorem request_lifecycle_sample : ∃ (env : Externals) (t : World) (o o' : ResourceRequest),
    Relation.ReflTransGen (Step env "redis" "default" "example") retreatWorld t ∧
      retreatWorld.cluster.find (.parent (.resource "redis")) ("default", "example") = some o ∧
      t.cluster.find (.parent (.resource "redis")) ("default", "example") = some o' ∧
      Finalizer.runDeleteWorkflows ∈ o.metadata.finalizers ∧
      Finalizer.runDeleteWorkflows ∉ o'.metadata.finalizers ∧
      InOrder o'.metadata.finalizers := by
  have ho : retreatWorld.cluster.find (.parent (.resource "redis")) ("default", "example") =
      some (sampleRequest.stampedAt 1).markDeleting := by
    decide +kernel
  have heval : ((eval (serveCall plainExternals)
      (sampleController.reconcile plainExternals "default" "example") retreatWorld).any fun out =>
        (out.2.cluster.find (.parent (.resource "redis")) ("default", "example")).any fun o' =>
          decide (o'.created = 1 ∧ Finalizer.runDeleteWorkflows ∉ o'.metadata.finalizers)) =
      true := by
    decide +kernel
  obtain ⟨env, henv⟩ : ∃ env, plainExternals = env := ⟨_, rfl⟩
  rw [henv] at heval
  obtain ⟨a, t, he, heval⟩ := exists_exec_of_eval (h := faulty env) faulty_of_serveCall heval
  obtain ⟨o', ho', heval⟩ := (Option.any_eq_true _ _).mp heval
  obtain ⟨hcreated, hgone⟩ := of_decide_eq_true heval
  have hrun : Relation.ReflTransGen (Step env "redis" "default" "example") retreatWorld t :=
    .single (.reconcile sampleController rfl he.passes)
  have hlast := (request_lifecycle hrun).2 _ o' ho rfl (by decide) ho' hcreated
  exact ⟨env, t, _, o', hrun, ho, ho', by decide, hgone, hlast.2⟩

end DynamicResourceRequestController

end Kratix
