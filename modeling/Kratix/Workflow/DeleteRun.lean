import Kratix.Workflow.SingleRun

/-!
# Runs of the delete workflow of one parent object

While a Promise or a resource request is being deleted, each reconcile looks
for the Job of its delete pipeline and starts one if there is none. Meanwhile
Jobs make progress and anybody may change the specifications, also in the
middle of a reconcile. The Job is found by all labels that a new one would get,
among them the hash of the specifications.
-/

namespace Kratix.Workflow

open Apiserver Effect

variable {env : Externals} {p : ParentKind} {id : Identity p} {s t u : World}

/-! ### One call -/

/-- The data of one call: the parent object and its Promise as they are stored. -/
structure DeleteCall (id : Identity p) where
  promise : Promise
  parent : Parent p
  numberOfJobsToKeep : ℕ
  deleting : parent.metadata.deleting = true
  parent_ns : parent.metadata.ns = id.ns
  parent_name : parent.metadata.name = id.name
  parent_uid : parent.metadata.creationTimestamp = id.uid
  promise_name : promise.metadata.name = id.promiseName
  promise_self : ∀ o, asPromise p parent = some o → promise = o ∧ id.ns = ""

namespace DeleteCall

variable (x : DeleteCall id)

def pipelines : List Pipeline := x.promise.pipelines p.workflowType .delete

def factory (q : Pipeline) : PipelineFactory :=
  match asRequest p x.parent with
  | none => q.forPromise x.promise .delete
  | some rr => q.forResource x.promise .delete rr

def opts (resources : List PipelineJobResources) : Opts p where
  parentObject := x.parent
  resources := resources
  workflowType := p.workflowType
  numberOfJobsToKeep := x.numberOfJobsToKeep

/-- Generate the resources of the pipelines and reconcile. -/
def delete (env : Externals) : Prog (Result p) := do
  match ← generateResources env (x.pipelines.map x.factory) with
  | .error e => return ⟨false, some e, x.parent⟩
  | .ok resources => reconcileDelete env (x.opts resources)

def isManual : Bool := isManualReconciliation x.parent.metadata.labels

/-- The labels of a Job that the call would create. -/
def jobLabels (env : Externals) : Option Labels :=
  x.pipelines.head?.map fun q => (x.factory q).pipelineJobLabels ((x.factory q).objHash env)

theorem factory_ns (q : Pipeline) : id.ns = "" ∨ (x.factory q).ns = id.ns := by
  cases p with
  | promise => exact Or.inl (x.promise_self x.parent rfl).2
  | resource n => exact Or.inr x.parent_ns

end DeleteCall

/-! ### The Jobs of the parent during a call -/

/-- A call of the API, preceded by what others do in the meantime. -/
def disturbed (env : Externals) (id : Identity p) : Handler signature World :=
  fun c s r t => ∃ s', Unattended id s s' ∧ faulty env c s' r t

/-- The same Job, at different times. -/
structure Alike (j j' : Job) : Prop where
  created : j'.created = j.created
  labels : j'.metadata.labels = j.metadata.labels
  ns : j'.metadata.ns = j.metadata.ns

theorem Alike.refl (j : Job) : Alike j j := ⟨rfl, rfl, rfl⟩

theorem Alike.trans {i j k : Job} (h₁ : Alike i j) (h₂ : Alike j k) : Alike i k :=
  ⟨h₂.created.trans h₁.created, h₂.labels.trans h₁.labels, h₂.ns.trans h₁.ns⟩

theorem Progress.alike {j j' : Job} (h : Progress j j') : Alike j j' where
  created := by rw [Object.created, h.metadata]; rfl
  labels := by rw [h.metadata]
  ns := by rw [h.metadata]

theorem Progress.owned {j j' : Job} (h : Progress j j') (ho : Owned id j) : Owned id j' := by
  rw [Owned, h.metadata]
  exact ho

/-- The parent has the same Jobs as before. -/
structure SameJobs (id : Identity p) (s t : World) : Prop where
  stems : ∀ j' ∈ t.cluster.objects .job, Owned id j' →
    ∃ j ∈ s.cluster.objects .job, Owned id j ∧ Alike j j'
  kept : ∀ j ∈ s.cluster.objects .job, Owned id j →
    ∃ j' ∈ t.cluster.objects .job, Owned id j' ∧ Alike j j'

theorem SameJobs.refl (s : World) : SameJobs id s s :=
  ⟨fun j hj ho => ⟨j, hj, ho, .refl j⟩, fun j hj ho => ⟨j, hj, ho, .refl j⟩⟩

theorem SameJobs.trans (h₁ : SameJobs id s u) (h₂ : SameJobs id u t) : SameJobs id s t where
  stems := by
    intro j' hj' ho
    obtain ⟨i, hi, hoi, hij⟩ := h₂.stems j' hj' ho
    obtain ⟨j, hj, hoj, hji⟩ := h₁.stems i hi hoi
    exact ⟨j, hj, hoj, hji.trans hij⟩
  kept := by
    intro j hj ho
    obtain ⟨i, hi, hoi, hij⟩ := h₁.kept j hj ho
    obtain ⟨j', hj', ho', hji⟩ := h₂.kept i hi hoi
    exact ⟨j', hj', ho', hij.trans hji⟩

theorem SameJobs.of_eq (h : t.cluster.objects .job = s.cluster.objects .job) :
    SameJobs id s t := by
  constructor
  · exact fun j hj ho => ⟨j, h ▸ hj, ho, .refl j⟩
  · exact fun j hj ho => ⟨j, h ▸ hj, ho, .refl j⟩

theorem Unattended.sameJobs (h : Unattended id s t) : SameJobs id s t where
  stems := by
    intro j' hj' ho
    obtain ⟨j, hj, hoj, hp⟩ := h.stems j' hj' ho
    exact ⟨j, hj, hoj, hp.alike⟩
  kept := by
    intro j hj ho
    obtain ⟨j', hj', hp⟩ := h.kept j hj ho
    exact ⟨j', hj', hp.owned ho, hp.alike⟩

/-- A program that does not write Jobs leaves the Jobs of the parent as they are. -/
theorem exec_sameJobs {α : Type} {prog : Prog α} {a : α} (hp : Obeys (sparing .job) prog)
    (he : Exec (disturbed env id) prog s a t) : SameJobs id s t := by
  refine Exec.frame .refl (fun _ _ _ => .trans) ?_ (spares_of_sparing hp) he
  rintro c s r t hc ⟨s', hs', hf⟩
  exact hs'.sameJobs.trans (.of_eq (faulty_objects hf hc))

/-- Apart from the Jobs it had, the parent has at most one, made from `job`. -/
def AddsOne (id : Identity p) (job : Job) (s t : World) : Prop :=
  ∃ time, ∀ j' ∈ t.cluster.objects .job, Owned id j' →
    (∃ j ∈ s.cluster.objects .job, Owned id j ∧ j'.created = j.created) ∨
      j'.created = time ∧ j'.metadata.labels = job.metadata.labels ∧
        j'.metadata.ns = job.metadata.ns

theorem AddsOne.of_sameJobs {job : Job} (h : SameJobs id s t) : AddsOne id job s t := by
  refine ⟨0, fun j' hj' ho => Or.inl ?_⟩
  obtain ⟨j, hj, hoj, ha⟩ := h.stems j' hj' ho
  exact ⟨j, hj, hoj, ha.created⟩

theorem AddsOne.before {job : Job} (h : AddsOne id job u t) (hs : SameJobs id s u) :
    AddsOne id job s t := by
  obtain ⟨time, htime⟩ := h
  refine ⟨time, fun j' hj' ho => (htime j' hj' ho).imp_left ?_⟩
  rintro ⟨i, hi, hoi, hc⟩
  obtain ⟨j, hj, hoj, ha⟩ := hs.stems i hi hoi
  exact ⟨j, hj, hoj, hc.trans ha.created⟩

theorem exec_createJob_disturbed {job : Job} {r : Except ApiError Job}
    (he : Exec (disturbed env id) (createObject .job job) s r t) :
    (r = .error .alreadyExists → SameJobs id s t) ∧ AddsOne id job s t := by
  obtain ⟨s', hs', hf⟩ := exec_perform.mp he
  constructor
  · rintro rfl
    obtain ⟨c, hc, rfl⟩ := hf
    rcases hc with ⟨hr, rfl⟩ | ⟨e, hfault, he, -⟩
    · rcases serve_create_cases (S := scheme) (k := Kind.job) job s'.cluster with ⟨e, hs⟩ | ⟨hs, -⟩
      · rw [hs]
        exact hs'.sameJobs
      · rw [hs] at hr
        cases hr
    · cases he
      cases hfault
  · refine AddsOne.before ?_ hs'.sameJobs
    rcases exec_createObject (exec_perform.mpr hf) with ⟨rfl, -⟩ | ⟨c, hadds, rfl, -⟩
    · exact .of_sameJobs (.refl _)
    · refine ⟨s'.cluster.clock, fun j' hj' ho => ?_⟩
      rcases hadds.mem_iff.mp hj' with hj | rfl
      · exact Or.inl ⟨j', hj, ho, rfl⟩
      · exact Or.inr ⟨rfl, rfl, rfl⟩

/-- Creating the Job, or writing it over one that has its name. -/
theorem exec_applyJob_disturbed {job : Job} {a : Unit}
    (he : Exec (disturbed env id) (applyResource ⟨.job, job⟩) s a t) : AddsOne id job s t := by
  obtain ⟨r, u, hcreate, hrest⟩ := exec_bind.mp he
  obtain ⟨hsame, hadd⟩ := exec_createJob_disturbed hcreate
  rcases r with (_ | _ | _ | _ | _) | x
  case error.alreadyExists =>
    obtain ⟨b, v, hupd, hlast⟩ := exec_bind.mp hrest
    obtain ⟨-, rfl⟩ := hlast
    obtain ⟨u', hu', hf⟩ := exec_perform.mp hupd
    have hbefore := (hsame rfl).trans hu'.sameJobs
    refine AddsOne.before ?_ hbefore
    rcases exec_updateObject (exec_perform.mpr hf) with ⟨rfl, -⟩ |
      ⟨stored, c, hfind, hrep, rfl, -⟩
    · exact .of_sameJobs (.refl _)
    · obtain ⟨-, hkey⟩ := u'.cluster.find_eq_some.mp hfind
      refine ⟨stored.created, fun j' hj' ho => ?_⟩
      rcases (hrep.mem j').mp hj' with ⟨hj, -⟩ | hnew
      · exact Or.inl ⟨j', hj, ho, rfl⟩
      · obtain rfl := Object.settle_eq_some hnew
        exact Or.inr ⟨rfl, rfl, congrArg Prod.fst hkey⟩
  all_goals
    obtain ⟨-, rfl⟩ := hrest
    exact hadd

theorem exec_applyResources_disturbed {objs : List AnyObject} {job : Job} {a : Unit}
    (hobjs : ∀ o ∈ objs, o.1 ≠ .job)
    (he : Exec (disturbed env id) (applyResources (objs ++ [⟨.job, job⟩])) s a t) :
    AddsOne id job s t := by
  induction objs generalizing s with
  | nil =>
    obtain ⟨_, u, hjob, hrest⟩ := exec_bind.mp he
    obtain ⟨-, rfl⟩ := hrest
    exact exec_applyJob_disturbed hjob
  | cons o objs ih =>
    obtain ⟨_, u, ho, hrest⟩ := exec_bind.mp he
    have hsame := exec_sameJobs (obeys_applyResource (hobjs o (by simp))) ho
    exact (ih (fun o' ho' => hobjs o' (by simp [ho'])) hrest).before hsame

/-! ### What a call does to the Jobs -/

theorem exec_generateResources_named {h : Handler signature World} {fs : List PipelineFactory}
    {rs : List PipelineJobResources} (he : Exec h (generateResources env fs) s (.ok rs) t) :
    List.Forall₂ (fun f res => ∃ isLast uuid, f.resourcesNamed env isLast uuid = .ok res) fs rs := by
  induction fs generalizing s t rs with
  | nil =>
    obtain ⟨hrs, -⟩ := he
    cases hrs
    exact .nil
  | cons f fs ih =>
    obtain ⟨a, u, hf, htail⟩ := exec_bind.mp he
    obtain ⟨uuid, v, -, hnamed, -⟩ := exec_bind.mp hf
    cases a with
    | error e =>
      obtain ⟨hrs, -⟩ := htail
      cases hrs
    | ok res =>
      obtain ⟨b, w, hrest, hend⟩ := exec_bind.mp htail
      cases b with
      | error e =>
        obtain ⟨hrs, -⟩ := hend
        cases hrs
      | ok rest =>
        obtain ⟨hrs, -⟩ := hend
        cases hrs
        exact .cons ⟨_, uuid, hnamed.symm⟩ (ih hrest)

theorem exec_getJobsWithLabels_disturbed {labels : Labels} {ns : String} {jobs : List Job}
    (he : Exec (disturbed env id) (getJobsWithLabels env labels ns) s (.ok jobs) t) :
    ∃ sel, env.parseLabels labels = some sel ∧ jobs = t.cluster.listed .job ns sel := by
  unfold getJobsWithLabels at he
  split at he
  · obtain ⟨h, -⟩ := he
    cases h
  · next sel hsel =>
    obtain ⟨a, u, hlist, hrest⟩ := exec_bind.mp he
    obtain ⟨s', -, hf⟩ := exec_perform.mp hlist
    obtain ⟨rfl, hl⟩ := exec_listObjects (exec_perform.mpr hf)
    cases a with
    | error e =>
      obtain ⟨h, -⟩ := hrest
      cases h
    | ok l =>
      obtain ⟨h, rfl⟩ := hrest
      cases h
      exact ⟨sel, hsel, hl _ rfl⟩

/-- Without a request for manual reconciliation a Job is created only when the
labels of a new one find none. -/
theorem exec_reconcileDelete {opts : Opts p} {r : Result p} (hman : opts.isManual = false)
    (he : Exec (disturbed env id) (reconcileDelete env opts) s r t) :
    SameJobs id s t ∨ ∃ pipeline rest u sel, opts.resources = pipeline :: rest ∧
      SameJobs id s u ∧ env.parseLabels pipeline.job.metadata.labels = some sel ∧
      u.cluster.listed .job opts.parentObject.metadata.ns sel = [] ∧
      AddsOne id pipeline.job s t := by
  unfold reconcileDelete at he
  cases hres : opts.resources with
  | nil =>
    rw [hres] at he
    obtain ⟨-, rfl⟩ := he
    exact Or.inl (.refl _)
  | cons pipeline rest =>
  rw [hres] at he
  obtain ⟨a, u, hlist, hrest⟩ := exec_bind.mp he
  have hu := exec_sameJobs (obeys_getJobsWithLabels _ _) hlist
  cases a with
  | error e =>
    obtain ⟨-, rfl⟩ := hrest
    exact Or.inl hu
  | ok jobs =>
  have hstop : ∀ {prog : Prog (Result p)}, (∃ x, prog = pure x) →
      Exec (disturbed env id) prog u r t → SameJobs id s t := by
    rintro prog ⟨x, rfl⟩ ⟨-, rfl⟩
    exact hu
  cases hhead : (newestFirst jobs).head? with
  | some job =>
    refine Or.inl ?_
    simp only [hhead, hman, Bool.false_eq_true, if_false] at hrest
    split at hrest
    · exact hstop ⟨_, rfl⟩ hrest
    · split at hrest
      · exact hstop ⟨_, rfl⟩ hrest
      · split at hrest <;> exact hstop ⟨_, rfl⟩ hrest
  | none =>
    refine Or.inr ?_
    obtain ⟨sel, hsel, hjobs⟩ := exec_getJobsWithLabels_disturbed hlist
    rw [Sorting.head?_descending_eq_none.mp hhead] at hjobs
    simp only [hhead, createDeletePipeline, consumeManualReconciliation, hman,
      Bool.false_eq_true, if_false] at hrest
    obtain ⟨b, v, hmanual, happly⟩ := exec_bind.mp hrest
    obtain ⟨rfl, rfl⟩ := hmanual
    obtain ⟨_, w, happly, hlast⟩ := exec_bind.mp happly
    obtain ⟨-, rfl⟩ := hlast
    have hobjs : ∀ o ∈ pipeline.getObjects, o.1 ≠ .job := by
      intro o ho hk
      have := isShared_of_mem_getObjects ho
      rw [hk] at this
      cases this
    exact ⟨pipeline, rest, v, sel, rfl, hu, hsel, hjobs.symm,
      (exec_applyResources_disturbed hobjs happly).before hu⟩

/-- Labels that the parent's Job carries find it. -/
theorem mem_listed_of_fromSet {labels : Labels} {ns : String} {sel : Selector} {j : Job}
    (hj : j ∈ s.cluster.objects .job) (hne : labels ≠ ∅)
    (hfrom : Selector.fromSet labels j.metadata.labels = true)
    (hns : ns = "" ∨ j.metadata.ns = ns) (hsel : env.parseLabels labels = some sel) :
    j ∈ s.cluster.listed .job ns sel := by
  have hvalid := valid_of_fromSet (s.cluster.labels_valid .job j hj) hfrom
  rw [env.parseLabels_of_valid hne hvalid] at hsel
  cases hsel
  exact Cluster.mem_listed.mpr ⟨hj, hns, hfrom⟩

theorem pipelineJobLabels_ne_empty (f : PipelineFactory) (sha : String) :
    f.pipelineJobLabels sha ≠ ∅ := by
  intro h
  have hlookup := congrArg (AList.lookup Label.promiseName) h
  rw [PipelineFactory.pipelineJobLabels, Labels.lookup_merge, PipelineFactory.lookup_promiseName,
    AList.lookup_empty] at hlookup
  cases hl : f.pipeline.labels.lookup Label.promiseName <;> rw [hl] at hlookup <;> cases hlookup

/-- What one call does: the parent keeps its Jobs, or it gets one more, and then
it has no Job that carries the labels of the new one. -/
theorem DeleteCall.exec {x : DeleteCall id} {r : Result p} (hman : x.isManual = false)
    (he : Exec (disturbed env id) (x.delete env) s r t) :
    SameJobs id s t ∨ ∃ job labels, x.jobLabels env = some labels ∧ AddsOne id job s t ∧
      job.metadata.labels = labels ∧ (id.ns = "" ∨ job.metadata.ns = id.ns) ∧
      ∀ j ∈ s.cluster.objects .job, Owned id j → (id.ns = "" ∨ j.metadata.ns = id.ns) →
        Selector.fromSet labels j.metadata.labels = false := by
  obtain ⟨a, u, hgen, hrest⟩ := exec_bind.mp he
  have hu := exec_sameJobs (obeys_generateResources _) hgen
  cases a with
  | error e =>
    obtain ⟨-, rfl⟩ := hrest
    exact Or.inl hu
  | ok resources =>
  have hman' : (x.opts resources).isManual = false := hman
  rcases exec_reconcileDelete hman' hrest with hsame |
    ⟨pipeline, rest, v, sel, hres, hv, hsel, hnone, hadds⟩
  · exact Or.inl (hu.trans hsame)
  have hres : resources = pipeline :: rest := hres
  have hnamed := exec_generateResources_named hgen
  rw [hres] at hnamed
  cases hpipes : x.pipelines with
  | nil =>
    rw [hpipes] at hnamed
    cases hnamed
  | cons q qs =>
  rw [hpipes] at hnamed
  obtain ⟨⟨isLast, uuid, hok⟩, -⟩ := List.forall₂_cons.mp hnamed
  have hjob := (resourcesNamed_ok hok).2
  refine Or.inr ⟨pipeline.job, (x.factory q).pipelineJobLabels ((x.factory q).objHash env), ?_,
    hadds.before hu, by rw [hjob]; rfl, ?_, fun j hj ho hns => ?_⟩
  · rw [DeleteCall.jobLabels, hpipes]
    rfl
  · rw [hjob]
    exact x.factory_ns q
  · by_contra hfrom
    obtain ⟨j', hj', -, halike⟩ := (hu.trans hv).kept j hj ho
    have hmem : j' ∈ v.cluster.listed .job id.ns sel := by
      refine mem_listed_of_fromSet hj' (pipelineJobLabels_ne_empty (x.factory q) _) ?_
        (halike.ns ▸ hns) (by rw [hjob] at hsel; exact hsel)
      rw [halike.labels]
      simpa using hfrom
    have hns' : (x.opts resources).parentObject.metadata.ns = id.ns := x.parent_ns
    rw [hns'] at hnone
    rw [hnone] at hmem
    cases hmem

/-! ### Runs -/

/-- The cluster, and the Jobs that the calls have created. -/
structure DeleteState (id : Identity p) where
  world : World
  log : List Job

/-- The Jobs of the parent that it did not have before. -/
def newOwned (id : Identity p) (s t : World) : List Job :=
  (t.cluster.objects .job).filter fun j => decide (Owned id j) &&
    !(s.cluster.objects .job).any fun i => decide (Owned id i) && i.created == j.created

/-- A step of a run whose calls satisfy `ok`. -/
inductive DeleteStep (env : Externals) (id : Identity p)
    (ok : DeleteState id → DeleteCall id → Prop) : DeleteState id → DeleteState id → Prop
  | call {s : DeleteState id} {t : World} (x : DeleteCall id) (r : Result p) (hok : ok s x)
      (stored : s.world.cluster.find (.parent p) x.parent.key = some x.parent)
      (exec : Exec (disturbed env id) (x.delete env) s.world r t) :
      DeleteStep env id ok s ⟨t, s.log ++ newOwned id s.world t⟩
  | environment {s : DeleteState id} {t : World} (h : Unattended id s.world t) :
      DeleteStep env id ok s ⟨t, s.log⟩

/-- States reached from one in which no delete Job has been created. -/
def DeleteReachable (env : Externals) (id : Identity p)
    (ok : DeleteState id → DeleteCall id → Prop) (s : DeleteState id) : Prop :=
  ∃ s₀, s₀.log = [] ∧ Relation.ReflTransGen (DeleteStep env id ok) s₀ s

/-- The Job is one of those that the calls have created. -/
def DeleteState.Logged (s : DeleteState id) (j : Job) : Prop :=
  ∃ i ∈ s.log, i.created = j.created

/-- The labels of a Job that the call would create select the Jobs created before. -/
def Recognises (env : Externals) (s : DeleteState id) (x : DeleteCall id) : Prop :=
  ∀ i ∈ s.log, ∀ labels, x.jobLabels env = some labels →
    Selector.fromSet labels i.metadata.labels = true

/-- At most one Job has been created, and it can be found. -/
structure OneJob (s : DeleteState id) : Prop where
  same : ∀ i ∈ s.log, ∀ j ∈ s.log, i.created = j.created
  present : ∀ i ∈ s.log, (id.ns = "" ∨ i.metadata.ns = id.ns) ∧
    ∃ j ∈ s.world.cluster.objects .job, Owned id j ∧ Alike i j

theorem newOwned_of_sameJobs (h : SameJobs id s t) : newOwned id s t = [] := by
  refine List.filter_eq_nil_iff.mpr fun j' hj' hnew => ?_
  simp only [Bool.and_eq_true, decide_eq_true_eq, Bool.not_eq_true', List.any_eq_false,
    beq_iff_eq, not_and] at hnew
  obtain ⟨j, hj, ho, ha⟩ := h.stems j' hj' hnew.1
  exact hnew.2 j hj ho ha.created.symm

theorem mem_newOwned {j : Job} (h : j ∈ newOwned id s t) :
    j ∈ t.cluster.objects .job ∧ Owned id j ∧
      ∀ i ∈ s.cluster.objects .job, Owned id i → i.created ≠ j.created := by
  obtain ⟨hj, hnew⟩ := List.mem_filter.mp h
  simpa [hj] using hnew

theorem AddsOne.newOwned {job : Job} (h : AddsOne id job s t) :
    ∃ time, ∀ j ∈ newOwned id s t, j.created = time ∧
      j.metadata.labels = job.metadata.labels ∧ j.metadata.ns = job.metadata.ns := by
  obtain ⟨time, htime⟩ := h
  refine ⟨time, fun j hj => ?_⟩
  obtain ⟨hmem, ho, hne⟩ := mem_newOwned hj
  rcases htime j hmem ho with ⟨i, hi, hoi, hc⟩ | hnew
  · exact absurd hc.symm (hne i hi hoi)
  · exact hnew

theorem OneJob.sameJobs {log : List Job} (h : OneJob (⟨s, log⟩ : DeleteState id))
    (hs : SameJobs id s t) : OneJob (⟨t, log⟩ : DeleteState id) where
  same := h.same
  present := by
    intro i hi
    obtain ⟨hns, j, hj, ho, ha⟩ := h.present i hi
    obtain ⟨j', hj', ho', ha'⟩ := hs.kept j hj ho
    exact ⟨hns, j', hj', ho', ha.trans ha'⟩

/-- The calls of a run: not manual, and they recognise the Jobs created before. -/
def Recognising (env : Externals) (s : DeleteState id) (x : DeleteCall id) : Prop :=
  x.isManual = false ∧ Recognises env s x

theorem OneJob.call {s : DeleteState id} {x : DeleteCall id} {r : Result p} (h : OneJob s)
    (hok : Recognising env s x) (he : Exec (disturbed env id) (x.delete env) s.world r t) :
    OneJob (⟨t, s.log ++ newOwned id s.world t⟩ : DeleteState id) ∧
      (s.log ≠ [] → newOwned id s.world t = []) := by
  rcases DeleteCall.exec hok.1 he with hsame | ⟨job, labels, hl, hadds, hjl, hns, hnone⟩
  · rw [newOwned_of_sameJobs hsame, List.append_nil]
    exact ⟨h.sameJobs hsame, fun _ => rfl⟩
  have hempty : s.log = [] := by
    refine List.eq_nil_iff_forall_not_mem.mpr fun i hi => ?_
    obtain ⟨hins, j, hj, ho, ha⟩ := h.present i hi
    have hfrom := hnone j hj ho (ha.ns ▸ hins)
    rw [ha.labels, hok.2 i hi labels hl] at hfrom
    cases hfrom
  obtain ⟨time, htime⟩ := hadds.newOwned
  refine ⟨⟨?_, ?_⟩, fun hne => absurd hempty hne⟩
  · simp only [hempty, List.nil_append]
    exact fun i hi j hj => (htime i hi).1.trans (htime j hj).1.symm
  · simp only [hempty, List.nil_append]
    intro j hj
    obtain ⟨hmem, ho, -⟩ := mem_newOwned hj
    exact ⟨(htime j hj).2.2 ▸ hns, j, hmem, ho, .refl j⟩

theorem OneJob.step {s s' : DeleteState id} (h : OneJob s)
    (hst : DeleteStep env id (Recognising env) s s') :
    OneJob s' ∧ (s.log ≠ [] → s'.log = s.log) := by
  cases hst with
  | environment hu => exact ⟨h.sameJobs hu.sameJobs, fun _ => rfl⟩
  | call x r hok stored he =>
    obtain ⟨hone, hnew⟩ := h.call hok he
    exact ⟨hone, fun hne => by rw [hnew hne, List.append_nil]⟩

theorem OneJob.run {s s' : DeleteState id} (h : OneJob s)
    (hrun : Relation.ReflTransGen (DeleteStep env id (Recognising env)) s s') :
    OneJob s' ∧ (s.log ≠ [] → s'.log = s.log) := by
  induction hrun with
  | refl => exact ⟨h, fun _ => rfl⟩
  | tail _ hst ih =>
    obtain ⟨hone, hlog⟩ := ih.1.step hst
    exact ⟨hone, fun hne => (hlog (ih.2 hne ▸ hne)).trans (ih.2 hne)⟩

theorem oneJob_of_reachable {s : DeleteState id} (hs : DeleteReachable env id (Recognising env) s) :
    OneJob s := by
  obtain ⟨s₀, h₀, hrun⟩ := hs
  have hone : OneJob s₀ := ⟨by simp [h₀], by simp [h₀]⟩
  exact (hone.run hrun).1

/-! ### A Promise whose specification changes while it is being deleted -/

/-- A Promise with one delete pipeline, about to be removed. -/
def doomedPromise (podSpec : String) : Promise where
  metadata := { name := "redis", finalizers := [Finalizer.runDeleteWorkflows], deleting := true }
  spec := {
    workflows := {
      promise := {
        configure := [{ name := "install", podSpec := podSpec }]
        delete := [plainPipeline "remove"] } } }
  status := {}

def doomedCall (podSpec : String) : DeleteCall sampleIdentity where
  promise := doomedPromise podSpec
  parent := doomedPromise podSpec
  numberOfJobsToKeep := 5
  deleting := rfl
  parent_ns := rfl
  parent_name := rfl
  parent_uid := rfl
  promise_name := rfl
  promise_self := by
    rintro o h
    cases h
    exact ⟨rfl, rfl⟩

/-- The Promise has been installed, and its deletion requested. -/
def doomedWorld : World where
  cluster :=
    let installed := (Cluster.empty scheme).add (.parent .promise) (doomedPromise "v1")
      (fun _ he => absurd he List.not_mem_nil) (by simp [Cluster.empty])
    (serve (.delete (Kind.parent .promise) "" "redis") installed).2

theorem Unattended.of_eq (hclock : s.cluster.clock ≤ t.cluster.clock)
    (h : t.cluster.objects .job = s.cluster.objects .job) : Unattended id s t where
  clock := hclock
  kept := fun j hj _ => ⟨j, h ▸ hj, .refl j⟩
  stems := fun j hj ho => ⟨j, h ▸ hj, ho, .refl j⟩

theorem disturbed_of_serveCall (call : Call) (s : World) (r : call.Answer) (t : World)
    (h : serveCall env call s = some (r, t)) : disturbed env id call s r t :=
  ⟨s, .of_eq le_rfl rfl, faulty_of_serveCall call s r t h⟩

/-- The logged Jobs are exactly those that may run. -/
def DeleteState.AllRun (s : DeleteState id) : Prop :=
  ((s.world.cluster.objects .job).filter fun j => decide (MayRun j)).map Object.created =
    s.log.map Object.created

instance (s : DeleteState id) : Decidable s.AllRun := inferInstanceAs (Decidable (_ = _))

theorem DeleteState.AllRun.of_mem {s : DeleteState id} (h : s.AllRun) {i : Job} (hi : i ∈ s.log) :
    ∃ j ∈ s.world.cluster.objects .job, MayRun j ∧ i.created = j.created := by
  have hmem : i.created ∈ s.log.map Object.created := List.mem_map_of_mem hi
  rw [← h] at hmem
  obtain ⟨j, hj, hc⟩ := List.mem_map.mp hmem
  obtain ⟨hj, hrun⟩ := List.mem_filter.mp hj
  exact ⟨j, hj, of_decide_eq_true hrun, hc.symm⟩

/-- One call, a change of the configure pipeline, and one more call. -/
theorem exists_doomed_run : ∃ (env : Externals) (s₁ s₂ s₃ : World) (r₁ r₂ : Result .promise)
    (updated : Except ApiError Promise),
    Exec (disturbed env sampleIdentity) ((doomedCall "v1").delete env) doomedWorld r₁ s₁ ∧
    Exec (faulty env) (updateObject (.parent .promise) (doomedPromise "v2")) s₁ updated s₂ ∧
    Exec (disturbed env sampleIdentity) ((doomedCall "v2").delete env) s₂ r₂ s₃ ∧
    s₂.cluster.find (.parent .promise) ("", "redis") = some (doomedPromise "v2") ∧
    (newOwned sampleIdentity doomedWorld s₁).length = 1 ∧
    (newOwned sampleIdentity s₂ s₃).length = 1 ∧
    DeleteState.AllRun (⟨s₃, newOwned sampleIdentity doomedWorld s₁ ++
      newOwned sampleIdentity s₂ s₃⟩ : DeleteState sampleIdentity) := by
  have heval : ((eval (serveCall plainExternals) ((doomedCall "v1").delete plainExternals)
      doomedWorld).any fun out₁ =>
        (eval (serveCall plainExternals)
          (updateObject (.parent .promise) (doomedPromise "v2")) out₁.2).any fun out₂ =>
            (eval (serveCall plainExternals)
              ((doomedCall "v2").delete plainExternals) out₂.2).any fun out₃ => decide (
                out₂.2.cluster.find (.parent .promise) ("", "redis") =
                  some (doomedPromise "v2") ∧
                (newOwned sampleIdentity doomedWorld out₁.2).length = 1 ∧
                (newOwned sampleIdentity out₂.2 out₃.2).length = 1 ∧
                DeleteState.AllRun (⟨out₃.2, newOwned sampleIdentity doomedWorld out₁.2 ++
                  newOwned sampleIdentity out₂.2 out₃.2⟩ : DeleteState sampleIdentity))) =
      true := by
    decide +kernel
  obtain ⟨env, henv⟩ : ∃ env, plainExternals = env := ⟨_, rfl⟩
  rw [henv] at heval
  obtain ⟨r₁, s₁, hcall₁, heval⟩ :=
    exists_exec_of_eval (h := disturbed env sampleIdentity) disturbed_of_serveCall heval
  obtain ⟨updated, s₂, hupd, heval⟩ :=
    exists_exec_of_eval (h := faulty env) faulty_of_serveCall heval
  obtain ⟨r₂, s₃, hcall₂, heval⟩ :=
    exists_exec_of_eval (h := disturbed env sampleIdentity) disturbed_of_serveCall heval
  exact ⟨env, s₁, s₂, s₃, r₁, r₂, updated, hcall₁, hupd, hcall₂, of_decide_eq_true heval⟩

theorem find_doomedWorld : doomedWorld.cluster.find (.parent .promise) ("", "redis") =
    some (doomedPromise "v1") := by
  decide +kernel

/-- In every run whose calls recognise the Jobs created before, at most one
delete Job runs, and none is created after one has succeeded. -/
theorem single_delete_run {s : DeleteState id} (hs : DeleteReachable env id (Recognising env) s) :
    (∀ j ∈ s.world.cluster.objects .job, ∀ j' ∈ s.world.cluster.objects .job,
      s.Logged j → s.Logged j' → MayRun j → MayRun j' → j = j') ∧
    ((∃ j ∈ s.world.cluster.objects .job, s.Logged j ∧ 0 < j.status.succeeded) →
      ∀ s', Relation.ReflTransGen (DeleteStep env id (Recognising env)) s s' →
        s'.log = s.log) := by
  have hone := oneJob_of_reachable hs
  constructor
  · rintro j hj j' hj' ⟨i, hi, hc⟩ ⟨i', hi', hc'⟩ - -
    exact s.world.cluster.eq_of_created hj hj' (hc.symm.trans ((hone.same i hi i' hi').trans hc'))
  · rintro ⟨j, -, ⟨i, hi, -⟩, -⟩ s' hrun
    exact (hone.run hrun).2 (List.ne_nil_of_mem hi)

/-- After the first call, its Job is the only delete Job that runs. -/
theorem single_delete_run_sample : ∃ (env : Externals) (s : DeleteState sampleIdentity),
    DeleteReachable env sampleIdentity (Recognising env) s ∧ s.log.length = 1 ∧
      ∀ j ∈ s.world.cluster.objects .job, ∀ j' ∈ s.world.cluster.objects .job,
        s.Logged j → s.Logged j' → MayRun j → MayRun j' → j = j' := by
  obtain ⟨env, s₁, s₂, s₃, r₁, r₂, updated, hcall, -, -, -, hlen, -⟩ := exists_doomed_run
  have hok : Recognising env (⟨doomedWorld, []⟩ : DeleteState sampleIdentity) (doomedCall "v1") :=
    ⟨by decide, by simp [Recognises]⟩
  have hs : DeleteReachable env sampleIdentity (Recognising env)
      ⟨s₁, [] ++ newOwned sampleIdentity doomedWorld s₁⟩ :=
    ⟨⟨doomedWorld, []⟩, rfl, .single (.call (doomedCall "v1") r₁ hok find_doomedWorld hcall)⟩
  exact ⟨env, _, hs, hlen, (single_delete_run hs).1⟩

/-- The configure pipeline changes after the first call. The second one looks for a
Job with another hash and starts a second Job, while the first is running. -/
theorem two_delete_jobs_run : ∃ (env : Externals) (s : DeleteState sampleIdentity),
    DeleteReachable env sampleIdentity (fun _ x => x.isManual = false) s ∧
      ∃ j ∈ s.world.cluster.objects .job, ∃ j' ∈ s.world.cluster.objects .job,
        s.Logged j ∧ s.Logged j' ∧ MayRun j ∧ MayRun j' ∧ j ≠ j' := by
  obtain ⟨env, s₁, s₂, s₃, r₁, r₂, updated, hcall₁, hupd, hcall₂, hstored, hlen₁, hlen₂, hrun⟩ :=
    exists_doomed_run
  have hkind : Kind.parent .promise ≠ .job := by simp
  have hsame := exec_objects (spares_updateObject hkind _) hupd
  obtain ⟨i₁, hi₁⟩ := List.exists_mem_of_length_pos (by omega : 0 < (newOwned sampleIdentity
    doomedWorld s₁).length)
  obtain ⟨i₂, hi₂⟩ := List.exists_mem_of_length_pos (by omega : 0 < (newOwned sampleIdentity
    s₂ s₃).length)
  obtain ⟨j₁, hj₁, hrun₁, hc₁⟩ := hrun.of_mem (List.mem_append_left _ hi₁)
  obtain ⟨j₂, hj₂, hrun₂, hc₂⟩ := hrun.of_mem (List.mem_append_right _ hi₂)
  have hne : j₁ ≠ j₂ := by
    -- the second Job is new: the first was there before
    rintro rfl
    obtain ⟨hmem, ho, -⟩ := mem_newOwned hi₁
    rw [← hsame] at hmem
    exact (mem_newOwned hi₂).2.2 i₁ hmem ho (hc₁.trans hc₂.symm)
  refine ⟨env, ⟨s₃, newOwned sampleIdentity doomedWorld s₁ ++ newOwned sampleIdentity s₂ s₃⟩,
    ⟨⟨doomedWorld, []⟩, rfl, ?_⟩, j₁, hj₁, j₂, hj₂, ⟨i₁, List.mem_append_left _ hi₁, hc₁⟩,
    ⟨i₂, List.mem_append_right _ hi₂, hc₂⟩, hrun₁, hrun₂, hne⟩
  refine .head (.call (doomedCall "v1") r₁ (by decide) find_doomedWorld hcall₁) ?_
  refine .head (.environment (.of_eq (exec_clock hupd) hsame)) ?_
  exact .single (.call (doomedCall "v2") r₂ (by decide) hstored hcall₂)

end Kratix.Workflow
