import Kratix.Lib.Rounds
import Kratix.Workflow.SingleRun

/-!
# The log of created Jobs

When the pipelines leave the identifying labels alone and no other Job carries
them, the Jobs in the cluster tell the end of the log: the most recent Job is
the last one created, its labels name the pipeline and the hash of the call
that created it, and each entry of the log starts a round or continues the one
before it.
-/

namespace Kratix.Workflow

open Apiserver Effect

variable {env : Externals} {p : ParentKind} {id : Identity p} {x : Trigger id}

/-! ### Jobs that have completed -/

/-- The Job has finished and was neither failed nor suspended. -/
def Completed (j : Job) : Prop :=
  j.status.active = 0 ∧ (∃ c ∈ j.status.conditions, c.1 = .complete) ∧
    ∀ c ∈ j.status.conditions, c.1 ≠ .failed ∧ c.1 ≠ .suspended

theorem completed_iff {j : Job} : Completed j ↔ isRunning j = false ∧ isFailed j = false := by
  simp only [Completed, isRunning, isFailed, Bool.or_eq_false_iff, decide_eq_false_iff_not, not_lt,
    Nat.le_zero, Bool.not_eq_false', List.any_eq_true, Bool.or_eq_true, beq_iff_eq,
    List.any_eq_false, not_or]
  constructor
  · rintro ⟨hactive, ⟨c, hc, hcomplete⟩, hnot⟩
    exact ⟨⟨hactive, c, hc, Or.inl (Or.inl hcomplete)⟩, hnot⟩
  · rintro ⟨⟨hactive, c, hc, hdone⟩, hnot⟩
    refine ⟨hactive, ⟨c, hc, ?_⟩, hnot⟩
    rcases hdone with (h | h) | h
    · exact h
    · exact absurd h (hnot c hc).2
    · exact absurd h (hnot c hc).1

/-! ### What the labels of a Job tell -/

/-- The pipelines of the call leave the identifying labels alone. -/
def KeepsIdentifying (env : Externals) (x : Trigger id) : Prop :=
  ∀ q ∈ x.pipelines, (x.factory q).KeepsLabels (x.hash env) PipelineFactory.identifyingKeys

theorem KeepsIdentifying.value {q : Pipeline} (h : KeepsIdentifying env x) (hq : q ∈ x.pipelines) :
    ((x.factory q).pipelineJobLabels (x.hash env)).value Label.resourceHash = x.hash env ∧
      ((x.factory q).pipelineJobLabels (x.hash env)).value Label.pipelineName = q.name := by
  have hkeys := h q hq
  constructor
  · rw [Labels.value, hkeys.lookup (by decide)]
    exact PipelineFactory.value_resourceHash
  · rw [Labels.value, hkeys.lookup (by decide)]
    exact PipelineFactory.value_pipelineName.trans (congrArg _ (x.factory_pipeline q))

theorem KeepsIdentifying.isFor {q : Pipeline} {job : Job} (h : KeepsIdentifying env x)
    (hq : q ∈ x.pipelines) (hfor : x.IsFor env q job) :
    job.metadata.labels.value Label.resourceHash = x.hash env ∧
      job.metadata.labels.value Label.pipelineName = q.name :=
  ⟨(hfor _ (by decide)).trans (h.value hq).1, (hfor _ (by decide)).trans (h.value hq).2⟩

/-- The labels by which old Jobs of a pipeline are found. -/
def Identity.cleanupLabels (id : Identity p) (pipelineName : String) : Labels :=
  let labels := Labels.ofList [(Label.promiseName, id.promiseName)]
  let resourceName := id.resourceName.getD ""
  (if resourceName = "" then labels else labels.insert Label.resourceName resourceName).insert
    Label.pipelineName pipelineName

theorem lookup_cleanupLabels (id : Identity p) (name key : String) :
    (id.cleanupLabels name).lookup key =
      if key = Label.pipelineName then some name
      else if key = Label.resourceName ∧ id.resourceName.getD "" ≠ "" then
        some (id.resourceName.getD "")
      else if key = Label.promiseName then some id.promiseName else none := by
  unfold Identity.cleanupLabels
  by_cases h : id.resourceName.getD "" = "" <;>
    simp [h, Labels.lookup_insert, Labels.lookup_ofList_cons]

theorem valid_cleanupLabels {id : Identity p} (hsel : id.selectorLabels.Valid) {name : String}
    (hname : isValidLabelValue name = true) : (id.cleanupLabels name).Valid := by
  rw [Labels.valid_iff] at hsel ⊢
  have hpromise := hsel Label.promiseName id.promiseName (by
    cases p <;> simp [Identity.selectorLabels, Identity.promiseName, Labels.lookup_ofList_cons,
      Label.promiseName, Label.workflowType, Label.resourceName])
  intro key v hv
  rw [lookup_cleanupLabels] at hv
  split_ifs at hv with h₁ h₂ h₃
  · cases hv
    rw [h₁]
    exact ⟨by decide +kernel, hname⟩
  · cases hv
    rw [h₂.1]
    cases p with
    | promise => exact absurd rfl h₂.2
    | resource n =>
      exact hsel _ _ (by simp [Identity.selectorLabels, Identity.resourceName,
        Labels.lookup_ofList_cons, Label.workflowType, Label.resourceName])
  · cases hv
    rw [h₃]
    exact hpromise

theorem KeepsIdentifying.cleanupLabels_eq {q : Pipeline} {res : PipelineJobResources}
    (h : KeepsIdentifying env x) (hq : q ∈ x.pipelines) (hm : Makes env x q res.job)
    (hname : res.name = q.name) : cleanupLabels res = id.cleanupLabels q.name := by
  have hkeys := h q hq
  have hpromise : res.job.metadata.labels.value Label.promiseName = id.promiseName := by
    rw [hm.labels, Labels.value, hkeys.lookup (by decide), PipelineFactory.lookup_promiseName,
      x.factory_promiseName]
    rfl
  have hresource : res.job.metadata.labels.value Label.resourceName = id.resourceName.getD "" := by
    rw [hm.labels, Labels.value, hkeys.lookup (by decide), PipelineFactory.lookup_resourceName,
      x.factory_resourceName]
  simp only [cleanupLabels, labelsForAllPipelineJobs, hpromise, hresource, hname,
    Identity.cleanupLabels]

/-- Cleaning up finds no Job of another owner. -/
def OnlyOwnOld (env : Externals) (x : Trigger id) (s : World) : Prop :=
  ∀ name ∈ x.names, ∀ jobs, Selected env (id.cleanupLabels name) id.jobNamespace s jobs →
    ∀ j ∈ jobs, Owned id j

/-- What is cleaned up has a newer Job of the same parent and pipeline. -/
theorem Superseded.newer {s : World} {resources : List PipelineJobResources} {job : Job}
    (h : Superseded env id.jobNamespace resources s job) (hp : Prepared env x s resources)
    (hkeys : KeepsIdentifying env x) (hown : OnlyOwnOld env x s)
    (hjob : job ∈ s.cluster.objects .job) :
    ∃ name ∈ x.names, ∃ sel, env.parseLabels (id.cleanupLabels name) = some sel ∧
      sel job.metadata.labels = true ∧ Owned id job ∧
      ∃ y ∈ s.cluster.objects .job, Owned id y ∧ sel y.metadata.labels = true ∧
        job.created < y.created := by
  obtain ⟨res, hres, sel, hsel, hmatch, y, hy, hmatch', hlt⟩ := h
  obtain ⟨q, hq, hname, hm, -⟩ := hp.mem hres
  rw [hkeys.cleanupLabels_eq hq hm hname] at hsel
  have hmem : q.name ∈ x.names := List.mem_map_of_mem hq
  have howned : ∀ z ∈ s.cluster.objects .job, Matches id.jobNamespace sel z → Owned id z :=
    fun z hz hmz => hown q.name hmem _ ⟨sel, hsel, rfl⟩ z (Cluster.mem_listed.mpr ⟨hz, hmz⟩)
  exact ⟨q.name, hmem, sel, hsel, hmatch.2, howned job hjob hmatch, y, hy, howned y hy hmatch',
    hmatch'.2, hlt⟩

/-! ### The invariant -/

/-- The stored Job is the created one, in a later state. -/
structure Same (j stored : Job) : Prop where
  labels : stored.metadata.labels = j.metadata.labels
  created : stored.created = j.created
  pipelineName : stored.spec.pipelineName = j.spec.pipelineName

theorem Same.evolves {i j j' : Job} (h : Same i j) (he : Evolves j j') : Same i j' :=
  ⟨he.labels.trans h.labels, he.created.trans h.created, he.pipelineName.trans h.pipelineName⟩

/-- An entry that continues a round: its predecessor is of the pipeline before
it, at the same hash, and had completed. -/
structure Follows (env : Externals) (e e' : Entry id) : Prop where
  hash : e.trigger.hash env = e'.trigger.hash env
  names : e.trigger.names = e'.trigger.names
  completed : ∃ j ∈ e'.before, j.created = e.job.created ∧ Completed j

/-- The labels of a created Job name its pipeline and the hash of its call. -/
structure WellLabelled (env : Externals) (e : Entry id) : Prop where
  hash : e.job.metadata.labels.value Label.resourceHash = e.trigger.hash env
  pipelineName : e.job.metadata.labels.value Label.pipelineName = e.job.spec.pipelineName
  mem : e.job.spec.pipelineName ∈ e.trigger.names

structure Logged (env : Externals) (s : RunState id) : Prop where
  findable : AllFindable id s.world
  known : ∀ j ∈ s.world.cluster.objects .job, Owned id j → ∃ e ∈ s.log, Same e.job j
  present : ∀ e, s.log.getLast? = some e →
    ∃ j ∈ s.world.cluster.objects .job, Owned id j ∧ Same e.job j
  labelled : ∀ e ∈ s.log, WellLabelled env e
  ascending : s.log.Pairwise fun e e' => e.job.created < e'.job.created
  past : ∀ e ∈ s.log, e.job.created < s.world.cluster.clock
  rounds : s.log.IsChain (Rounds.Continues Entry.index (Follows env))
  start : ∀ e ∈ s.log.head?, e.index = 0

/-- What a call needs for following its run by the Jobs: the identifying labels
are left alone, no other Job carries them, and the hash tells different lists
of pipelines apart. -/
structure Traceable (env : Externals) (s : RunState id) (x : Trigger id) : Prop where
  keeps : KeepsIdentifying env x
  own : OnlyOwn env id s.world
  ownOld : OnlyOwnOld env x s.world
  distinct : ∀ e ∈ s.log, e.trigger.hash env = x.hash env → e.trigger.names = x.names

namespace Logged

variable {s : RunState id} {t : World}

theorem le_last (h : Logged env s) {e l : Entry id} (he : e ∈ s.log)
    (hl : s.log.getLast? = some l) : e.job.created ≤ l.job.created := by
  obtain ⟨ys, hys⟩ := List.getLast?_eq_some_iff.mp hl
  have hasc := h.ascending
  rw [hys] at he hasc
  rcases List.mem_append.mp he with he | he
  · exact ((List.pairwise_append.mp hasc).2.2 e he l (by simp)).le
  · rw [List.mem_singleton.mp he]

theorem eq_of_created (h : Logged env s) {e e' : Entry id} (he : e ∈ s.log) (he' : e' ∈ s.log)
    (hc : e.job.created = e'.job.created) : e = e' := by
  have hnd : (s.log.map fun e => e.job.created).Nodup :=
    List.pairwise_map.mpr (h.ascending.imp fun hlt => hlt.ne)
  exact List.inj_on_of_nodup_map hnd he he' hc

/-- The most recent Job that a call sees is the one of the last entry. -/
theorem newest (h : Logged env s) (hown : OnlyOwn env id s.world) {j : Job}
    (hnew : Newest env id s.world (some j)) : ∃ l, s.log.getLast? = some l ∧ Same l.job j := by
  obtain ⟨e, he, hsame⟩ := h.known j hnew.mem (hnew.owned hown)
  have hl := List.getLast?_eq_some_getLast (List.ne_nil_of_mem he)
  set l := s.log.getLast (List.ne_nil_of_mem he)
  obtain ⟨i, hi, hoi, hsame'⟩ := h.present l hl
  obtain ⟨j', hj', hle⟩ := hnew.ge h.findable hi hoi
  cases hj'
  have hel := h.le_last he hl
  have heq : e.job.created = l.job.created := by
    have h₁ := hsame.created
    have h₂ := hsame'.created
    omega
  rw [h.eq_of_created he (List.mem_of_getLast? hl) heq] at hsame
  exact ⟨l, hl, hsame⟩

theorem newest_ge (h : Logged env s) {j : Job}
    (hnew : Newest env id s.world (some j)) {j' : Job} (hj' : j' ∈ s.world.cluster.objects .job)
    (ho' : Owned id j') : j'.created ≤ j.created := by
  obtain ⟨i, hi, hle⟩ := hnew.ge h.findable hj' ho'
  cases hi
  exact hle

/-- A step that creates no Job and keeps the newest one. -/
theorem carried {doomed : Job → Prop} (h : Logged env s) (hc : Carried id doomed s.world t)
    (hclock : s.world.cluster.clock ≤ t.cluster.clock)
    (hdoomed : ∀ j ∈ s.world.cluster.objects .job, Owned id j → doomed j →
      ∃ j' ∈ s.world.cluster.objects .job, Owned id j' ∧ j.created < j'.created) :
    Logged env (⟨t, s.log⟩ : RunState id) where
  findable := h.findable.carried hc
  known := by
    intro j' hj' ho'
    obtain ⟨j, hj, hev⟩ := hc.descends j' hj' ho'
    obtain ⟨e, he, hsame⟩ := h.known j hj (hev.owned.mp ho')
    exact ⟨e, he, hsame.evolves hev⟩
  present := by
    intro l hl
    obtain ⟨j, hj, ho, hsame⟩ := h.present l hl
    have hnot : ¬ doomed j := by
      intro hd
      obtain ⟨i, hi, hoi, hlt⟩ := hdoomed j hj ho hd
      obtain ⟨e, he, hsame'⟩ := h.known i hi hoi
      have hle := h.le_last he hl
      have h₁ := hsame.created
      have h₂ := hsame'.created
      omega
    obtain ⟨j', hj', hev⟩ := hc.survives j hj ho hnot
    exact ⟨j', hj', hev.owned.mpr ho, hsame.evolves hev⟩
  labelled := h.labelled
  ascending := h.ascending
  past := fun e he => (h.past e he).trans_le hclock
  rounds := h.rounds
  start := h.start

/-- The entry of a Job that belongs to a pipeline of the call by its labels. -/
theorem isFor (h : Logged env s) (hok : Traceable env s x) {i : ℕ} {q : Pipeline} {j : Job}
    {l : Entry id} (hl : l ∈ s.log) (hsame : Same l.job j) (hq : x.pipelines[i]? = some q)
    (hfor : x.IsFor env q j) : l.trigger.hash env = x.hash env ∧ l.trigger.names = x.names ∧
      j.spec.pipelineName = q.name ∧ l.index = i := by
  obtain ⟨hhash, hname⟩ := hok.keeps.isFor (List.mem_of_getElem? hq) hfor
  obtain ⟨hhash', hname', -⟩ := h.labelled l hl
  rw [hsame.labels] at hhash hname
  have hh : l.trigger.hash env = x.hash env := hhash'.symm.trans hhash
  have hn : l.job.spec.pipelineName = q.name := hname'.symm.trans hname
  refine ⟨hh, hok.distinct l hl hh, hsame.pipelineName.trans hn, ?_⟩
  rw [Entry.index, hn, hok.distinct l hl hh]
  exact x.idxOf_name hq

/-- Behind the first pipeline, a Job is only due right after the last entry. -/
theorem due (h : Logged env s) (hok : Traceable env s x) {last : Option Job} {i : ℕ}
    (hnew : Newest env id s.world last) (hfree : ∀ j ∈ last, isRunning j = false)
    (hdue : Due env x last i) (hpos : 0 < i) :
    ∃ j l q, last = some j ∧ s.log.getLast? = some l ∧ Same l.job j ∧ Completed j ∧
      x.isManual = false ∧ i = l.index + 1 ∧ x.pipelines[l.index]? = some q ∧ x.IsFor env q j := by
  rcases hdue with ⟨rfl, -⟩ | ⟨j, i', q, rfl, hman, rfl, hq, hfor, hfail⟩
  · omega
  obtain ⟨l, hl, hsame⟩ := h.newest hok.own hnew
  have hindex := (h.isFor hok (List.mem_of_getLast? hl) hsame hq hfor).2.2.2
  refine ⟨j, l, q, rfl, hl, hsame, completed_iff.mpr ⟨hfree j rfl, hfail⟩, hman, ?_, ?_, hfor⟩
  · rw [hindex]
  · rw [hindex, hq]

theorem added (h : Logged env s) (hok : Traceable env s x) {last : Option Job} {i : ℕ}
    {q : Pipeline} {job : Job} (hnew : Newest env id s.world last)
    (hq : x.pipelines[i]? = some q) (hm : Makes env x q job)
    (hfree : ∀ j ∈ last, isRunning j = false) (hdue : Due env x last i)
    (ha : Added job s.world t) (hclock : s.world.cluster.clock ≤ t.cluster.clock) :
    Logged env ⟨t, s.log ++ newEntries x s.world t⟩ := by
  have hmem := List.mem_of_getElem? hq
  have hfind := h.findable.added hm
    ((hok.keeps q hmem).mono PipelineFactory.selectingKeys_subset) ha
  rcases ha.cases (x := x) with ⟨hjobs, hnil⟩ | ⟨time, htime, hlt, -, hjobs, hentry⟩
  · rw [hnil, List.append_nil]
    exact h.carried (.of_eq hjobs) hclock (fun _ _ _ hd => hd.elim)
  set e : Entry id := ⟨x, job.stampedAt time, s.world.cluster.objects .job⟩ with he
  have hindex : e.index = i := by
    rw [Entry.index, he]
    exact (congrArg x.names.idxOf hm.pipelineName).trans (x.idxOf_name hq)
  have hlate : ∀ l ∈ s.log, l.job.created < e.job.created := fun l hl =>
    (h.past l hl).trans_le htime
  rw [hentry]
  refine ⟨hfind, ?_, ?_, ?_, ?_, ?_, ?_, ?_⟩
  · intro j hj ho
    rw [hjobs] at hj
    rcases List.mem_append.mp hj with hj | hj
    · obtain ⟨l, hl, hsame⟩ := h.known j hj ho
      exact ⟨l, List.mem_append_left _ hl, hsame⟩
    · cases List.mem_singleton.mp hj
      exact ⟨e, by simp, rfl, rfl, rfl⟩
  · intro l hl
    rw [List.getLast?_concat] at hl
    cases hl
    exact ⟨job.stampedAt time, by rw [hjobs]; simp, hm.owned, rfl, rfl, rfl⟩
  · intro l hl
    rcases List.mem_append.mp hl with hl | hl
    · exact h.labelled l hl
    · cases List.mem_singleton.mp hl
      have hlabels : e.job.metadata.labels = _ := hm.labels
      refine ⟨?_, ?_, ?_⟩
      · rw [hlabels]
        exact (hok.keeps.value hmem).1
      · rw [hlabels]
        exact (hok.keeps.value hmem).2.trans hm.pipelineName.symm
      · rw [show e.job.spec.pipelineName = q.name from hm.pipelineName]
        exact List.mem_map_of_mem hmem
  · exact List.pairwise_append.mpr ⟨h.ascending, List.pairwise_singleton _ _, fun l hl a ha => by
      cases List.mem_singleton.mp ha
      exact hlate l hl⟩
  · intro l hl
    rcases List.mem_append.mp hl with hl | hl
    · exact (h.past l hl).trans_le hclock
    · cases List.mem_singleton.mp hl
      exact hlt
  · refine List.isChain_append.mpr ⟨h.rounds, .singleton _, ?_⟩
    rintro l hl a ha
    cases ha
    intro hpos
    rw [hindex] at hpos ⊢
    obtain ⟨j, l', q', rfl, hl', hsame, hdone, -, hi, hq', hfor⟩ :=
      h.due hok hnew hfree hdue hpos
    rw [hl'] at hl
    cases hl
    obtain ⟨hhash, hnames, -, -⟩ := h.isFor hok (List.mem_of_getLast? hl') hsame hq' hfor
    exact ⟨hi, hhash, hnames, j, hnew.mem, hsame.created, hdone⟩
  · intro a ha
    cases hlog : s.log with
    | nil =>
      rw [hlog] at ha
      cases ha
      rw [hindex]
      by_contra hpos
      obtain ⟨-, l, -, -, hl, -⟩ := h.due hok hnew hfree hdue (Nat.pos_of_ne_zero hpos)
      rw [hlog] at hl
      cases hl
    | cons b rest =>
      rw [hlog] at ha
      exact h.start a (by rw [hlog]; exact ha)

theorem step {t : RunState id} (h : Logged env s) (hst : Step env id (Traceable env) s t) :
    Logged env t := by
  cases hst with
  | environment hu => exact h.carried hu.carried hu.clock (fun _ _ _ hd => hd.elim)
  | call x r hok hcall =>
    have hclock := exec_clock hcall.exec
    cases hcall.outcome with
    | carries jobs old unfinished =>
      rw [newEntries_eq_nil old, List.append_nil]
      exact h.carried jobs hclock (fun _ _ _ hd => hd.elim)
    | creates last i q job resources newest pipeline makes free due unfinished prepared jobs =>
      exact h.added hok newest pipeline makes free due jobs hclock
    | completes job q resources newest last isFor finished manual prepared jobs =>
      rw [jobs.newEntries_eq_nil, List.append_nil]
      refine h.carried jobs.carried hclock fun j hj _ hd => ?_
      obtain ⟨-, -, -, -, -, -, y, hy, hoy, -, hlt⟩ :=
        hd.newer prepared hok.keeps hok.ownOld hj
      exact ⟨y, hy, hoy, hlt⟩

theorem of_reachable (hs : Reachable env id (Traceable env) s) : Logged env s := by
  refine hs.induction ?_ fun _ _ => step
  rintro s ⟨hlog, hnone⟩
  have hnil : ∀ e, e ∉ s.log := by simp [hlog]
  refine ⟨?_, ?_, ?_, ?_, ?_, ?_, ?_, ?_⟩
  · exact fun j hj ho => absurd ho (hnone j hj)
  · exact fun j hj ho => absurd ho (hnone j hj)
  · exact fun e he => absurd (List.mem_of_getLast? he) (hnil e)
  · exact fun e he => absurd he (hnil e)
  · rw [hlog]
    exact .nil
  · exact fun e he => absurd he (hnil e)
  · rw [hlog]
    exact .nil
  · exact fun e he => absurd (List.mem_of_head? he) (hnil e)

end Logged

end Kratix.Workflow
