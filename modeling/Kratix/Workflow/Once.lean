import Kratix.Workflow.FaultFree
import Kratix.Workflow.Order

/-!
# Each pipeline runs once while nothing changes

As long as the specifications stay as they are and nobody asks for a manual
reconciliation, the log is a single round: its entries are the first pipelines
in order, every Job but the last has completed, and cleaning up removes none of
them. No Job is created after one has failed.
-/

namespace Kratix.Workflow

open Apiserver Effect

variable {env : Externals} {p : ParentKind} {id : Identity p} {base x : Trigger id}
  {s : RunState id} {t : World}

/-! ### Calls with the same specifications -/

/-- The specifications are those of another call. -/
def SameSpec (base x : Trigger id) : Prop :=
  x.promise.spec = base.promise.spec ∧ x.parent.spec = base.parent.spec

theorem SameSpec.pipelines (h : SameSpec base x) : x.pipelines = base.pipelines := by
  cases p <;> simp only [Trigger.pipelines, Promise.pipelines, ParentKind.workflowType, h.1]

theorem SameSpec.names (h : SameSpec base x) : x.names = base.names := by
  rw [Trigger.names, h.pipelines, Trigger.names]

theorem SameSpec.hash (h : SameSpec base x) : x.hash env = base.hash env := by
  cases p with
  | promise => simp only [Trigger.hash, asRequest, h.1]
  | resource n =>
    have hspec : (show ResourceRequest from x.parent).spec =
        (show ResourceRequest from base.parent).spec := h.2
    simp only [Trigger.hash, asRequest, h.1]
    rw [hspec]

theorem SameSpec.trans {y : Trigger id} (h : SameSpec base x) (h' : SameSpec base y) :
    SameSpec x y :=
  ⟨h'.1.trans h.1.symm, h'.2.trans h.2.symm⟩

theorem SameSpec.hasAPI (h : SameSpec base x) (hapi : base.HasAPI) : x.HasAPI := by
  cases p with
  | promise => exact Or.inl rfl
  | resource n =>
    refine Or.inr ?_
    rw [h.1]
    exact hapi.resolve_left (by simp [asRequest])

/-- A Job made in one call is recognised in another one with the same specifications. -/
theorem Makes.isFor {q : Pipeline} {job : Job} (hm : Makes env base q job) (h : SameSpec base x) :
    x.IsFor env q job := by
  intro key _
  rw [hm.labels, h.hash, Labels.value, Labels.value, base.lookup_pipelineJobLabels q x]

/-- What is assumed of each call: nothing has changed since `base`, and the Jobs
can be told by their labels. -/
structure Steady (env : Externals) (base : Trigger id) (s : RunState id) (x : Trigger id) :
    Prop where
  same : SameSpec base x
  automatic : x.isManual = false
  keeps : KeepsIdentifying env x
  own : OnlyOwn env id s.world
  ownOld : OnlyOwnOld env x s.world

/-! ### The invariant -/

structure Settled (env : Externals) (base : Trigger id) (s : RunState id) : Prop where
  logged : Logged env s
  same : ∀ e ∈ s.log, SameSpec base e.trigger
  made : ∀ e ∈ s.log, ∃ q ∈ e.trigger.pipelines, ∃ job time, Makes env e.trigger q job ∧
    e.job = job.stampedAt time ∧ ∃ u resources, Prepared env e.trigger u resources
  positions : s.log.map Entry.index = List.range s.log.length
  stored : ∀ e ∈ s.log, ∃ j ∈ s.world.cluster.objects .job, Owned id j ∧ Same e.job j
  done : ∀ j ∈ s.world.cluster.objects .job, Owned id j →
    (∃ j' ∈ s.world.cluster.objects .job, Owned id j' ∧ j.created < j'.created) → Completed j

theorem Completed.evolves {j j' : Job} (h : Completed j) (he : Evolves j j') : Completed j' := by
  obtain ⟨hrun, hfail⟩ := completed_iff.mp h
  exact completed_iff.mpr ⟨he.stopped hrun, he.settled hrun hfail⟩

namespace Settled

theorem traceable (h : Settled env base s) (hok : Steady env base s x) : Traceable env s x :=
  ⟨hok.keeps, hok.own, hok.ownOld, fun e he _ => ((h.same e he).trans hok.same).names.symm⟩

theorem last_index (h : Settled env base s) {l : Entry id} (hl : s.log.getLast? = some l) :
    l.index + 1 = s.log.length := by
  obtain ⟨ys, hys⟩ := List.getLast?_eq_some_iff.mp hl
  have hpos := h.positions
  rw [hys, List.length_append, List.map_append] at hpos
  simp only [List.map_cons, List.map_nil, List.length_cons, List.length_nil, List.range_succ] at hpos
  have hlast := List.append_inj_right' hpos rfl
  rw [hys, List.length_append]
  simpa using hlast

theorem index_inj (h : Settled env base s) {e e' : Entry id} (he : e ∈ s.log) (he' : e' ∈ s.log)
    (hindex : e.index = e'.index) : e = e' := by
  have hnd : (s.log.map Entry.index).Nodup := by
    rw [h.positions]
    exact List.nodup_range
  exact List.inj_on_of_nodup_map hnd he he' hindex

/-- The most recent Job is one of the pipelines of every further call. -/
theorem newest_isFor (h : Settled env base s) (hok : Steady env base s x) {j : Job}
    (hnew : Newest env id s.world (some j)) : ∃ l q, s.log.getLast? = some l ∧ Same l.job j ∧
      x.pipelines[l.index]? = some q ∧ x.IsFor env q j := by
  obtain ⟨l, hl, hsame⟩ := h.logged.newest hok.own hnew
  have hmem := List.mem_of_getLast? hl
  obtain ⟨q, hq, job, time, hm, hjob, -⟩ := h.made l hmem
  have hspec := (h.same l hmem).trans hok.same
  obtain ⟨i, hi⟩ := List.mem_iff_getElem?.mp hq
  have hindex : l.index = i := by
    rw [Entry.index, hjob]
    exact (congrArg l.trigger.names.idxOf hm.pipelineName).trans (l.trigger.idxOf_name hi)
  refine ⟨l, q, hl, hsame, ?_, fun key hkey => ?_⟩
  · rw [hindex, hspec.pipelines, hi]
  · rw [hsame.labels, hjob]
    exact hm.isFor hspec key hkey

theorem carried {doomed : Job → Prop} (h : Settled env base s) (hc : Carried id doomed s.world t)
    (hclock : s.world.cluster.clock ≤ t.cluster.clock)
    (hdoomed : ∀ j ∈ s.world.cluster.objects .job, Owned id j → ¬ doomed j) :
    Settled env base ⟨t, s.log⟩ where
  logged := h.logged.carried hc hclock fun j hj ho hd => absurd hd (hdoomed j hj ho)
  same := h.same
  made := h.made
  positions := h.positions
  stored := by
    intro e he
    obtain ⟨j, hj, ho, hsame⟩ := h.stored e he
    obtain ⟨j', hj', hev⟩ := hc.survives j hj ho (hdoomed j hj ho)
    exact ⟨j', hj', hev.owned.mpr ho, hsame.evolves hev⟩
  done := by
    rintro i' hi' hoi' ⟨j', hj', hoj', hlt⟩
    obtain ⟨i, hi, hei⟩ := hc.descends i' hi' hoi'
    obtain ⟨j, hj, hej⟩ := hc.descends j' hj' hoj'
    rw [hei.created, hej.created] at hlt
    exact (h.done i hi (hei.owned.mp hoi') ⟨j, hj, hej.owned.mp hoj', hlt⟩).evolves hei

/-- When a Job is due, all earlier ones have completed and its pipeline is the next one. -/
theorem due (h : Settled env base s) (hok : Steady env base s x) {last : Option Job} {i : ℕ}
    (hnew : Newest env id s.world last) (hfree : ∀ j ∈ last, isRunning j = false)
    (hdue : Due env x last i) :
    i = s.log.length ∧ ∀ j ∈ s.world.cluster.objects .job, Owned id j → Completed j := by
  cases last with
  | none =>
    have hnone : ∀ j ∈ s.world.cluster.objects .job, ¬ Owned id j := by
      intro j hj ho
      obtain ⟨_, hcontra, _⟩ := hnew.ge h.logged.findable hj ho
      cases hcontra
    have hlog : s.log = [] := by
      by_contra hne
      obtain ⟨j, hj, ho, -⟩ := h.stored _ (List.getLast_mem hne)
      exact hnone j hj ho
    rcases hdue with ⟨rfl, -⟩ | ⟨j, i', q, hcontra, -⟩
    · exact ⟨by rw [hlog]; rfl, fun j hj ho => absurd ho (hnone j hj)⟩
    · cases hcontra
  | some job =>
    obtain ⟨l, q, hl, hsame, hq, hfor⟩ := h.newest_isFor hok hnew
    have hpos : 0 < i := by
      rcases hdue with ⟨-, hman | hnot⟩ | ⟨j, i', q', -, -, rfl, -⟩
      · rw [hok.automatic] at hman
        cases hman
      · exact absurd hfor (hnot job rfl q (List.mem_of_getElem? hq))
      · exact Nat.succ_pos i'
    obtain ⟨j, l', q', hj, hl', -, hdone, -, hi, -, -⟩ :=
      h.logged.due (h.traceable hok) hnew hfree hdue hpos
    cases hj
    rw [hl] at hl'
    cases hl'
    refine ⟨hi.trans (h.last_index hl), fun j hj ho => ?_⟩
    rcases (h.logged.newest_ge hnew hj ho).lt_or_eq with hlt | heq
    · exact h.done j hj ho ⟨job, hnew.mem, hnew.owned hok.own, hlt⟩
    · rw [s.world.cluster.eq_of_created hj hnew.mem heq]
      exact hdone

/-! ### Cleaning up -/

/-- After a complete round there are no two Jobs of one pipeline to clean up. -/
theorem not_superseded (h : Settled env base s) (hok : Steady env base s x)
    {resources : List PipelineJobResources} (hp : Prepared env x s.world resources)
    (hround : EndsWithRound env x s.log) {j : Job} (hj : j ∈ s.world.cluster.objects .job) :
    ¬ Superseded env id.jobNamespace resources s.world j := by
  intro hd
  obtain ⟨name, hname, sel, hsel, hselj, hoj, y, hy, hoy, hsely, hlt⟩ :=
    hd.newer hp hok.keeps hok.ownOld hj
  -- a Job of this pipeline is stored, so the labels are valid
  obtain ⟨older, round, hsplit, hnames, -⟩ := hround
  rw [← hnames] at hname
  obtain ⟨e₀, he₀, rfl⟩ := List.mem_map.mp hname
  have hmem₀ : e₀ ∈ s.log := by
    rw [hsplit]
    exact List.mem_append_right _ he₀
  obtain ⟨j₀, hj₀, ho₀, hsame₀⟩ := h.stored e₀ hmem₀
  have hvalid₀ := s.world.cluster.labels_valid .job j₀ hj₀
  have hvalue := isValidLabelValue_value hvalid₀ Label.pipelineName
  rw [hsame₀.labels, (h.logged.labelled e₀ hmem₀).pipelineName] at hvalue
  have hvalid := valid_cleanupLabels
    (valid_of_fromSet hvalid₀ (h.logged.findable j₀ hj₀ ho₀).selected) hvalue
  have hlookup := lookup_cleanupLabels id e₀.job.spec.pipelineName Label.pipelineName
  rw [if_pos rfl] at hlookup
  have hne : id.cleanupLabels e₀.job.spec.pipelineName ≠ ∅ := by
    intro hempty
    rw [hempty, AList.lookup_empty] at hlookup
    cases hlookup
  rw [env.parseLabels_of_valid hne hvalid] at hsel
  cases hsel
  have hpipeline : ∀ z ∈ s.world.cluster.objects .job, Owned id z →
      Selector.fromSet (id.cleanupLabels e₀.job.spec.pipelineName) z.metadata.labels = true →
        ∃ e ∈ s.log, Same e.job z ∧ e.index = base.names.idxOf e₀.job.spec.pipelineName := by
    intro z hz hoz hselz
    obtain ⟨e, he, hsame⟩ := h.logged.known z hz hoz
    have hl := Selector.fromSet_iff.mp hselz _ _ hlookup
    rw [hsame.labels] at hl
    refine ⟨e, he, hsame, ?_⟩
    rw [Entry.index, (h.same e he).names, ← (h.logged.labelled e he).pipelineName, Labels.value, hl]
    rfl
  obtain ⟨e, he, hsame, hindex⟩ := hpipeline j hj hoj hselj
  obtain ⟨e', he', hsame', hindex'⟩ := hpipeline y hy hoy hsely
  rw [h.index_inj he he' (hindex.trans hindex'.symm)] at hsame
  rw [hsame.created, hsame'.created] at hlt
  exact lt_irrefl _ hlt

/-! ### Steps and runs -/

theorem added (h : Settled env base s) (hok : Steady env base s x) {last : Option Job} {i : ℕ}
    {q : Pipeline} {job : Job} {resources : List PipelineJobResources}
    (hnew : Newest env id s.world last) (hq : x.pipelines[i]? = some q) (hm : Makes env x q job)
    (hfree : ∀ j ∈ last, isRunning j = false) (hdue : Due env x last i)
    (hp : Prepared env x s.world resources) (ha : Added job s.world t)
    (hclock : s.world.cluster.clock ≤ t.cluster.clock) :
    Settled env base ⟨t, s.log ++ newEntries x s.world t⟩ := by
  obtain ⟨hi, hcompleted⟩ := h.due hok hnew hfree hdue
  have hlogged := h.logged.added (h.traceable hok) hnew hq hm hfree hdue ha hclock
  rcases ha.cases (x := x) with ⟨hjobs, hnil⟩ | ⟨time, htime, -, -, hjobs, hentry⟩
  · rw [hnil, List.append_nil]
    exact h.carried (.of_eq hjobs) hclock (fun _ _ _ hd => hd)
  rw [hentry] at hlogged ⊢
  set e : Entry id := ⟨x, job.stampedAt time, s.world.cluster.objects .job⟩ with he
  have hindex : e.index = i := by
    rw [Entry.index, he]
    exact (congrArg x.names.idxOf hm.pipelineName).trans (x.idxOf_name hq)
  refine ⟨hlogged, ?_, ?_, ?_, ?_, ?_⟩
  · intro a ha
    rcases List.mem_append.mp ha with ha | ha
    · exact h.same a ha
    · cases List.mem_singleton.mp ha
      exact hok.same
  · intro a ha
    rcases List.mem_append.mp ha with ha | ha
    · exact h.made a ha
    · cases List.mem_singleton.mp ha
      exact ⟨q, List.mem_of_getElem? hq, job, time, hm, rfl, s.world, resources, hp⟩
  · rw [List.map_append, List.length_append, h.positions, List.length_singleton, List.range_succ,
      List.map_singleton, hindex, hi]
  · intro a ha
    rcases List.mem_append.mp ha with ha | ha
    · obtain ⟨j, hj, ho, hsame⟩ := h.stored a ha
      exact ⟨j, by rw [hjobs]; exact List.mem_append_left _ hj, ho, hsame⟩
    · cases List.mem_singleton.mp ha
      exact ⟨job.stampedAt time, by rw [hjobs]; simp, hm.owned, rfl, rfl, rfl⟩
  · rintro j hj ho ⟨j', hj', -, hlt⟩
    rw [hjobs] at hj hj'
    rcases List.mem_append.mp hj with hj | hj
    · exact hcompleted j hj ho
    · -- nothing is newer than the new Job
      cases List.mem_singleton.mp hj
      exfalso
      have hle : j'.created ≤ time := by
        rcases List.mem_append.mp hj' with hj' | hj'
        · exact ((s.world.cluster.created_lt .job j' hj').trans_le htime).le
        · cases List.mem_singleton.mp hj'
          exact le_rfl
      exact absurd hlt (not_lt.mpr hle)

theorem step {t : RunState id} (h : Settled env base s) (hst : Step env id (Steady env base) s t) :
    Settled env base t := by
  cases hst with
  | environment hu => exact h.carried hu.carried hu.clock (fun _ _ _ hd => hd)
  | call x r hok hcall =>
    have hclock := exec_clock hcall.exec
    cases hcall.outcome with
    | carries jobs old unfinished =>
      rw [newEntries_eq_nil old, List.append_nil]
      exact h.carried jobs hclock (fun _ _ _ hd => hd)
    | creates last i q job resources newest pipeline makes free due unfinished prepared jobs =>
      exact h.added hok newest pipeline makes free due prepared jobs hclock
    | completes job q resources newest last isFor finished manual prepared jobs =>
      rw [jobs.newEntries_eq_nil, List.append_nil]
      have hround := h.logged.endsWithRound (h.traceable hok) newest last isFor
      exact h.carried jobs.carried hclock fun j hj _ => h.not_superseded hok prepared hround hj

theorem of_reachable (hs : Reachable env id (Steady env base) s) : Settled env base s := by
  refine hs.induction ?_ fun _ _ => step
  intro s hinit
  have hnil : ∀ e, e ∉ s.log := by simp [hinit.1]
  refine ⟨.of_reachable ⟨s, hinit, .refl⟩, ?_, ?_, ?_, ?_, ?_⟩
  · exact fun e he => absurd he (hnil e)
  · exact fun e he => absurd he (hnil e)
  · rw [hinit.1]
    rfl
  · exact fun e he => absurd he (hnil e)
  · exact fun j hj ho => absurd ho (hinit.2 j hj)

theorem pipelineNames_nodup (h : Settled env base s) :
    (s.log.map fun e => e.job.spec.pipelineName).Nodup := by
  have hnd : (s.log.map Entry.index).Nodup := by
    rw [h.positions]
    exact List.nodup_range
  have hmap : s.log.map Entry.index =
      (s.log.map fun e => e.job.spec.pipelineName).map base.names.idxOf := by
    rw [List.map_map]
    refine List.map_congr_left fun e he => ?_
    rw [Entry.index, (h.same e he).names]
    rfl
  rw [hmap] at hnd
  exact List.Nodup.of_map _ hnd

theorem length_le (h : Settled env base s) : s.log.length ≤ base.names.length := by
  have hsub : (s.log.map fun e => e.job.spec.pipelineName) ⊆ base.names := by
    intro name hname
    obtain ⟨e, he, rfl⟩ := List.mem_map.mp hname
    rw [← (h.same e he).names]
    exact (h.logged.labelled e he).mem
  simpa using (List.subperm_of_subset h.pipelineNames_nodup hsub).length_le

/-- Once a Job has failed, it stays so and the log does not grow. -/
theorem failed_step {t : RunState id} (h : Settled env base s)
    (hst : Step env id (Steady env base) s t)
    (hfail : ∃ j ∈ s.world.cluster.objects .job, Owned id j ∧ isFailed j = true) :
    t.log = s.log ∧ ∃ j ∈ t.world.cluster.objects .job, Owned id j ∧ isFailed j = true := by
  obtain ⟨j, hj, ho, hf⟩ := hfail
  have hkeep : ∀ {doomed : Job → Prop} {u : World}, Carried id doomed s.world u → ¬ doomed j →
      ∃ j' ∈ u.cluster.objects .job, Owned id j' ∧ isFailed j' = true := by
    intro doomed u hc hd
    obtain ⟨j', hj', hev⟩ := hc.survives j hj ho hd
    exact ⟨j', hj', hev.owned.mpr ho, hev.failed hf⟩
  cases hst with
  | environment hu => exact ⟨rfl, hkeep hu.carried (fun hd => hd)⟩
  | call x r hok hcall =>
    cases hcall.outcome with
    | carries jobs old unfinished =>
      exact ⟨by rw [newEntries_eq_nil old, List.append_nil], hkeep jobs (fun hd => hd)⟩
    | creates last i q job resources newest pipeline makes free due unfinished prepared jobs =>
      have hdone := completed_iff.mp ((h.due hok newest free due).2 j hj ho)
      rw [hf] at hdone
      cases hdone.2
    | completes job q resources newest last isFor finished manual prepared jobs =>
      have hround := h.logged.endsWithRound (h.traceable hok) newest last isFor
      exact ⟨by rw [jobs.newEntries_eq_nil, List.append_nil],
        hkeep jobs.carried (h.not_superseded hok prepared hround hj)⟩

theorem failed_run {t : RunState id} (h : Settled env base s)
    (hrun : Relation.ReflTransGen (Step env id (Steady env base)) s t)
    (hfail : ∃ j ∈ s.world.cluster.objects .job, Owned id j ∧ isFailed j = true) :
    t.log = s.log := by
  have hall : Settled env base t ∧ t.log = s.log ∧
      ∃ j ∈ t.world.cluster.objects .job, Owned id j ∧ isFailed j = true := by
    induction hrun with
    | refl => exact ⟨h, rfl, hfail⟩
    | tail _ hst ih =>
      obtain ⟨hsettled, hlog, hfail⟩ := ih
      obtain ⟨hlog', hfail'⟩ := hsettled.failed_step hst hfail
      exact ⟨hsettled.step hst, hlog'.trans hlog, hfail'⟩
  exact hall.2.1

/-- With one completed Job per pipeline, the round is done. -/
theorem roundDone (h : Settled env base s) (hok : Steady env base s x) (hne : base.names ≠ [])
    (hlen : s.log.length = base.names.length)
    (hdone : ∀ j ∈ s.world.cluster.objects .job, Owned id j → Completed j) :
    RoundDone env x s.world := by
  intro last hnew
  have hlog : s.log ≠ [] := by
    rw [← List.length_pos_iff, hlen]
    exact List.length_pos_iff.mpr hne
  obtain ⟨j, hj, ho, -⟩ := h.stored _ (List.getLast_mem hlog)
  obtain ⟨job, rfl, -⟩ := hnew.ge h.logged.findable hj ho
  obtain ⟨l, q, hl, -, hq, hfor⟩ := h.newest_isFor hok hnew
  refine ⟨job, q, rfl, ?_, hfor, hdone job hnew.mem (hnew.owned hok.own)⟩
  have hindex := h.last_index hl
  rw [hok.same.pipelines] at hq ⊢
  rw [← hq]
  congr 1
  simp only [Trigger.names, List.length_map] at hlen
  omega

end Settled

/-- While nothing changes, each pipeline gets at most one Job, no Job is created
after one has failed, and once all have completed a call without faults reports
completion and creates nothing. -/
theorem each_pipeline_runs_once (hs : Reachable env id (Steady env base) s) :
    (s.log.map fun e => e.job.spec.pipelineName).Nodup ∧
    s.log.length ≤ base.names.length ∧
    ((∃ j ∈ s.world.cluster.objects .job, Owned id j ∧ isFailed j = true) →
      ∀ t, Relation.ReflTransGen (Step env id (Steady env base)) s t → t.log = s.log) ∧
    ∀ x r t, Steady env base s x →
      s.world.cluster.find (.parent p) x.parent.key = some x.parent →
      Exec (faultFree env) (x.configure env) s.world r t →
      base.names ≠ [] → s.log.length = base.names.length →
      (∀ j ∈ s.world.cluster.objects .job, Owned id j → Completed j) →
      r.abort = false ∧ r.err = none ∧
        (s.log ++ newEntries x s.world t).length = base.names.length := by
  have h := Settled.of_reachable hs
  refine ⟨h.pipelineNames_nodup, h.length_le, fun hfail t hrun => h.failed_run hrun hfail, ?_⟩
  intro x r t hok hstored he hne hlen hdone
  have hround := h.roundDone hok hne hlen hdone
  obtain ⟨e, he₀⟩ : ∃ e, e ∈ s.log :=
    List.exists_mem_of_ne_nil _ (by
      rw [← List.length_pos_iff, hlen]
      exact List.length_pos_iff.mpr hne)
  obtain ⟨j, hj, ho, -⟩ := h.stored e he₀
  have hsel := valid_of_fromSet (s.world.cluster.labels_valid .job j hj)
    (h.logged.findable j hj ho).selected
  have hapi : x.HasAPI := by
    obtain ⟨q, hq, -, -, -, -, u, resources, hp⟩ := h.made e he₀
    exact ((h.same e he₀).trans hok.same).hasAPI (hp.hasAPI hq)
  obtain ⟨habort, herr⟩ := exec_configure_done hstored hapi hsel hok.automatic hround he
  refine ⟨habort, herr, ?_⟩
  -- the log cannot grow beyond the number of pipelines
  have hstep : Step env id (Steady env base) s ⟨t, s.log ++ newEntries x s.world t⟩ :=
    .call x r hok ⟨hstored, he.mono faulty_of_faultFree⟩
  have hle := (h.step hstep).length_le
  simp only [List.length_append] at hle ⊢
  omega

def plainTrigger : Trigger sampleIdentity := sampleTrigger [plainPipeline "install"] (by decide)

instance (base x : Trigger sampleIdentity) : Decidable (SameSpec base x) :=
  inferInstanceAs (Decidable ((_ : PromiseSpec) = _ ∧ (_ : PromiseSpec) = _))

def isSteadyCall (s : RunState sampleIdentity) (x : Trigger sampleIdentity) : Bool :=
  decide (SameSpec plainTrigger x ∧ x.isManual = false) && isPlainCall s x

theorem steady_of_isSteadyCall {s : RunState sampleIdentity} {x : Trigger sampleIdentity}
    (h : isSteadyCall s x = true) : Steady plainExternals plainTrigger s x := by
  obtain ⟨hspec, hplain⟩ := Bool.and_eq_true_iff.mp h
  obtain ⟨hsame, hman⟩ := of_decide_eq_true hspec
  have htrace : Traceable plainExternals s x := traceable_of_isPlainCall hplain
  exact ⟨hsame, hman, htrace.keeps, htrace.own, htrace.ownOld⟩

/-- One pipeline: behind its completed Job a call reports completion. -/
theorem each_pipeline_runs_once_sample :
    ∃ (s : RunState sampleIdentity) (x : Trigger sampleIdentity) (r : Result .promise) (t : World),
      Reachable plainExternals sampleIdentity (Steady plainExternals plainTrigger) s ∧
      s.log.length = 1 ∧ Exec (faultFree plainExternals) (x.configure plainExternals) s.world r t ∧
      r.abort = false ∧ r.err = none ∧ (s.log ++ newEntries x s.world t).length = 1 := by
  have heval : (evalRun plainExternals isSteadyCall [.call plainTrigger, .finished]
      (sampleStart [plainPipeline "install"])).any (fun s => isSteadyCall s plainTrigger &&
        decide (s.log.length = 1 ∧ ∀ j ∈ s.world.cluster.objects .job,
          isRunning j = false ∧ isFailed j = false) &&
        evalCall plainExternals plainTrigger (fun _ _ _ => true) s.world) = true := by
    decide +kernel
  have hok : ∀ (s : RunState sampleIdentity) x, isSteadyCall s x = true →
      Steady plainExternals plainTrigger s x := fun _ _ => steady_of_isSteadyCall
  obtain ⟨s, hs, hP⟩ := exists_reachable_of_evalRun hok (initial_sampleStart _) heval
  obtain ⟨hP, hcall⟩ := Bool.and_eq_true_iff.mp hP
  obtain ⟨hsteady, hstate⟩ := Bool.and_eq_true_iff.mp hP
  obtain ⟨hlen, hdone⟩ := of_decide_eq_true hstate
  obtain ⟨hstored, r, t, hexec, -⟩ := exists_call_of_evalCall hcall
  obtain ⟨-, -, -, hfinal⟩ := each_pipeline_runs_once hs
  exact ⟨s, plainTrigger, r, t, hs, hlen, hexec,
    hfinal plainTrigger r t (steady_of_isSteadyCall hsteady) hstored hexec (by decide) hlen
      fun j hj _ => completed_iff.mpr (hdone j hj)⟩

/-- With the specification fixed and no other Job in the cluster, two Jobs are
created for the hidden pipeline. -/
theorem hidden_pipeline_runs_twice :
    ∃ s : RunState sampleIdentity, Reachable plainExternals sampleIdentity
      (fun s x => SameSpec hiddenTrigger x ∧ x.isManual = false ∧ NoOthers sampleIdentity s) s ∧
      s.log.map (fun e => e.job.spec.pipelineName) = ["install", "install"] ∧
      hiddenTrigger.names = ["install"] := by
  have heval : (evalRun plainExternals (fun s x =>
        decide (SameSpec hiddenTrigger x ∧ x.isManual = false ∧ NoOthers sampleIdentity s))
      [.call hiddenTrigger, .call hiddenTrigger] (sampleStart [hiddenPipeline])).any (fun s =>
        decide (s.log.map (fun e => e.job.spec.pipelineName) = ["install", "install"])) = true := by
    decide +kernel
  have hok : ∀ (s : RunState sampleIdentity) (x : Trigger sampleIdentity),
      decide (SameSpec hiddenTrigger x ∧ x.isManual = false ∧ NoOthers sampleIdentity s) = true →
      SameSpec hiddenTrigger x ∧ x.isManual = false ∧ NoOthers sampleIdentity s :=
    fun _ _ => of_decide_eq_true
  obtain ⟨s, hs, hP⟩ := exists_reachable_of_evalRun hok (initial_sampleStart _) heval
  exact ⟨s, hs, of_decide_eq_true hP, by decide⟩

end Kratix.Workflow
