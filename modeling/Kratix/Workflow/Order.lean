import Kratix.Workflow.Log

/-!
# The configure pipelines run in order

From the log of created Jobs: a Job of a later pipeline is created only when
the most recent Job is the completed one of the pipeline before it, at the
current hash, and a call that reports completion is preceded by one complete
round of Jobs. Labels of a pipeline that replace its identifying labels break
this.
-/

namespace Kratix.Workflow

open Apiserver Effect

variable {env : Externals} {p : ParentKind} {id : Identity p} {x : Trigger id}
  {s : RunState id} {r : Result p} {t : World}

theorem map_getElem?_range {α : Type} (l : List α) :
    (List.range l.length).map (fun i => l[i]?) = l.map some := by
  refine List.ext_getElem (by simp) fun i h₁ h₂ => ?_
  have hlt : i < l.length := by simpa using h₂
  simp [hlt]

/-- A log whose last entry is of the last pipeline ends with a complete round. -/
theorem Logged.last_round (h : Logged env s) {l : Entry id} (hl : s.log.getLast? = some l)
    (hlast : l.index + 1 = l.trigger.names.length) :
    ∃ older round, s.log = older ++ round ∧
      round.map (fun e => e.job.spec.pipelineName) = l.trigger.names ∧
      (∀ e ∈ round, e.trigger.hash env = l.trigger.hash env) ∧ round.IsChain (Follows env) := by
  obtain ⟨ys, hys⟩ := List.getLast?_eq_some_iff.mp hl
  have hchain := h.rounds
  have hstart := h.start
  rw [hys] at hchain hstart
  obtain ⟨older, round, hsplit, hlast', hindex, hrel⟩ := Rounds.exists_last_round hchain hstart
  have hmem : ∀ e ∈ round, e ∈ s.log := by
    intro e he
    rw [hys, hsplit]
    exact List.mem_append_right _ he
  have hnames : ∀ e ∈ round, e.trigger.names = l.trigger.names :=
    Rounds.eq_last_of_chain (hrel.imp fun _ _ h => h.names) hlast'
  refine ⟨older, round, hys.trans hsplit, ?_, ?_, hrel⟩
  · refine List.map_injective_iff.mpr (Option.some_injective _) ?_
    rw [List.map_map, ← map_getElem?_range, ← hlast, ← hindex, List.map_map]
    refine List.map_congr_left fun e he => ?_
    -- the index of an entry is the position of its pipeline
    have hin := (h.labelled e (hmem e he)).mem
    have hlt := List.idxOf_lt_length_of_mem hin
    rw [← hnames e he, Function.comp_apply, Function.comp_apply, Entry.index,
      List.getElem?_eq_getElem hlt, List.getElem_idxOf hlt]
  · exact Rounds.eq_last_of_chain (hrel.imp fun _ _ h => h.hash) hlast'

/-- The most recently created Job of the parent is one of the pipeline before
that of the entry, at the current hash, and has completed. -/
def ContinuesRound (env : Externals) (s : RunState id) (x : Trigger id) (e : Entry id) : Prop :=
  ∃ j ∈ s.world.cluster.objects .job, Owned id j ∧
    (∃ l, s.log.getLast? = some l ∧ j.created = l.job.created) ∧
    (∀ j' ∈ s.world.cluster.objects .job, Owned id j' → j'.created ≤ j.created) ∧
    x.names[e.index - 1]? = some j.spec.pipelineName ∧
    j.metadata.labels.value Label.resourceHash = x.hash env ∧ Completed j

/-- The last created Jobs are one of each pipeline, in order, at the current
hash, each created when its predecessor had completed. -/
def EndsWithRound (env : Externals) (x : Trigger id) (log : List (Entry id)) : Prop :=
  ∃ older round, log = older ++ round ∧
    round.map (fun e => e.job.spec.pipelineName) = x.names ∧
    (∀ e ∈ round, e.job.metadata.labels.value Label.resourceHash = x.hash env) ∧
    round.IsChain fun e e' => ∃ j ∈ e'.before, j.created = e.job.created ∧ Completed j

theorem Logged.continuesRound (h : Logged env s) (hok : Traceable env s x) {last : Option Job}
    {i : ℕ} (hnew : Newest env id s.world last) (hfree : ∀ j ∈ last, isRunning j = false)
    (hdue : Due env x last i) {e : Entry id} (he : e.index = i) (hpos : 0 < e.index) :
    ContinuesRound env s x e := by
  obtain ⟨j, l, q, rfl, hl, hsame, hdone, -, hi, hq, hfor⟩ :=
    h.due hok hnew hfree hdue (he ▸ hpos)
  obtain ⟨-, -, hname, -⟩ := h.isFor hok (List.mem_of_getLast? hl) hsame hq hfor
  refine ⟨j, hnew.mem, hnew.owned hok.own, ⟨l, hl, hsame.created⟩,
    fun j' hj' ho' => h.newest_ge hnew hj' ho', ?_, ?_, hdone⟩
  · rw [he, hi, Nat.add_sub_cancel, hname]
    exact x.names_getElem? hq
  · exact (hok.keeps.isFor (List.mem_of_getElem? hq) hfor).1

theorem Logged.endsWithRound (h : Logged env s) (hok : Traceable env s x) {j : Job} {q : Pipeline}
    (hnew : Newest env id s.world (some j)) (hlast : x.pipelines.getLast? = some q)
    (hfor : x.IsFor env q j) : EndsWithRound env x s.log := by
  obtain ⟨l, hl, hsame⟩ := h.newest hok.own hnew
  rw [List.getLast?_eq_getElem?] at hlast
  obtain ⟨hhash, hnames, -, hindex⟩ :=
    h.isFor hok (List.mem_of_getLast? hl) hsame hlast hfor
  have hlen : l.index + 1 = l.trigger.names.length := by
    have hlt := (List.getElem?_eq_some_iff.mp hlast).1
    rw [hindex, hnames, Trigger.names, List.length_map]
    omega
  obtain ⟨older, round, hsplit, hround, hsameHash, hrel⟩ := h.last_round hl hlen
  refine ⟨older, round, hsplit, hround.trans hnames, fun e he => ?_,
    hrel.imp fun _ _ h => h.completed⟩
  have hmem : e ∈ s.log := by
    rw [hsplit]
    exact List.mem_append_right _ he
  rw [(h.labelled e hmem).hash, hsameHash e he, hhash]

/-- In every run whose calls can be traced, a call that creates a Job starts a
round, as a manual request does, or continues the current one, and a call that
reports completion finds a complete round. -/
theorem pipelines_run_in_order (hs : Reachable env id (Traceable env) s)
    (hok : Traceable env s x) (hcall : CallStep env x s.world r t) :
    (∀ e ∈ newEntries x s.world t, x.isManual = true → e.index = 0) ∧
    (∀ e ∈ newEntries x s.world t, 0 < e.index → ContinuesRound env s x e) ∧
    (r.abort = false → r.err = none → x.names ≠ [] →
      EndsWithRound env x (s.log ++ newEntries x s.world t)) := by
  have h := Logged.of_reachable hs
  cases hcall.outcome with
  | carries jobs old unfinished =>
    rw [newEntries_eq_nil old]
    refine ⟨by simp, by simp, fun habort herr hne => ?_⟩
    rcases unfinished with hu | hu | hu
    · simp [habort] at hu
    · exact absurd herr hu
    · exact absurd (by rw [Trigger.names, hu]; rfl) hne
  | completes job q resources newest last isFor finished manual prepared jobs =>
    rw [jobs.newEntries_eq_nil, List.append_nil]
    exact ⟨by simp, by simp, fun _ _ _ => h.endsWithRound hok newest last isFor⟩
  | creates last i q job resources newest pipeline makes free due unfinished prepared jobs =>
    have hindex : ∀ e ∈ newEntries x s.world t, e.index = i := by
      rcases jobs.cases (x := x) with ⟨-, hnil⟩ | ⟨time, -, -, -, -, hentry⟩
      · simp [hnil]
      · rw [hentry]
        intro e he
        cases List.mem_singleton.mp he
        exact (congrArg x.names.idxOf makes.pipelineName).trans (x.idxOf_name pipeline)
    refine ⟨fun e he hman => ?_, fun e he hpos => ?_, fun habort herr _ => ?_⟩
    · by_contra hpos
      obtain ⟨-, -, -, -, -, -, -, hnot, -⟩ :=
        h.due hok newest free due (hindex e he ▸ Nat.pos_of_ne_zero hpos)
      rw [hman] at hnot
      cases hnot
    · exact h.continuesRound hok newest free due (hindex e he) hpos
    · rcases unfinished with hu | hu
      · simp [habort] at hu
      · exact absurd herr hu

def isPlainCall (s : RunState id) (x : Trigger id) : Bool :=
  decide ((∀ q ∈ x.pipelines, q.labels = ∅) ∧
    (∀ j ∈ s.world.cluster.objects .job, Owned id j) ∧ ∀ e ∈ s.log, e.trigger.names = x.names)

theorem traceable_of_isPlainCall {x : Trigger id} (h : isPlainCall s x = true) :
    Traceable env s x := by
  obtain ⟨hlabels, hown, hnames⟩ := of_decide_eq_true h
  refine ⟨fun q hq => keepsLabels_of_empty (hlabels q hq), onlyOwn_of_forall hown, ?_,
    fun e he _ => hnames e he⟩
  rintro name - jobs ⟨sel, -, rfl⟩ j hj
  exact hown j (Cluster.mem_listed.mp hj).1

/-- The last call of an evaluated run, with what it returned. -/
def evalCall (env : Externals) (x : Trigger id) (P : World → Result p → World → Bool)
    (s : World) : Bool :=
  decide (s.cluster.find (.parent p) x.parent.key = some x.parent) &&
    (eval (serveCall env) (x.configure env) s).any fun out => P s out.1 out.2

theorem exists_call_of_evalCall {P : World → Result p → World → Bool} {s : World}
    (h : evalCall env x P s = true) :
    s.cluster.find (.parent p) x.parent.key = some x.parent ∧
      ∃ r t, Exec (faultFree env) (x.configure env) s r t ∧ P s r t = true := by
  obtain ⟨hstored, hany⟩ := Bool.and_eq_true_iff.mp h
  exact ⟨of_decide_eq_true hstored, exists_exec_of_eval faultFree_of_serveCall hany⟩

def twoPipelines : List Pipeline :=
  [{ name := "plan", podSpec := "plan" }, { name := "apply", podSpec := "apply" }]

def twoTrigger : Trigger sampleIdentity := sampleTrigger twoPipelines (by decide)

/-- Two pipelines: the second Job is created when the first has completed. -/
theorem pipelines_run_in_order_sample :
    ∃ (s : RunState sampleIdentity) (x : Trigger sampleIdentity) (t : World),
      ∃ e ∈ newEntries x s.world t, e.index = 1 ∧ ContinuesRound plainExternals s x e := by
  have heval : (evalRun plainExternals isPlainCall [.call twoTrigger, .finished]
      (sampleStart twoPipelines)).any (fun s => isPlainCall s twoTrigger &&
        evalCall plainExternals twoTrigger
          (fun u _ t => (newEntries twoTrigger u t).any fun e => e.index == 1) s.world) = true := by
    decide +kernel
  have hok : ∀ (s : RunState sampleIdentity) x, isPlainCall s x = true →
      Traceable plainExternals s x := fun _ _ => traceable_of_isPlainCall
  obtain ⟨s, hs, hP⟩ := exists_reachable_of_evalRun hok (initial_sampleStart _) heval
  obtain ⟨hplain, hcall⟩ := Bool.and_eq_true_iff.mp hP
  obtain ⟨hstored, r, t, hcall, he⟩ := exists_call_of_evalCall hcall
  obtain ⟨e, he, hindex⟩ := List.any_eq_true.mp he
  have hindex := beq_iff_eq.mp hindex
  exact ⟨s, _, t, e, he, hindex, (pipelines_run_in_order hs (traceable_of_isPlainCall hplain)
    ⟨hstored, hcall.mono faulty_of_faultFree⟩).2.1 e he (by rw [hindex]; exact Nat.one_pos)⟩

/-- Two pipelines that both set the label with the pipeline's name. -/
def relabelledPipelines : List Pipeline :=
  twoPipelines.map fun q => { q with labels := Labels.ofList [(Label.pipelineName, "custom")] }

def relabelledTrigger : Trigger sampleIdentity := sampleTrigger relabelledPipelines (by decide)

/-- The Job of the first pipeline passes for one of the second, and the call
reports completion although the second pipeline never ran. -/
theorem second_pipeline_skipped :
    ∃ (s : RunState sampleIdentity) (x : Trigger sampleIdentity) (r : Result .promise) (t : World),
      Reachable plainExternals sampleIdentity (fun s _ => NoOthers sampleIdentity s) s ∧
      CallStep plainExternals x s.world r t ∧ x.names = ["plan", "apply"] ∧
      r.abort = false ∧ r.err = none ∧
      (s.log ++ newEntries x s.world t).map (fun e => e.job.spec.pipelineName) = ["plan"] := by
  have heval : (evalRun plainExternals (fun s _ => decide (NoOthers sampleIdentity s))
      [.call relabelledTrigger, .finished] (sampleStart relabelledPipelines)).any (fun s =>
        evalCall plainExternals relabelledTrigger (fun u r t => decide
          (r.abort = false ∧ r.err = none ∧ (s.log ++ newEntries relabelledTrigger u t).map
            (fun e => e.job.spec.pipelineName) = ["plan"])) s.world) = true := by
    decide +kernel
  have hok : ∀ (s : RunState sampleIdentity) (_ : Trigger sampleIdentity),
      decide (NoOthers sampleIdentity s) = true → NoOthers sampleIdentity s :=
    fun _ _ => of_decide_eq_true
  obtain ⟨s, hs, hP⟩ := exists_reachable_of_evalRun hok (initial_sampleStart _) heval
  obtain ⟨hstored, r, t, hcall, hr⟩ := exists_call_of_evalCall hP
  exact ⟨s, _, r, t, hs, ⟨hstored, hcall.mono faulty_of_faultFree⟩, by decide,
    of_decide_eq_true hr⟩

end Kratix.Workflow
