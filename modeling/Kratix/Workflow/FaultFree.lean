import Kratix.Workflow.Log

/-!
# A configure reconcile without faults

When the most recent Job is the completed one of the last pipeline and no call
fails, a reconcile reports completion. What could still go wrong is checked
here: the selectors parse, the status can be written, and the Works that are
cleaned up exist.
-/

namespace Kratix.Workflow

open Apiserver Effect

variable {env : Externals} {p : ParentKind} {id : Identity p} {x : Trigger id} {s t : World}

/-! ### Single calls -/

theorem exec_getJobsWithLabels_ok {labels : Labels} {ns : String} {sel : Selector}
    {r : Except Failure (List Job)} (hsel : env.parseLabels labels = some sel)
    (he : Exec (faultFree env) (getJobsWithLabels env labels ns) s r t) :
    t = s ∧ r = .ok (s.cluster.listed .job ns sel) := by
  simp only [getJobsWithLabels, hsel] at he
  obtain ⟨a, u, hlist, he⟩ := exec_bind.mp he
  obtain ⟨ha, hu⟩ := exec_api hlist
  change a = .ok (s.cluster.listed .job ns sel) at ha
  rw [ha] at he
  obtain ⟨rfl, rfl⟩ := he
  exact ⟨hu, rfl⟩

theorem exec_updateCounters_ok {obj : Parent p} {i : ℕ} {r : Except Failure (Parent p)}
    (hs : s.cluster.find (.parent p) obj.key = some obj)
    (he : Exec (faultFree env) (updateCounters obj i) s r t) :
    ∃ obj', r = .ok obj' ∧ obj'.metadata = obj.metadata := by
  unfold updateCounters at he
  split at he
  · obtain ⟨a, u, hupd, he⟩ := exec_bind.mp he
    obtain ⟨ha, -⟩ := exec_api hupd
    have hok : a = .ok { obj with status := withCounters obj.status i } := by
      rw [ha]
      simp only [serve]
      split
      · next hnone =>
        change s.cluster.find (.parent p) obj.key = none at hnone
        rw [hs] at hnone
        cases hnone
      · next stored hsome =>
        change s.cluster.find (.parent p) obj.key = some stored at hsome
        rw [hs] at hsome
        cases hsome
        rfl
    rw [hok] at he
    obtain ⟨rfl, -⟩ := he
    exact ⟨_, rfl, rfl⟩
  · obtain ⟨rfl, -⟩ := he
    exact ⟨obj, rfl, rfl⟩

theorem exec_deleteWorks_ok {works : List Work} {r : Option Failure}
    (hmem : ∀ w ∈ works, w ∈ s.cluster.objects .work) (hnd : (works.map Object.key).Nodup)
    (he : Exec (faultFree env) (deleteWorks works) s r t) : r = none := by
  induction works generalizing s with
  | nil => exact he.1
  | cons w works ih =>
    obtain ⟨a, u, hdel, he⟩ := exec_bind.mp he
    obtain ⟨ha, hu⟩ := exec_api hdel
    obtain ⟨hok, hrest⟩ := serve_delete (hmem w (by simp))
    rw [ha.trans hok] at he
    rw [List.map_cons, List.nodup_cons] at hnd
    refine ih (fun w' hw' => ?_) hnd.2 he
    rw [hu]
    refine hrest w' (hmem w' (by simp [hw'])) fun hkey => hnd.1 ?_
    rw [← hkey]
    exact List.mem_map_of_mem hw'

/-! ### Valid labels -/

/-- Labels that agree with the selecting ones, apart from the work type, are valid. -/
theorem valid_of_selectorLabels {l : Labels} (hsel : id.selectorLabels.Valid)
    (h : ∀ key v, l.lookup key = some v → (key = Label.workType ∧ v = p.workflowType.text) ∨
      id.selectorLabels.lookup key = some v) : l.Valid := by
  rw [Labels.valid_iff] at hsel ⊢
  intro key v hv
  rcases h key v hv with ⟨rfl, rfl⟩ | hkey
  · have htext : ∀ type : WorkflowType, isValidLabelValue type.text = true := by
      intro type
      cases type <;> decide +kernel
    exact ⟨by decide +kernel, htext _⟩
  · exact hsel key v hkey

theorem valid_legacyLabels (hsel : id.selectorLabels.Valid) : id.legacyLabels.Valid := by
  refine valid_of_selectorLabels hsel fun key v hv => ?_
  cases p <;>
    simp only [Identity.legacyLabels, Identity.selectorLabels, Labels.lookup_ofList_cons,
      Labels.lookup_ofList_nil] at hv ⊢ <;>
    split_ifs at hv with h₁ <;> cases hv <;> simp_all [Label.workType, Label.workflowType,
      Label.resourceName, Label.promiseName, ParentKind.workflowType, WorkflowType.text]

theorem legacyLabels_ne_empty (id : Identity p) : id.legacyLabels ≠ ∅ := by
  intro h
  have hl := congrArg (AList.lookup Label.workType) h
  cases p <;> simp [Identity.legacyLabels, Labels.lookup_ofList_cons, AList.lookup_empty] at hl

/-- The labels by which the Works of a workflow are found. -/
theorem exec_getWorksByType_ok {m : ObjectMeta} (hm : m = x.parent.metadata)
    (hsel : id.selectorLabels.Valid) {r : Except Failure (List Work)}
    (he : Exec (faultFree env) (getWorksByType env p.workflowType m) s r t) :
    t = s ∧ ∃ ns sel, r = .ok (s.cluster.listed .work ns sel) := by
  subst hm
  obtain ⟨l, ns, hne, hvalid, he⟩ : ∃ (l : Labels) (ns : String), l ≠ ∅ ∧ l.Valid ∧
      Exec (faultFree env) (getExistingWorks env ns l) s r t := by
    refine ⟨_, _, ?_, valid_of_selectorLabels hsel fun key v hv => ?_, he⟩
    · intro h
      have hl := congrArg (AList.lookup Label.workType) h
      cases p <;> simp [Labels.lookup_ofList_cons, AList.lookup_empty, ParentKind.workflowType,
        Label.workType, Label.promiseName, Label.resourceName] at hl
    · cases p with
      | promise =>
        simp only [ParentKind.workflowType, Labels.lookup_insert, Labels.lookup_ofList_cons,
          Labels.lookup_ofList_nil, x.parent_name] at hv
        split_ifs at hv with h₁ h₂ <;> cases hv
        · exact Or.inr (by simp [h₁, Identity.selectorLabels, Labels.lookup_ofList_cons,
            Label.promiseName, Label.workflowType])
        · exact Or.inl ⟨h₂, rfl⟩
      | resource n =>
        simp only [ParentKind.workflowType, Labels.lookup_insert, Labels.lookup_ofList_cons,
          Labels.lookup_ofList_nil, x.parent_name, x.request_label x.parent rfl] at hv
        split_ifs at hv with h₁ h₂ h₃ <;> cases hv
        · exact Or.inr (by simp [h₁, Identity.selectorLabels, Labels.lookup_ofList_cons,
            Label.promiseName, Label.workflowType, Label.resourceName, Identity.promiseName])
        · exact Or.inr (by simp [h₂, Identity.selectorLabels, Labels.lookup_ofList_cons,
            Label.workflowType, Label.resourceName])
        · exact Or.inl ⟨h₃, rfl⟩
  simp only [getExistingWorks, env.parseLabels_of_valid hne hvalid] at he
  obtain ⟨a, u, hlist, he⟩ := exec_bind.mp he
  obtain ⟨ha, hu⟩ := exec_api hlist
  change a = .ok (s.cluster.listed .work ns _) at ha
  rw [ha] at he
  obtain ⟨rfl, rfl⟩ := he
  exact ⟨hu, ns, _, rfl⟩

/-! ### The whole call -/

/-- The resources of the pipelines can be generated: a resource request is one
of an API that its Promise offers. -/
def Trigger.HasAPI (x : Trigger id) : Prop :=
  asRequest p x.parent = none ∨ x.promise.spec.api ≠ none

theorem role_ok_iff (env : Externals) (x : Trigger id) (q : Pipeline) :
    (∃ roles, (x.factory q).role env = .ok roles) ↔ x.HasAPI := by
  have hspec : (x.factory q).promise.spec = x.promise.spec := by
    unfold Trigger.factory
    split <;> rfl
  have hrequest : (x.factory q).resourceRequest = asRequest p x.parent := by
    cases p <;> rfl
  rw [PipelineFactory.exists_role_iff, hrequest, hspec, Trigger.HasAPI]
  cases asRequest p x.parent <;> simp [Option.isSome_iff_ne_none]

theorem Prepared.hasAPI {resources : List PipelineJobResources} (h : Prepared env x s resources)
    {q : Pipeline} (hq : q ∈ x.pipelines) : x.HasAPI := by
  obtain ⟨i, hlt, rfl⟩ := List.mem_iff_getElem.mp hq
  have hlt' : i < resources.length := h.length_eq ▸ hlt
  obtain ⟨isLast, uuid, -, hok⟩ := (List.forall₂_iff_get.mp h).2 i (by simpa using hlt) hlt'
  simp only [List.get_eq_getElem, List.getElem_map] at hok
  refine (role_ok_iff env x x.pipelines[i]).mp ?_
  cases hr : (x.factory x.pipelines[i]).role env with
  | ok roles => exact ⟨roles, rfl⟩
  | error e =>
    unfold PipelineFactory.resourcesNamed at hok
    rw [hr] at hok
    cases hok

theorem exec_generateResources_ok (hapi : x.HasAPI) {qs : List Pipeline}
    {r : Except Failure (List PipelineJobResources)}
    (he : Exec (faulty env) (generateResources env (qs.map x.factory)) s r t) :
    ∃ resources, r = .ok resources := by
  induction qs generalizing s r t with
  | nil => exact ⟨[], he.1⟩
  | cons q qs ih =>
    obtain ⟨a, u, hf, htail⟩ := exec_bind.mp he
    obtain ⟨uuid, v, -, ha⟩ := exec_bind.mp hf
    obtain ⟨roles, hroles⟩ := (role_ok_iff env x q).mpr hapi
    obtain ⟨res, hres⟩ : ∃ res, a = .ok res := by
      rw [(exec_pure.mp ha).1]
      unfold PipelineFactory.resourcesNamed
      rw [hroles]
      exact ⟨_, rfl⟩
    rw [hres] at htail
    obtain ⟨b, w, hrest, hend⟩ := exec_bind.mp htail
    obtain ⟨rs, rfl⟩ := ih hrest
    exact ⟨_, hend.1⟩

theorem exec_cleanup_ok {opts : Opts p} (hm : opts.parentObject.metadata = x.parent.metadata)
    (htype : opts.workflowType = p.workflowType) (hsel : id.selectorLabels.Valid) {ns : String}
    {r : Option Failure} (he : Exec (faultFree env) (cleanup env opts ns) s r t) : r = none := by
  obtain ⟨_, u, -, he⟩ := exec_bind.mp he
  obtain ⟨a, v, hworks, he⟩ := exec_bind.mp he
  rw [htype] at hworks
  obtain ⟨rfl, ns, sel, rfl⟩ := exec_getWorksByType_ok hm hsel hworks
  refine exec_deleteWorks_ok (fun w hw => ?_) ?_ he
  · exact (Cluster.mem_listed.mp (List.mem_of_mem_filter hw)).1
  · exact (v.cluster.keys_nodup .work).sublist
      ((List.filter_sublist.trans List.filter_sublist).map _)

/-- The completed Job of the last pipeline is the most recent one. -/
def RoundDone (env : Externals) (x : Trigger id) (s : World) : Prop :=
  ∀ last, Newest env id s last → ∃ j q, last = some j ∧
    x.pipelines[x.pipelines.length - 1]? = some q ∧ x.IsFor env q j ∧ Completed j

theorem exec_getAllJobs_ok (hsel : id.selectorLabels.Valid)
    {resources : List PipelineJobResources} {r : Except Failure (List Job)}
    (he : Exec (faultFree env) (getAllJobs env (x.opts resources)) s r t) :
    t = s ∧ ∃ jobs, r = .ok jobs ∧ Newest env id s (newestFirst jobs).head? := by
  have hcurrent := env.parseLabels_of_valid (selectorLabels_ne_empty id) hsel
  have hlegacy := env.parseLabels_of_valid (legacyLabels_ne_empty id) (valid_legacyLabels hsel)
  obtain ⟨a, u, h₁, he⟩ := exec_bind.mp he
  rw [x.labelsForJobs_opts, x.jobNamespace_opts] at h₁
  obtain ⟨rfl, rfl⟩ := exec_getJobsWithLabels_ok hcurrent h₁
  obtain ⟨b, v, h₂, he⟩ := exec_bind.mp he
  rw [x.legacyLabelsForJobs_opts, x.jobNamespace_opts] at h₂
  obtain ⟨rfl, rfl⟩ := exec_getJobsWithLabels_ok hlegacy h₂
  obtain ⟨rfl, rfl⟩ := he
  exact ⟨rfl, _, rfl, _, _, ⟨_, hcurrent, rfl⟩, ⟨_, hlegacy, rfl⟩, rfl⟩

/-- Behind a complete round, a call without faults reports completion. -/
theorem exec_configure_done {r : Result p}
    (hstored : s.cluster.find (.parent p) x.parent.key = some x.parent) (hapi : x.HasAPI)
    (hsel : id.selectorLabels.Valid) (hman : x.isManual = false) (hdone : RoundDone env x s)
    (he : Exec (faultFree env) (x.configure env) s r t) : r.abort = false ∧ r.err = none := by
  obtain ⟨a, u, hgen, hrec⟩ := exec_bind.mp he
  have hgen : Exec (faulty env) _ s a u := hgen.mono faulty_of_faultFree
  obtain ⟨resources, rfl⟩ := exec_generateResources_ok hapi hgen
  obtain ⟨hu, hprep⟩ := exec_generateResources hgen
  have hp : Prepared env x s resources := hprep resources rfl
  rw [hu] at hrec
  obtain ⟨b, v, hjobs, he⟩ := exec_bind.mp hrec
  obtain ⟨hv, jobs, rfl, hnew⟩ := exec_getAllJobs_ok hsel hjobs
  rw [hv] at he
  obtain ⟨job, q, hlast, hq, hfor, hcomplete⟩ := hdone _ hnew
  have hrun := completed_iff.mp hcomplete
  obtain ⟨c, w, hcount, he⟩ := exec_bind.mp he
  obtain ⟨obj, rfl, hmeta⟩ := exec_updateCounters_ok hstored hcount
  -- the last pipeline is due, and the Job belongs to it
  rw [← hp.length_eq] at hq
  have hlt : resources.length - 1 < resources.length := by
    have hlt := (List.getElem?_eq_some_iff.mp hq).1
    rwa [← hp.length_eq] at hlt
  have hres : (x.opts resources).resources[resources.length - 1]? = _ :=
    List.getElem?_eq_getElem hlt
  set res := resources[resources.length - 1]
  obtain ⟨q', hq', -, hm, -⟩ := hp.getElem? hres
  rw [hq] at hq'
  cases hq'
  have hjob : jobIsForPipeline res job = true := hm.isFor_iff.mpr hfor
  have hdue : dueIndex (x.opts resources) (some job) = resources.length - 1 :=
    dueIndex_of_last hres hjob hrun hman
  have hman' : ((x.opts resources).withParent obj).isManual = false := by
    rw [← hman]
    simp only [Opts.isManual, Opts.withParent, hmeta]
    rfl
  dsimp only [← dueIndex_eq] at he
  rw [hlast, hdue, hres] at he
  simp only [reconcilePipeline, hjob, reconcileCurrentPipeline, hrun.1, hman', hrun.2,
    Bool.false_eq_true, if_true, if_false] at he
  obtain ⟨err, y, hclean, he⟩ := exec_bind.mp he
  obtain ⟨rfl, -⟩ := he
  exact ⟨rfl, exec_cleanup_ok (x := x) hmeta rfl hsel hclean⟩

end Kratix.Workflow
