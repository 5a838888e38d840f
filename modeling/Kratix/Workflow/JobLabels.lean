import Kratix.Workflow.Effect

/-!
# The labels of Jobs

Which labels the Job of a pipeline carries, and what follows when the labels
of the pipeline itself do not change the ones by which Kratix identifies the
Job.
-/

namespace Kratix

open Apiserver

/-- Labels of stored objects are valid, so is every set of labels they contain. -/
theorem valid_of_fromSet {set l : Labels} (hl : l.Valid) (h : Selector.fromSet set l = true) :
    set.Valid := by
  intro e he
  have hlookup := Selector.fromSet_iff.mp h e.1 e.2 (AList.mem_lookup_iff.mpr he)
  exact hl e (AList.mem_lookup_iff.mp hlookup)

theorem isValidLabelValue_value {l : Labels} (h : l.Valid) (key : String) :
    isValidLabelValue (l.value key) = true := by
  rw [Labels.value]
  cases hv : l.lookup key with
  | none => rfl
  | some v => exact (Labels.valid_iff.mp h key v hv).2

namespace PipelineFactory

variable (f : PipelineFactory) (sha : String)

theorem text_ne_empty (w : WorkflowType) : w.text ≠ "" := by
  cases w <;> decide

theorem action_text_ne_empty (a : Action) : a.text ≠ "" := by
  cases a <;> decide

theorem lookup_optionalLabel (key v key' : String) :
    (optionalLabel key v).lookup key' = if key' = key ∧ v ≠ "" then some v else none := by
  unfold optionalLabel
  by_cases hv : v = ""
  · rw [if_pos hv, if_neg (fun h => h.2 hv)]
    exact AList.lookup_empty key'
  · rw [if_neg hv, Labels.lookup_ofList_cons]
    by_cases hk : key' = key <;> simp [hk, hv]

theorem lookup_resourceNameLabel (name key : String) :
    (resourceNameLabel name).lookup key = if key = Label.resourceName then some name else none := by
  rw [resourceNameLabel, Labels.lookup_ofList_cons, Labels.lookup_ofList_nil]

theorem lookup_ownLabels (key : String) :
    (f.ownLabels sha).lookup key =
      if key = Label.resourceHash ∧ sha ≠ "" then some sha
      else if key = Label.resourceName ∧ f.resourceRequest.isSome then
        f.resourceRequest.map (·.metadata.name)
      else if key = Label.managedBy then some "Kratix"
      else if key = Label.workflowAction then some f.workflowAction.text
      else if key = Label.pipelineName ∧ f.pipeline.name ≠ "" then some f.pipeline.name
      else if key = Label.workflowType then some f.workflowType.text
      else if key = Label.promiseName then some f.promiseName
      else none := by
  have hbase : ((((promiseNameLabel f.promiseName).merge (workflowLabels f.workflowType.text
      f.workflowAction.text f.pipeline.name)).merge managedByKratixLabel)).lookup key =
      if key = Label.managedBy then some "Kratix"
      else if key = Label.workflowAction then some f.workflowAction.text
      else if key = Label.pipelineName ∧ f.pipeline.name ≠ "" then some f.pipeline.name
      else if key = Label.workflowType then some f.workflowType.text
      else if key = Label.promiseName then some f.promiseName
      else none := by
    simp only [Labels.lookup_merge, workflowLabels, managedByKratixLabel, promiseNameLabel,
      lookup_optionalLabel, Labels.lookup_ofList_cons, Labels.lookup_ofList_nil,
      text_ne_empty, action_text_ne_empty, ne_eq, not_false_eq_true, and_true]
    split_ifs <;> rfl
  cases hrr : f.resourceRequest with
  | none =>
    simp only [ownLabels, hrr, Option.isSome_none, Bool.false_eq_true, and_false, if_false]
    by_cases hsha : sha = ""
    · simp only [hsha, ↓reduceIte, hbase, ne_eq, not_true_eq_false, and_false]
    · simp only [hsha, ↓reduceIte, Labels.lookup_insert, hbase, ne_eq, not_false_eq_true, and_true]
  | some rr =>
    simp only [ownLabels, hrr, Option.isSome_some, and_true, Option.map_some]
    by_cases hsha : sha = ""
    · simp only [hsha, ↓reduceIte, Labels.lookup_merge _ (resourceNameLabel _), hbase,
        lookup_resourceNameLabel, ne_eq, not_true_eq_false, and_false]
      split_ifs <;> rfl
    · simp only [hsha, ↓reduceIte, Labels.lookup_insert, Labels.lookup_merge _ (resourceNameLabel _),
        hbase, lookup_resourceNameLabel, ne_eq, not_false_eq_true, and_true]
      split_ifs <;> rfl

/-- The keys by which the Jobs of a workflow are told apart. -/
def identifyingKeys : List String :=
  [Label.promiseName, Label.resourceName, Label.workflowType, Label.pipelineName, Label.resourceHash]

/-- The keys by which the Jobs of a parent object are found. -/
def selectingKeys : List String := [Label.promiseName, Label.resourceName, Label.workflowType]

/-- The pipeline's own labels do not change the given ones that Kratix sets. -/
def KeepsLabels (keys : List String) : Prop :=
  ∀ key ∈ keys, ∀ v, f.pipeline.labels.lookup key = some v →
    (f.ownLabels sha).lookup key = some v

variable {f sha}

theorem KeepsLabels.lookup {keys : List String} (h : f.KeepsLabels sha keys) {key : String}
    (hk : key ∈ keys) : (f.pipelineJobLabels sha).lookup key = (f.ownLabels sha).lookup key := by
  rw [pipelineJobLabels, Labels.lookup_merge]
  cases hl : f.pipeline.labels.lookup key with
  | none => rfl
  | some v => exact (h key hk v hl).symm

theorem KeepsLabels.mono {keys keys' : List String} (h : f.KeepsLabels sha keys)
    (hk : ∀ key ∈ keys', key ∈ keys) : f.KeepsLabels sha keys' :=
  fun key hkey => h key (hk key hkey)

theorem selectingKeys_subset : ∀ key ∈ selectingKeys, key ∈ identifyingKeys := by decide

theorem lookup_promiseName : (f.ownLabels sha).lookup Label.promiseName = some f.promiseName := by
  rw [lookup_ownLabels]
  simp [Label.promiseName, Label.resourceHash, Label.resourceName, Label.managedBy,
    Label.workflowAction, Label.pipelineName, Label.workflowType]

theorem lookup_workflowType :
    (f.ownLabels sha).lookup Label.workflowType = some f.workflowType.text := by
  rw [lookup_ownLabels]
  simp [Label.resourceHash, Label.resourceName, Label.managedBy, Label.workflowAction,
    Label.pipelineName, Label.workflowType]

theorem lookup_resourceName :
    (f.ownLabels sha).lookup Label.resourceName = f.resourceRequest.map (·.metadata.name) := by
  rw [lookup_ownLabels]
  cases f.resourceRequest <;>
    simp [Label.promiseName, Label.resourceHash, Label.resourceName, Label.managedBy,
      Label.workflowAction, Label.pipelineName, Label.workflowType]

theorem value_pipelineName : (f.ownLabels sha).value Label.pipelineName = f.pipeline.name := by
  rw [Labels.value, lookup_ownLabels]
  by_cases h : f.pipeline.name = "" <;>
    simp [h, Label.promiseName, Label.resourceHash, Label.resourceName, Label.managedBy,
      Label.workflowAction, Label.pipelineName, Label.workflowType]

theorem value_resourceHash : (f.ownLabels sha).value Label.resourceHash = sha := by
  rw [Labels.value, lookup_ownLabels]
  by_cases h : sha = "" <;>
    simp [h, Label.promiseName, Label.resourceHash, Label.resourceName, Label.managedBy,
      Label.workflowAction, Label.pipelineName, Label.workflowType]

end PipelineFactory

end Kratix
