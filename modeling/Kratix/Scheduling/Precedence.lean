import Kratix.WorkCreator.Execute
import Kratix.WorkCreator.Output

/-!
# Precedence of the selectors of the default workload group

The selectors of a Promise reach a Work on two ways: through the static
dependencies, and through the scheduling ConfigMap that the work creator reads.
On both ways the first of the Promise's selectors wins, and the Promise wins
against the workflow.
-/

namespace Kratix

open Apiserver Effect GoPath

variable {env : Externals} {root : FileTree Bytes}

/-- The pipeline's value of a key for the root directory. -/
def workflowValue (scheduling : List WorkflowDestinationSelectors) (key : String) : Option String :=
  (scheduling.find? fun x => isRootDirectory x.directory).bind (·.matchLabels.lookup key)

/-- At most one entry is for the root directory. -/
theorem defaultDestinationSelectors_bind {scheduling : List WorkflowDestinationSelectors}
    (h : Accepted scheduling) (key : String) :
    (defaultDestinationSelectors scheduling).bind (·.lookup key) = workflowValue scheduling key := by
  have hlast : (scheduling.filter fun x => isRootDirectory x.directory).getLast? =
      scheduling.find? fun x => isRootDirectory x.directory := by
    rw [← List.head?_filter]
    have hnd := h.nodup.sublist (List.Sublist.map _
      (List.filter_sublist (p := fun x => isRootDirectory x.directory) (l := scheduling)))
    cases hf : scheduling.filter fun x => isRootDirectory x.directory with
    | nil => rfl
    | cons x l =>
      have hroot : ∀ y ∈ x :: l, y.directory = defaultWorkloadGroupDirectory := by
        intro y hy
        rw [← hf, List.mem_filter] at hy
        simpa [isRootDirectory] using hy.2
      cases l with
      | nil => rfl
      | cons y l =>
        rw [hf, List.map_cons, List.map_cons, List.nodup_cons] at hnd
        exact absurd (by simp [hroot x (by simp), hroot y (by simp)]) hnd.1
  rw [defaultDestinationSelectors, hlast, workflowValue]
  cases scheduling.find? fun x => isRootDirectory x.directory <;> rfl

/-! ### The entries of a Promise -/

theorem squashedFrom_promise (promise : Promise) :
    squashedFrom "promise" promise.getWorkloadGroupScheduling =
      if promise.spec.destinationSelectors.isEmpty then []
      else [⟨squashPromiseScheduling promise.spec.destinationSelectors, "promise"⟩] := by
  have hall : promise.getWorkloadGroupScheduling.filter (fun x => x.source = "promise") =
      promise.getWorkloadGroupScheduling := by
    rw [List.filter_eq_self]
    intro x hx
    obtain ⟨l, -, rfl⟩ := List.mem_map.mp hx
    simp
  simp only [squashedFrom, hall]
  simp [Promise.getWorkloadGroupScheduling, Function.comp_def]

theorem squashedFrom_promiseWorkflow (promise : Promise) :
    squashedFrom "promise-workflow" promise.getWorkloadGroupScheduling = [] := by
  have hnone : promise.getWorkloadGroupScheduling.filter
      (fun x => x.source = "promise-workflow") = [] := by
    rw [List.filter_eq_nil_iff]
    intro x hx
    obtain ⟨l, -, rfl⟩ := List.mem_map.mp hx
    simp
  simp [squashedFrom, hnone]

/-- The entries of the default workload group when the work creator reads the
scheduling of a Promise. -/
def defaultSelectors (promise : Promise) (type : WorkflowType) (workflow : Option Labels) :
    List WorkloadGroupScheduling :=
  (workflow.toList.map fun l => ⟨l, workflowSource type⟩) ++
    if promise.spec.destinationSelectors.isEmpty then []
    else [⟨squashPromiseScheduling promise.spec.destinationSelectors, "promise"⟩]

theorem lookup_resolve_defaultSelectors {promise : Promise} {type : WorkflowType}
    {workflow : Option Labels} {g : WorkloadGroup}
    (hg : g.destinationSelectors = defaultSelectors promise type workflow) (key : String) :
    (resolveDestinationSelectorsForWorkloadGroup g).lookup key =
      (promise.spec.destinationSelectors.findSome? (·.lookup key)).or
        (workflow.bind (·.lookup key)) := by
  rw [lookup_resolve, hg, ← lookup_squashPromiseScheduling]
  cases hp : promise.spec.destinationSelectors with
  | nil =>
    cases workflow <;> cases type <;>
      simp [defaultSelectors, hp, lastValue, WorkloadGroupScheduling.priority, workflowSource,
        WorkflowType.text, squashPromiseScheduling]
  | cons l ls =>
    cases workflow <;> cases type <;>
      simp [defaultSelectors, hp, lastValue, WorkloadGroupScheduling.priority, workflowSource,
        WorkflowType.text]

/-- The default workload group of a Work that the work creator made. -/
theorem default_group_selectors {f : PipelineFactory} {cm : ConfigMap} {type : WorkflowType}
    {scheduling : List WorkflowDestinationSelectors} {groups : List WorkloadGroup}
    (hcm : f.configMap env f.promise.getWorkloadGroupScheduling = some cm)
    (hfile : root.readFile ["kratix-system", "promise-scheduling"] = .ok cm.spec)
    (hsched : getWorkflowScheduling env root = .ok scheduling)
    (hgroups : getWorkloadGroups env root type = .ok groups) {g : WorkloadGroup} (hg : g ∈ groups)
    (hdir : g.directory = defaultWorkloadGroupDirectory) :
    g.destinationSelectors =
      defaultSelectors f.promise type (defaultDestinationSelectors scheduling) := by
  have hread : getPromiseScheduling env root = .ok f.promise.getWorkloadGroupScheduling := by
    have hspec : cm.spec = env.marshalScheduling f.promise.getWorkloadGroupScheduling := by
      unfold PipelineFactory.configMap at hcm
      split at hcm
      · cases hcm
      · cases hcm
        rfl
    simp [getPromiseScheduling, hfile, hspec, env.unmarshal_marshal]
  obtain ⟨scheduling', scheduled, rest, h₁, h₂, h₃, rfl⟩ := getWorkloadGroups_eq_ok.mp hgroups
  rw [hsched] at h₁
  cases h₁
  rcases List.mem_append.mp hg with hg | hg
  · -- the groups of the other directories are not the default one
    obtain ⟨x, hx, hxg⟩ := (exists_of_forall₂ h₂).1 g hg
    obtain ⟨workloads, -, rfl⟩ := scheduledWorkloadGroup_eq_ok hxg
    rw [List.mem_filter] at hx
    exact absurd hx.2 (by simpa [isRootDirectory] using hdir)
  · obtain ⟨workloads, -, ⟨-, rfl⟩ | ⟨-, selectors, hsel, rfl⟩⟩ := restWorkloadGroups_eq_ok h₃
    · cases hg
    · rw [hread] at hsel
      cases hsel
      rw [List.mem_singleton.mp hg]
      simp only [squashedFrom_promise, squashedFrom_promiseWorkflow, defaultSelectors,
        List.append_nil]

theorem lookup_resolve_by_source (g : WorkloadGroup) (key : String) :
    (resolveDestinationSelectorsForWorkloadGroup g).lookup key =
      ((lastValue g.destinationSelectors (·.source = "promise") key).or
        (lastValue g.destinationSelectors (·.source = "promise-workflow") key)).or
        (lastValue g.destinationSelectors
          (fun x => x.source ≠ "promise" ∧ x.source ≠ "promise-workflow") key) := by
  have hsources : ∀ x : WorkloadGroupScheduling,
      (decide (x.priority = 2) = decide (x.source = "promise")) ∧
        (decide (x.priority = 1) = decide (x.source = "promise-workflow")) ∧
        (decide (x.priority = 0) =
          decide (x.source ≠ "promise" ∧ x.source ≠ "promise-workflow")) := by
    intro x
    unfold WorkloadGroupScheduling.priority
    by_cases h₁ : x.source = "promise"
    · simp [h₁]
    · by_cases h₂ : x.source = "promise-workflow" <;> simp [h₁, h₂]
  rw [lookup_resolve]
  simp only [fun x => (hsources x).1, fun x => (hsources x).2.1, fun x => (hsources x).2.2]

def samplePromiseWithSelectors : Promise where
  metadata := { name := "redis" }
  spec := { destinationSelectors := [Labels.ofList [("env", "prod")],
    Labels.ofList [("env", "dev"), ("region", "eu")]] }
  status := {}

def sampleFactory : PipelineFactory :=
  Pipeline.forPromise { name := "install" } samplePromiseWithSelectors .configure

def sampleScheduling : List WorkflowDestinationSelectors :=
  [⟨Labels.ofList [("region", "us"), ("tier", "gold")], []⟩]

/-- An output with one file and selectors for the root directory. -/
@[irreducible]
def sampleRoot : FileTree Bytes :=
  .dir "input" (.file "redis.yaml" [1, 2, 3] .nil)
    (.dir "kratix-system" (.file "promise-scheduling"
        (plainExternals.marshalScheduling samplePromiseWithSelectors.getWorkloadGroupScheduling) .nil)
      (.dir "metadata" (.file "destination-selectors.yaml"
        (selectorsCodec.list.put sampleScheduling) .nil) .nil))

def sampleArgs : WorkCreatorArgs := ⟨"redis", "install", "", .promise, ""⟩

end Kratix
