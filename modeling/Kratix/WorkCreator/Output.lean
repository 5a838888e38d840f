import Kratix.WorkCreator

/-!
# The workload groups of an output

When the work creator accepts the output of a pipeline, its workload groups
are one for each directory that the pipeline gives selectors for, and one for
the rest of the output unless that is empty.
-/

namespace Kratix

open Apiserver Effect GoPath

variable {env : Externals} {root : FileTree Bytes}

/-- What is checked of a `destination-selectors.yaml` document. -/
structure Accepted (scheduling : List WorkflowDestinationSelectors) : Prop where
  selectors : ∀ x ∈ scheduling, x.matchLabels.entries ≠ []
  nodup : (scheduling.map WorkflowDestinationSelectors.directory).Nodup
  flat : ∀ x ∈ scheduling, base x.directory = x.directory
  clean : ∀ x ∈ scheduling, ∃ p, x.directory = clean p

theorem accepted_nil : Accepted [] where
  selectors := by simp
  nodup := by simp
  flat := by simp
  clean := by simp

theorem parseDestinationSelectors_accepted {bytes : Bytes}
    {scheduling : List WorkflowDestinationSelectors}
    (h : parseDestinationSelectors env bytes = .ok scheduling) : Accepted scheduling := by
  unfold parseDestinationSelectors at h
  split at h
  · cases h
  · next config _ =>
    dsimp only at h
    split at h
    · cases h
    · next hidx =>
      split at h
      · cases h
      · next hdup =>
        split at h
        · cases h
        · next hsub =>
          cases h
          exact {
            selectors := by simpa [List.findIdx?_eq_none_iff] using hidx
            nodup := by simpa [containsDuplicateScheduling] using hdup
            flat := by simpa [containsSubDirectory] using hsub
            clean := by
              intro x hx
              obtain ⟨y, -, rfl⟩ := List.mem_map.mp hx
              exact ⟨y.directory, rfl⟩ }

theorem getWorkflowScheduling_accepted {scheduling : List WorkflowDestinationSelectors}
    (h : getWorkflowScheduling env root = .ok scheduling) : Accepted scheduling := by
  unfold getWorkflowScheduling at h
  split at h
  · cases h
    exact accepted_nil
  · cases h
  · exact parseDestinationSelectors_accepted h

theorem bind_eq_ok {α β : Type} {x : Except Failure α} {f : α → Except Failure β} {b : β} :
    (x >>= f) = .ok b ↔ ∃ a, x = .ok a ∧ f a = .ok b := by
  cases x with
  | error e =>
    constructor
    · intro h
      cases h
    · rintro ⟨a, h, -⟩
      cases h
  | ok a =>
    constructor
    · exact fun h => ⟨a, rfl, h⟩
    · rintro ⟨a', h, h'⟩
      cases h
      exact h'

theorem mapM_eq_ok {α β : Type} {f : α → Except Failure β} {l : List α} {l' : List β} :
    l.mapM f = .ok l' ↔ List.Forall₂ (fun a b => f a = .ok b) l l' := by
  induction l generalizing l' with
  | nil =>
    rw [List.mapM_nil]
    constructor
    · rintro h
      cases h
      exact .nil
    · rintro h
      cases h
      rfl
  | cons a l ih =>
    rw [List.mapM_cons, bind_eq_ok]
    constructor
    · rintro ⟨b, hb, h⟩
      obtain ⟨bs, hbs, h⟩ := bind_eq_ok.mp h
      cases h
      exact .cons hb (ih.mp hbs)
    · rintro h
      cases h with
      | cons hb hbs => exact ⟨_, hb, bind_eq_ok.mpr ⟨_, ih.mpr hbs, rfl⟩⟩

theorem exists_of_forall₂ {α β : Type} {R : α → β → Prop} {l : List α} {l' : List β}
    (h : List.Forall₂ R l l') :
    (∀ b ∈ l', ∃ a ∈ l, R a b) ∧ ∀ a ∈ l, ∃ b ∈ l', R a b := by
  induction h with
  | nil => simp
  | cons hab _ ih =>
    constructor
    · intro b hb
      rcases List.mem_cons.mp hb with rfl | hb
      · exact ⟨_, by simp, hab⟩
      · obtain ⟨a, ha, h⟩ := ih.1 b hb
        exact ⟨a, by simp [ha], h⟩
    · intro a ha
      rcases List.mem_cons.mp ha with rfl | ha
      · exact ⟨_, by simp, hab⟩
      · obtain ⟨b, hb, h⟩ := ih.2 a ha
        exact ⟨b, by simp [hb], h⟩

/-- The parts that the workload groups of an output are made of. -/
theorem getWorkloadGroups_eq_ok {type : WorkflowType} {groups : List WorkloadGroup} :
    getWorkloadGroups env root type = .ok groups ↔
      ∃ scheduling scheduled rest, getWorkflowScheduling env root = .ok scheduling ∧
        List.Forall₂ (fun x g => scheduledWorkloadGroup env root type x = .ok g)
          (scheduling.filter fun x => !isRootDirectory x.directory) scheduled ∧
        restWorkloadGroups env root type scheduling = .ok rest ∧ groups = scheduled ++ rest := by
  unfold getWorkloadGroups
  simp only [bind_eq_ok, mapM_eq_ok]
  constructor
  · rintro ⟨scheduling, h₁, scheduled, h₂, rest, h₃, h₄⟩
    cases h₄
    exact ⟨scheduling, scheduled, rest, h₁, h₂, h₃, rfl⟩
  · rintro ⟨scheduling, scheduled, rest, h₁, h₂, h₃, rfl⟩
    exact ⟨scheduling, h₁, scheduled, h₂, rest, h₃, rfl⟩

theorem scheduledWorkloadGroup_eq_ok {type : WorkflowType} {x : WorkflowDestinationSelectors}
    {g : WorkloadGroup} (h : scheduledWorkloadGroup env root type x = .ok g) :
    ∃ workloads, getWorkloads env root (join [pipelineOutputDir, x.directory]) [] = .ok workloads ∧
      g = ⟨workloads, x.directory, workloadGroupID env x.directory,
        [⟨x.matchLabels, workflowSource type⟩]⟩ := by
  unfold scheduledWorkloadGroup at h
  split at h
  · cases h
  · next workloads hw =>
    cases h
    exact ⟨workloads, hw, rfl⟩

theorem restWorkloadGroups_eq_ok {type : WorkflowType}
    {scheduling : List WorkflowDestinationSelectors} {rest : List WorkloadGroup}
    (h : restWorkloadGroups env root type scheduling = .ok rest) :
    ∃ workloads, getWorkloads env root pipelineOutputDir
        (directoriesToIgnoreForTheBaseScheduling scheduling) = .ok workloads ∧
      ((workloads = [] ∧ rest = []) ∨
        workloads ≠ [] ∧ ∃ selectors, getPromiseScheduling env root = .ok selectors ∧
          rest = [⟨workloads, defaultWorkloadGroupDirectory,
            workloadGroupID env defaultWorkloadGroupDirectory,
            ((defaultDestinationSelectors scheduling).toList.map fun l =>
              ⟨l, workflowSource type⟩) ++ squashedFrom "promise-workflow" selectors ++
              squashedFrom "promise" selectors⟩]) := by
  unfold restWorkloadGroups at h
  split at h
  · cases h
  · next hw =>
    cases h
    exact ⟨[], hw, Or.inl ⟨rfl, rfl⟩⟩
  · next workloads hne hw =>
    refine ⟨workloads, hw, Or.inr ⟨hne, ?_⟩⟩
    split at h
    · cases h
    · next group hgroup =>
      cases h
      unfold defaultWorkloadGroup at hgroup
      split at hgroup
      · cases hgroup
      · next selectors hsel =>
        cases hgroup
        exact ⟨selectors, hsel, rfl⟩

end Kratix
