import Kratix.Footprint
import Kratix.Scheduling.Scheduler

/-!
# What the scheduler writes

The scheduler writes WorkPlacements and the status of the Work, and deletes
WorkPlacements. Which WorkPlacements it writes depends on what the first list
calls returned, so the policies here take the permitted ones as a parameter.
-/

namespace Kratix

open Apiserver Effect

variable {env : Externals} {A : WorkPlacement → Prop} {s t : World}

/-! ### Reading -/

section

variable {p : Policy}

theorem obeys_getDestinationsForWorkloadGroup (m : Labels) :
    Obeys p (getDestinationsForWorkloadGroup env m) := by
  refine obeys_bind (obeys_listObjects _ _) ?_
  rintro (e | items) <;> exact obeys_pure _

theorem obeys_getTargetDestinationNames (m : Labels) (work : Work) :
    Obeys p (getTargetDestinationNames env m work) := by
  refine obeys_bind (obeys_getDestinationsForWorkloadGroup m) ?_
  rintro (_ | ⟨d, ds⟩)
  · exact obeys_pure _
  · dsimp only
    split
    · exact obeys_bind (obeys_randIntn _) fun _ => obeys_pure _
    · exact obeys_pure _

theorem obeys_listWorkplacementWithLabels (ns : String) (l : Labels) :
    Obeys p (listWorkplacementWithLabels env ns l) := by
  refine obeys_bind (obeys_listObjects _ _) ?_
  rintro (e | items) <;> exact obeys_pure _

theorem obeys_namesThatShouldExist (work : Work) (groups : List WorkloadGroup) :
    Obeys p (namesThatShouldExist env work groups) := by
  induction groups with
  | nil => exact obeys_pure _
  | cons g groups ih =>
    refine obeys_bind (obeys_listWorkplacementWithLabels _ _) ?_
    rintro (e | wps)
    · exact obeys_pure _
    · refine obeys_bind ih ?_
      rintro (e | names) <;> exact obeys_pure _

end

/-- The selector by which the Destinations of a workload group are listed. -/
def destinationSelector (env : Externals) (m : Labels) : Selector :=
  if m.entries.isEmpty then Selector.everything else selectorOrEverything env m

theorem exec_getDestinationsForWorkloadGroup {m : Labels} {r : List Destination}
    (he : Exec (faulty env) (getDestinationsForWorkloadGroup env m) s r t) :
    t = s ∧ ∀ d ∈ r, d ∈ s.cluster.objects .destination ∧
      destinationSelector env m d.metadata.labels = true ∧ isAvailable m d = true := by
  obtain ⟨a, u, hlist, he⟩ := exec_bind.mp he
  obtain ⟨rfl, hl⟩ := exec_listObjects hlist
  cases a with
  | error e =>
    obtain ⟨rfl, rfl⟩ := he
    exact ⟨rfl, by simp⟩
  | ok items =>
    obtain ⟨rfl, rfl⟩ := he
    refine ⟨rfl, fun d hd => ?_⟩
    rw [List.mem_filter, hl items rfl, Cluster.mem_listed] at hd
    exact ⟨hd.1.1, hd.1.2.2, hd.2⟩

theorem exec_getTargetDestinationNames {m : Labels} {work : Work} {r : List String}
    (he : Exec (faulty env) (getTargetDestinationNames env m work) s r t) :
    t = s ∧ ∀ name ∈ r, ∃ d ∈ s.cluster.objects .destination, d.metadata.name = name ∧
      destinationSelector env m d.metadata.labels = true ∧ isAvailable m d = true := by
  obtain ⟨ds, u, hdest, he⟩ := exec_bind.mp he
  obtain ⟨rfl, hd⟩ := exec_getDestinationsForWorkloadGroup hdest
  have hmem : ∀ d ∈ ds, ∃ d' ∈ u.cluster.objects .destination, d'.metadata.name = d.metadata.name ∧
      destinationSelector env m d'.metadata.labels = true ∧ isAvailable m d' = true :=
    fun d h => ⟨d, (hd d h).1, rfl, (hd d h).2⟩
  rcases ds with _ | ⟨d, ds⟩
  · obtain ⟨rfl, rfl⟩ := he
    exact ⟨rfl, by simp⟩
  · dsimp only at he
    split at he
    · obtain ⟨i, v, hi, hret⟩ := exec_bind.mp he
      obtain ⟨-, rfl⟩ := exec_perform.mp hi
      obtain ⟨rfl, rfl⟩ := hret
      refine ⟨rfl, fun name hname => ?_⟩
      rw [Option.mem_toList, Option.map_eq_some_iff] at hname
      obtain ⟨x, hx, rfl⟩ := hname
      exact hmem x (List.mem_of_getElem? hx)
    · obtain ⟨rfl, rfl⟩ := he
      refine ⟨rfl, fun name hname => ?_⟩
      obtain ⟨x, hx, rfl⟩ := List.mem_map.mp hname
      exact hmem x hx

theorem exec_listWorkplacementWithLabels {ns : String} {l : Labels}
    {r : Except Failure (List WorkPlacement)}
    (he : Exec (faulty env) (listWorkplacementWithLabels env ns l) s r t) :
    t = s ∧ ∀ wps, r = .ok wps →
      wps = s.cluster.listed .workPlacement ns (selectorOrEverything env l) := by
  obtain ⟨a, u, hlist, he⟩ := exec_bind.mp he
  obtain ⟨rfl, hl⟩ := exec_listObjects hlist
  cases a with
  | error e =>
    obtain ⟨rfl, rfl⟩ := he
    exact ⟨rfl, fun wps h => by cases h⟩
  | ok items =>
    obtain ⟨rfl, rfl⟩ := he
    refine ⟨rfl, fun wps h => ?_⟩
    cases h
    exact hl items rfl

end Kratix
