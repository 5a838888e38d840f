import Kratix.Api.Types
import Kratix.Lib.Sorting

/-!
# Which selectors a workload group is scheduled with

A workload group carries a list of selector maps, each with the place it came
from. They are resolved into one map: sorted so that the Promise's come last,
and merged with the later ones winning. The selectors of a Promise are merged
the other way round before they get into a workload group.
-/

namespace Kratix

open Apiserver

/-- The selectors of a Promise as one map; the first item has priority. -/
def squashPromiseScheduling (scheduling : List Labels) : Labels :=
  scheduling.reverse.foldl Labels.merge ∅

/-- The comparison of `sortWorkloadGroupDestinationsByLowestPriority`. -/
def hasLowerPriority (i j : WorkloadGroupScheduling) : Bool :=
  if i.source = "promise" then false
  else if j.source = "promise" then true
  else if i.source = "promise-workflow" then false
  else if j.source = "promise-workflow" then true
  else false

/-- A stable sort. -/
def sortWorkloadGroupDestinationsByLowestPriority (selector : List WorkloadGroupScheduling) :
    List WorkloadGroupScheduling :=
  selector.insertionSort fun i j => hasLowerPriority j i = false

def mergeSelectors (selectors : List WorkloadGroupScheduling) : Labels :=
  (selectors.map WorkloadGroupScheduling.matchLabels).foldl Labels.merge ∅

def resolveDestinationSelectorsForWorkloadGroup (workloadGroup : WorkloadGroup) : Labels :=
  mergeSelectors
    (sortWorkloadGroupDestinationsByLowestPriority workloadGroup.destinationSelectors)

/-! ### Merging -/

/-- Merging maps one after another, the last one that has a key decides. -/
theorem lookup_foldl_merge (maps : List Labels) (start : Labels) (key : String) :
    (maps.foldl Labels.merge start).lookup key =
      (maps.filterMap (·.lookup key)).getLast?.or (start.lookup key) := by
  induction maps generalizing start with
  | nil => simp
  | cons l maps ih =>
    rw [List.foldl_cons, ih, Labels.lookup_merge]
    cases hl : l.lookup key with
    | none => simp [hl]
    | some v => simp [hl, List.getLast?_cons]

theorem lookup_squashPromiseScheduling (scheduling : List Labels) (key : String) :
    (squashPromiseScheduling scheduling).lookup key = scheduling.findSome? (·.lookup key) := by
  rw [squashPromiseScheduling, lookup_foldl_merge, List.filterMap_reverse, List.getLast?_reverse,
    List.head?_filterMap, AList.lookup_empty, Option.or_none]

/-! ### Sorting -/

/-- The rank that the comparison sorts by. -/
def WorkloadGroupScheduling.priority (x : WorkloadGroupScheduling) : ℕ :=
  if x.source = "promise" then 2 else if x.source = "promise-workflow" then 1 else 0

theorem hasLowerPriority_iff (i j : WorkloadGroupScheduling) :
    hasLowerPriority i j = true ↔ i.priority < j.priority := by
  unfold hasLowerPriority WorkloadGroupScheduling.priority
  split_ifs <;> simp

theorem sortWorkloadGroupDestinationsByLowestPriority_eq (l : List WorkloadGroupScheduling) :
    sortWorkloadGroupDestinationsByLowestPriority l =
      l.filter (·.priority = 0) ++ l.filter (·.priority = 1) ++ l.filter (·.priority = 2) := by
  have hle : ∀ i j : WorkloadGroupScheduling,
      (hasLowerPriority j i = false) = (i.priority ≤ j.priority) := by
    intro i j
    rw [← Bool.not_eq_true, hasLowerPriority_iff, Nat.not_lt]
  have hsort : sortWorkloadGroupDestinationsByLowestPriority l =
      l.insertionSort fun i j => i.priority ≤ j.priority := by
    unfold sortWorkloadGroupDestinationsByLowestPriority
    congr 1
    · exact funext fun i => funext fun j => hle i j
  rw [hsort, Sorting.insertionSort_eq_classes (n := 3)]
  · simp [Sorting.classes, List.range_succ]
  · intro x _
    unfold WorkloadGroupScheduling.priority
    split_ifs <;> omega

/-- The value of a key in the last of the chosen entries that has it. -/
def lastValue (l : List WorkloadGroupScheduling) (chosen : WorkloadGroupScheduling → Bool)
    (key : String) : Option String :=
  ((l.filter chosen).filterMap (·.matchLabels.lookup key)).getLast?

theorem lookup_resolve (g : WorkloadGroup) (key : String) :
    (resolveDestinationSelectorsForWorkloadGroup g).lookup key =
      ((lastValue g.destinationSelectors (·.priority = 2) key).or
        (lastValue g.destinationSelectors (·.priority = 1) key)).or
        (lastValue g.destinationSelectors (·.priority = 0) key) := by
  rw [resolveDestinationSelectorsForWorkloadGroup, mergeSelectors, lookup_foldl_merge,
    sortWorkloadGroupDestinationsByLowestPriority_eq, AList.lookup_empty, Option.or_none]
  simp [List.filterMap_map, List.getLast?_append, lastValue, Option.or_assoc]

end Kratix
