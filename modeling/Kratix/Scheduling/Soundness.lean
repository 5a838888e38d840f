import Kratix.Scheduling.Complete
import Kratix.Scheduling.Progress

/-!
# Selectors are respected

A group is newly scheduled to a Destination only if the Destination carries the
group's selectors, provided the text of the selectors is understood: where it
does not parse, the scheduler lists all Destinations.
-/

namespace Kratix

open Apiserver Effect

variable {env : Externals} {h : Handler signature World} {s t : World} {work : Work}
  {g : WorkloadGroup}

/-- Some WorkPlacement takes the group of this ID to the Destination. -/
def ScheduledTo (s : World) (work : Work) (id name : String) : Prop :=
  ∃ key x, Holds s work id key x ∧ x.spec.targetDestinationName = name

/-- The text of the selectors parses, as a selector that asks for all of them. -/
def Readable (env : Externals) (m : Labels) : Prop :=
  m = ∅ ∨ ∃ sel, env.parseLabels m = some sel ∧ ∀ l : Labels, l.Valid → sel l = true →
    ∀ key v, m.lookup key = some v → l.lookup key = some v

theorem selects_of_readable {m : Labels} (hm : Readable env m) {dest : Destination}
    (hdest : dest ∈ s.cluster.objects .destination)
    (hsel : destinationSelector env m dest.metadata.labels = true)
    (havailable : isAvailable m dest = true) : Selects m dest := by
  obtain ⟨hlive, hstrict⟩ := isAvailable_iff.mp havailable
  refine ⟨hlive, ?_, hstrict⟩
  rcases hm with rfl | ⟨sel, hparse, hasks⟩
  · intro key v hv
    cases hv
  · by_cases hempty : m.entries.isEmpty = true
    · intro key v hv
      rw [entries_isEmpty_iff.mp hempty] at hv
      cases hv
    · rw [destinationSelector, if_neg hempty, selectorOrEverything, hparse] at hsel
      exact hasks _ (s.cluster.labels_valid .destination dest hdest) hsel

/-! ### What is scheduled -/

/-- A property of the scheduled pairs that new ones have too is kept for a group. -/
theorem GroupOutcome.scheduledTo (hh : Refines env h) {r : Except Failure SchedulingStatus}
    (hg : GroupOutcome env h work g s r t) (hns : work.metadata.ns ≠ "")
    {Q : String → String → Prop} (hold : ∀ id d, ScheduledTo s work id d → Q id d)
    (hnew : ∀ dest ∈ s.cluster.objects .destination,
      destinationSelector env (resolveDestinationSelectorsForWorkloadGroup g)
        dest.metadata.labels = true →
      isAvailable (resolveDestinationSelectorsForWorkloadGroup g) dest = true →
      Q g.id dest.metadata.name) {id d : String} (hd : ScheduledTo t work id d) : Q id d := by
  obtain ⟨key, x, hx, rfl⟩ := hd
  have hsame : t.placement key = s.placement key → Q id x.spec.targetDestinationName := fun hsame =>
    hold _ _ ⟨key, x, ⟨hsame ▸ hx.stored, hx.belongsTo, hx.groupID_eq⟩, rfl⟩
  cases hg with
  | failed heq => exact hsame (by rw [heq])
  | updates _ _ hupdates =>
    rcases hupdates.entry key with heq | ⟨y, hy, rfl, hto⟩
    · exact hsame heq
    · have hy' := existingPlacements_mem hy
      rcases hto with heq | ⟨hnone, -⟩ | ⟨mis, y', heq, hup⟩
      · exact hsame (heq.trans hy'.symm)
      · exact absurd (hnone.symm.trans hx.stored) (by simp)
      · obtain rfl : y' = x := Option.some.inj (heq.symm.trans hx.stored)
        exact hold _ _ ⟨y.key, y, ⟨hy', hup.belongsTo_iff.mp hx.belongsTo,
          hup.groupID_eq.symm.trans hx.groupID_eq⟩, hup.target.symm⟩
  | places names targets _ hnames htargets happlies =>
    rcases happlies.entry key with heq | ⟨d, hd, -, y, hy, hover⟩
    · exact hsame heq
    · obtain rfl : y = x := Option.some.inj (hy.symm.trans hx.stored)
      obtain rfl : g.id = id :=
        Option.some.inj (hover.isPlacement.groupID_eq.symm.trans hx.groupID_eq)
      rw [hover.isPlacement.target]
      rcases (htargets d).mp hd with hd | ⟨z, hz, rfl⟩
      · obtain ⟨-, hall⟩ := exec_getTargetDestinationNames (hnames.mono hh)
        obtain ⟨dest, hdest, rfl, hsel, havailable⟩ := hall d hd
        exact hnew dest hdest hsel havailable
      · exact hold _ _ ⟨z.key, z,
          (mem_existingPlacements_iff hns hx.valid.1 hx.valid.2).mp hz, rfl⟩

theorem GroupsRun.scheduledTo (hh : Refines env h) {groups : List WorkloadGroup} {b : Bool}
    (hrun : GroupsRun env h work groups s b t) (hns : work.metadata.ns ≠ "")
    {Q : String → String → Prop} (hold : ∀ id d, ScheduledTo s work id d → Q id d)
    (hnew : ∀ g ∈ groups, ∀ dest ∈ s.cluster.objects .destination,
      destinationSelector env (resolveDestinationSelectorsForWorkloadGroup g)
        dest.metadata.labels = true →
      isAvailable (resolveDestinationSelectorsForWorkloadGroup g) dest = true →
      Q g.id dest.metadata.name) {id d : String} (hd : ScheduledTo t work id d) : Q id d := by
  induction hrun generalizing id d with
  | done s => exact hold id d hd
  | stop hg _ => exact hg.scheduledTo hh hns hold (hnew _ (by simp)) hd
  | next hg _ ih =>
    refine ih (fun id d => hg.scheduledTo hh hns hold (hnew _ (by simp))) ?_ hd
    rw [hg.others (by decide)]
    exact fun g hg => hnew g (by simp [hg])

theorem Deletes.scheduledTo {doomed : WorkPlacement → Prop} (hd : Deletes doomed s t)
    {id d : String} (ht : ScheduledTo t work id d) : ScheduledTo s work id d := by
  obtain ⟨key, x, hx, rfl⟩ := ht
  rcases hd.entry key with hsame | ⟨y, hy, -, hnew⟩
  · exact ⟨key, x, ⟨hsame ▸ hx.stored, hx.belongsTo, hx.groupID_eq⟩, rfl⟩
  · obtain rfl := Object.settle_eq_some (hnew.symm.trans hx.stored)
    exact ⟨key, y, ⟨hy, hx.belongsTo, hx.groupID_eq⟩, rfl⟩

/-- Whatever a call newly schedules was selected by the selectors of the group. -/
theorem exec_reconcileWork_scheduledTo {r : ScheduleResult} (hns : work.metadata.ns ≠ "")
    (hread : ∀ g ∈ work.spec.workloadGroups,
      Readable env (resolveDestinationSelectorsForWorkloadGroup g))
    (he : Exec (faulty env) (reconcileWork env work) s r t) {id d : String}
    (ht : ScheduledTo t work id d) : ScheduledTo s work id d ∨
      ∃ g ∈ work.spec.workloadGroups, g.id = id ∧ ∃ dest ∈ s.cluster.objects .destination,
        dest.metadata.name = d ∧ Selects (resolveDestinationSelectorsForWorkloadGroup g) dest := by
  have hh : Refines env (faulty env) := fun _ _ _ _ hc => hc
  obtain ⟨b, u, v, hrun, hsame, hend⟩ := exec_reconcileWork hh he
  have hv : ScheduledTo v work id d := by
    rcases hend with ⟨rfl, -⟩ | ⟨-, work', -, -, hclean⟩
    · exact ht
    · exact (exec_cleanupDanglingWorkplacements hclean).1.scheduledTo ht
  have hu : ScheduledTo u work id d := by
    obtain ⟨key, x, hx, hd⟩ := hv
    exact ⟨key, x, hsame.holds_iff.mp hx, hd⟩
  refine hrun.scheduledTo hh hns (Q := fun id d => ScheduledTo s work id d ∨
      ∃ g ∈ work.spec.workloadGroups, g.id = id ∧ ∃ dest ∈ s.cluster.objects .destination,
        dest.metadata.name = d ∧ Selects (resolveDestinationSelectorsForWorkloadGroup g) dest)
    (fun _ _ => Or.inl) ?_ hu
  intro g hg dest hdest hsel havailable
  exact Or.inr ⟨g, hg, rfl, dest, hdest, rfl,
    selects_of_readable (hread g hg) hdest hsel havailable⟩

/-! ### A Work and a Destination -/

/-- A cluster that holds one Work and one Destination. -/
def worldWith (work : Work) (dest : Destination) (hw : work.metadata.labels.Valid)
    (hd : dest.metadata.labels.Valid) : World where
  cluster := ((Cluster.empty scheme).add .work work hw (by simp [Cluster.empty])).add .destination
    dest hd (by simp [Cluster.empty])

section

variable {dest : Destination} {hw : work.metadata.labels.Valid} {hd : dest.metadata.labels.Valid}

theorem placement_worldWith (key : String × String) :
    (worldWith work dest hw hd).placement key = none := by
  rw [World.placement, Cluster.find_eq_none]
  simp [worldWith, Cluster.empty]

variable (work dest hw hd) in
theorem destinations_worldWith :
    (worldWith work dest hw hd).cluster.objects .destination = [dest.stampedAt 1] := rfl

theorem schedulable_worldWith (hns : work.metadata.ns ≠ "")
    (hname : isValidLabelValue work.metadata.name = true)
    (hdest : isValidLabelValue dest.metadata.name = true) :
    Schedulable (work.stampedAt 0) (worldWith work dest hw hd) where
  ns := hns
  name := hname
  labels := hw
  tidy := ⟨fun g d x hx => by simp [placement_worldWith] at hx,
    fun key x hx => by simp [placement_worldWith] at hx⟩
  live := fun key x hx => by simp [placement_worldWith] at hx
  destinations := by
    intro d hd'
    rw [destinations_worldWith work dest hw hd, List.mem_singleton] at hd'
    rw [hd']
    exact hdest
  targets := fun key x hx => by simp [placement_worldWith] at hx

end

def groupSelecting (selectors : List WorkloadGroupScheduling) : WorkloadGroup :=
  ⟨[], [], "group", selectors⟩

/-- A dependency with one group that has these selectors. -/
def workSelecting (selectors : List WorkloadGroupScheduling) : Work :=
  ⟨{ ns := "default", name := "work" },
    { workloadGroups := [groupSelecting selectors], promiseName := "promise" }, {}⟩

def destinationLabelled (labels : Labels) : Destination :=
  ⟨{ name := "destination", labels := labels },
    { path := [], stateStoreRef := ⟨.git, "store"⟩ }, {}⟩

theorem valid_workSelecting (selectors : List WorkloadGroupScheduling) :
    (workSelecting selectors).metadata.labels.Valid :=
  fun e he => by cases he

/-- The dependency, and a Destination with these labels. -/
def worldSelecting (selectors : List WorkloadGroupScheduling) {l : Labels} (hl : l.Valid) : World :=
  worldWith (workSelecting selectors) (destinationLabelled l) (valid_workSelecting selectors) hl

theorem schedulable_worldSelecting (selectors : List WorkloadGroupScheduling) {l : Labels}
    (hl : l.Valid) : Schedulable (workSelecting selectors) (worldSelecting selectors hl) :=
  @schedulable_worldWith (workSelecting selectors) (destinationLabelled l) _ _
    (show "default" ≠ "" by decide) (show isValidLabelValue "work" = true by decide)
    (show isValidLabelValue "destination" = true by decide)

theorem not_scheduledTo_worldSelecting (selectors : List WorkloadGroupScheduling) {l : Labels}
    (hl : l.Valid) {id d : String} :
    ¬ ScheduledTo (worldSelecting selectors hl) (workSelecting selectors) id d := by
  rintro ⟨key, x, hx, -⟩
  have hnone : (worldSelecting selectors hl).placement key = none := placement_worldWith key
  exact absurd (hnone.symm.trans hx.stored) (by simp)

/-- A Destination that the listing returns is scheduled to. -/
theorem exists_scheduledTo (env : Externals) (selectors : List WorkloadGroupScheduling)
    {l : Labels} (hl : l.Valid)
    (hsel : destinationSelector env
      (resolveDestinationSelectorsForWorkloadGroup (groupSelecting selectors)) l = true)
    (hne : resolveDestinationSelectorsForWorkloadGroup (groupSelecting selectors) ≠ ∅) :
    ∃ r t, Exec (unfailing env) (reconcileWork env (workSelecting selectors))
      (worldSelecting selectors hl) r t ∧ ScheduledTo t (workSelecting selectors) "group" "destination" := by
  have hs := schedulable_worldSelecting selectors hl
  have hid : (groupSelecting selectors).id = "group" := rfl
  have hstored : workSelecting selectors ∈ (worldSelecting selectors hl).cluster.objects .work :=
    List.mem_singleton.mpr rfl
  have hgroups : ∀ g ∈ (workSelecting selectors).spec.workloadGroups,
      5 ≤ g.id.length ∧ isValidLabelValue g.id = true := by
    intro g hg
    rw [List.mem_singleton.mp hg, hid]
    decide
  have hc : Callable (workSelecting selectors) (worldSelecting selectors hl) :=
    ⟨hs.ns, hstored, ⟨fun g hg => (hgroups g hg).1, by simp [workSelecting]⟩, hs.tidy,
      hs.live.lasting⟩
  have hlist : ∀ g ∈ (workSelecting selectors).spec.workloadGroups,
      Listable (workSelecting selectors) g := fun g _ hr => by cases hr
  obtain ⟨r, t, he⟩ := exists_reconcileWork env hs hstored hgroups
  refine ⟨r, t, he, ?_⟩
  obtain ⟨u, v, hrun, hsame, hdel, -⟩ := exec_reconcileWork_unfailing hc hlist he
  have hg : groupSelecting selectors ∈ (workSelecting selectors).spec.workloadGroups :=
    List.mem_singleton.mpr rfl
  obtain ⟨s', st, t', hpart⟩ := hrun.part rfl hc.tidy hc.ns hlist hc.prefixes hg
  obtain ⟨names, targets, hnames, htargets, hplaced, -⟩ := hpart.dependency hc.ns rfl
  have hdest : "destination" ∈ names := by
    rw [(exec_getTargetDestinationNames_unfailing hnames).1 rfl]
    refine List.mem_map.mpr ⟨(destinationLabelled l).stampedAt 1, ?_, rfl⟩
    rw [mem_chosenDestinations, hpart.others .destination (by decide)]
    exact ⟨List.mem_singleton.mpr rfl, hsel, isAvailable_iff.mpr ⟨rfl, fun h => absurd h hne⟩⟩
  obtain ⟨x, hx, hplacement, -⟩ := hplaced "destination" ((htargets _).mpr (Or.inl hdest))
  exact ⟨_, x, (hdel.holds_iff hc.ns hg).mpr (hsame.holds_iff.mpr hx), hplacement.target⟩

/-- A selector whose key holds a blank, which no label key may. -/
def unreadableSelectors : List WorkloadGroupScheduling :=
  [⟨Labels.ofList [("data center", "frankfurt")], "promise"⟩]

/-- Such a group is scheduled to a Destination without any label. -/
theorem unreadable_selectors_match_everything :
    ∃ (s t : World) (r : ScheduleResult),
      Exec (faulty plainExternals) (reconcileWork plainExternals
        (workSelecting unreadableSelectors)) s r t ∧
      ScheduledTo t (workSelecting unreadableSelectors) "group" "destination" ∧
      ¬ ScheduledTo s (workSelecting unreadableSelectors) "group" "destination" ∧
      ∀ dest ∈ s.cluster.objects .destination, ¬ Selects
        (resolveDestinationSelectorsForWorkloadGroup (groupSelecting unreadableSelectors)) dest := by
  have hl : Labels.Valid ∅ := fun e he => by cases he
  obtain ⟨r, t, he, hscheduled⟩ := exists_scheduledTo plainExternals unreadableSelectors hl
    (by decide +kernel) (by decide +kernel)
  refine ⟨_, t, r, he.mono faulty_of_unfailing, hscheduled,
    not_scheduledTo_worldSelecting _ hl, fun dest hdest hselects => ?_⟩
  have hcarries := hselects.carries "data center" "frankfurt" (by decide +kernel)
  rw [show dest = (destinationLabelled ∅).stampedAt 1 from List.mem_singleton.mp hdest] at hcarries
  cases hcarries

/-- Every new placement respects the selectors exactly if each accepted list of
selectors can be read. -/
theorem newly_scheduled_selected_iff (env : Externals)
    (accepted : Set (List WorkloadGroupScheduling)) :
    (∀ (work : Work) (s t : World) (r : ScheduleResult), work.metadata.ns ≠ "" →
      (∀ g ∈ work.spec.workloadGroups, g.destinationSelectors ∈ accepted) →
      Exec (faulty env) (reconcileWork env work) s r t →
      ∀ id name, ScheduledTo t work id name → ¬ ScheduledTo s work id name →
        ∃ g ∈ work.spec.workloadGroups, g.id = id ∧ ∃ dest ∈ s.cluster.objects .destination,
          dest.metadata.name = name ∧
            Selects (resolveDestinationSelectorsForWorkloadGroup g) dest) ↔
    ∀ g : WorkloadGroup, g.destinationSelectors ∈ accepted →
      Readable env (resolveDestinationSelectorsForWorkloadGroup g) := by
  constructor
  · intro hsound g hg
    by_contra hread
    unfold Readable at hread
    push Not at hread
    obtain ⟨hne, hparse⟩ := hread
    -- labels that the listing accepts although they do not carry the selectors
    obtain ⟨l, hl, hsel, key, v, hv, hmissing⟩ : ∃ l : Labels, l.Valid ∧
        destinationSelector env (resolveDestinationSelectorsForWorkloadGroup g) l = true ∧
        ∃ key v, (resolveDestinationSelectorsForWorkloadGroup g).lookup key = some v ∧
          l.lookup key ≠ some v := by
      have hempty : ¬ (resolveDestinationSelectorsForWorkloadGroup g).entries.isEmpty = true :=
        fun h => hne (entries_isEmpty_iff.mp h)
      rw [destinationSelector, if_neg hempty, selectorOrEverything]
      cases hp : env.parseLabels (resolveDestinationSelectorsForWorkloadGroup g) with
      | none =>
        obtain ⟨e, he⟩ := List.exists_mem_of_ne_nil _ (List.isEmpty_iff.not.mp hempty)
        refine ⟨∅, ?_, rfl, e.1, e.2, AList.mem_lookup_iff.mpr he, by simp⟩
        intro e he
        cases he
      | some sel =>
        obtain ⟨l, hl, hsel, key, v, hv, hmissing⟩ := hparse sel hp
        exact ⟨l, hl, hsel, key, v, hv, hmissing⟩
    obtain ⟨r, t, he, hscheduled⟩ := exists_scheduledTo env g.destinationSelectors hl hsel hne
    obtain ⟨g', hg', -, dest, hdest, -, hselects⟩ := hsound _ _ t r
      (show "default" ≠ "" by decide)
      (fun g' hg' => by rw [List.mem_singleton.mp hg']; exact hg)
      (he.mono faulty_of_unfailing) _ _ hscheduled (not_scheduledTo_worldSelecting _ hl)
    rw [List.mem_singleton.mp hg', show dest = (destinationLabelled l).stampedAt 1 from
      List.mem_singleton.mp hdest] at hselects
    exact hmissing (hselects.carries key v hv)
  · intro hread work s t r hns haccepted he id name ht hnot
    exact (exec_reconcileWork_scheduledTo hns (fun g hg => hread g (haccepted g hg)) he
      ht).resolve_left hnot

end Kratix
