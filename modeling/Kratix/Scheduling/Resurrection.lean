import Kratix.Scheduling.Footprint
import Kratix.Scheduling.Marks

/-!
# WorkPlacements that come back

The scheduler lists the WorkPlacements of a group, selects Destinations, and then
writes a WorkPlacement for each Destination of either kind. Others act between
its calls. A WorkPlacement that is gone when its turn comes is created again, also
if its Destination was not selected.
-/

namespace Kratix

open Apiserver Effect

/-- Every outcome of a call, after others did something that `R` allows. -/
def amidst (env : Externals) (R : World → World → Prop) : Handler signature World :=
  fun call s r t => ∃ u, R s u ∧ faulty env call u r t

variable {env : Externals} {R : World → World → Prop} {s t u v w : World} {work : Work}
  {g : WorkloadGroup}

/-- The call, made in `s`, has listed the WorkPlacements of the group and selected
Destinations for it. -/
def Selected (env : Externals) (R : World → World → Prop) (work : Work) (s : World)
    (g : WorkloadGroup) (existing : List WorkPlacement) (names : List String) (v : World) : Prop :=
  ∃ before after lists t u, work.spec.workloadGroups = before ++ g :: after ∧
    Exec (amidst env R) (reconcileWorkloadGroups env work before [] []) s (.ok lists) t ∧
    Exec (amidst env R) (getExistingWorkPlacementsForWorkloadGroup env work.metadata.ns
      work.metadata.name g) t (.ok existing) u ∧
    Exec (amidst env R) (getTargetDestinationNames env
      (resolveDestinationSelectorsForWorkloadGroup g) work) u names v

/-- It goes on to create this WorkPlacement of the group. -/
def Creates (env : Externals) (R : World → World → Prop) (work : Work) (g : WorkloadGroup)
    (existing : List WorkPlacement) (names : List String) (v : World) (wp : WorkPlacement)
    (w : World) : Prop :=
  Issues (amidst env R) (applyWorkplacementsForTargetDestinations g work
    (targetDestinationMap names existing)) v (.api (.create .workPlacement wp)) w

/-! ### Where WorkPlacements are created -/

theorem not_creates_of_obeys {α : Type} {h : Handler signature World} {p : Policy} {prog : Prog α}
    {wp : WorkPlacement} (hp : Obeys p prog) (hwrite : ¬ p.write ⟨.workPlacement, wp⟩) :
    ¬ Issues h prog s (.api (.create .workPlacement wp)) w :=
  fun hi => hwrite (Program.Calls.issues hp hi)

theorem issues_reconcileWorkloadGroups {h : Handler signature World} {groups : List WorkloadGroup}
    {unschedulable misplaced : List String} {call : Call} :
    Issues h (reconcileWorkloadGroups env work groups unschedulable misplaced) s call w ↔
      ∃ before g after lists t, groups = before ++ g :: after ∧
        Exec h (reconcileWorkloadGroups env work before unschedulable misplaced) s (.ok lists) t ∧
        Issues h (reconcileWorkloadGroup env g work) t call w := by
  induction groups generalizing s unschedulable misplaced with
  | nil =>
    refine ⟨fun hi => hi.elim, ?_⟩
    rintro ⟨before, g, after, lists, t, hgroups, -⟩
    exact absurd hgroups.symm (List.append_ne_nil_of_right_ne_nil _ (List.cons_ne_nil _ _))
  | cons g₀ groups ih =>
    constructor
    · intro hi
      rcases issues_bind.mp hi with hi | ⟨a, u, hfirst, hi⟩
      · exact ⟨[], g₀, groups, _, s, rfl, ⟨rfl, rfl⟩, hi⟩
      · rcases a with e | st
        · exact hi.elim
        · cases st <;>
          · obtain ⟨before, g, after, lists, t, rfl, hbefore, hi⟩ := ih.mp hi
            exact ⟨g₀ :: before, g, after, lists, t, rfl, exec_bind.mpr ⟨_, u, hfirst, hbefore⟩, hi⟩
    · rintro ⟨before, g, after, lists, t, hgroups, hbefore, hi⟩
      cases before with
      | nil =>
        obtain ⟨-, rfl⟩ := hbefore
        obtain ⟨rfl, rfl⟩ := List.cons.inj hgroups
        exact issues_bind.mpr (Or.inl hi)
      | cons g₁ before =>
        obtain ⟨rfl, rfl⟩ := List.cons.inj hgroups
        obtain ⟨a, u, hfirst, hrest⟩ := exec_bind.mp hbefore
        rcases a with e | st
        · cases hrest.1
        · refine issues_bind.mpr (Or.inr ⟨_, u, hfirst, ?_⟩)
          cases st <;> exact ih.mpr ⟨before, g, after, lists, t, rfl, hrest, hi⟩

theorem issues_applyWorkplacements {h : Handler signature World} {targets : StringMap Bool}
    {names : List String} {call : Call} :
    Issues h (applyWorkplacements g work targets names) s call w ↔
      ∃ before d after t, names = before ++ d :: after ∧
        Exec h (applyWorkplacements g work targets before) s none t ∧
        Issues h (applyWorkplacement g work d ((targets.lookup d).getD false)) t call w := by
  induction names generalizing s with
  | nil =>
    refine ⟨fun hi => hi.elim, ?_⟩
    rintro ⟨before, d, after, t, hnames, -⟩
    exact absurd hnames.symm (List.append_ne_nil_of_right_ne_nil _ (List.cons_ne_nil _ _))
  | cons d₀ names ih =>
    constructor
    · intro hi
      rcases issues_bind.mp hi with hi | ⟨a, u, hfirst, hi⟩
      · exact ⟨[], d₀, names, s, rfl, ⟨rfl, rfl⟩, hi⟩
      · rcases a with _ | e
        · obtain ⟨before, d, after, t, rfl, hbefore, hi⟩ := ih.mp hi
          exact ⟨d₀ :: before, d, after, t, rfl, exec_bind.mpr ⟨_, u, hfirst, hbefore⟩, hi⟩
        · exact hi.elim
    · rintro ⟨before, d, after, t, hnames, hbefore, hi⟩
      cases before with
      | nil =>
        obtain ⟨-, rfl⟩ := hbefore
        obtain ⟨rfl, rfl⟩ := List.cons.inj hnames
        exact issues_bind.mpr (Or.inl hi)
      | cons d₁ before =>
        obtain ⟨rfl, rfl⟩ := List.cons.inj hnames
        obtain ⟨a, u, hfirst, hrest⟩ := exec_bind.mp hbefore
        rcases a with _ | e
        · exact issues_bind.mpr (Or.inr ⟨_, u, hfirst, ih.mpr ⟨before, d, after, t, rfl, hrest, hi⟩⟩)
        · cases hrest.1

/-- A WorkPlacement is created if it is not there when it is read. -/
theorem issues_create_applyWorkplacement {d : String} {misplaced : Bool} {wp : WorkPlacement} :
    Issues (amidst env R) (applyWorkplacement g work d misplaced) s
        (.api (.create .workPlacement wp)) w ↔
      R s w ∧ w.placement (placementKey work g d) = none ∧
        mutateWorkPlacement g work d misplaced
          ⟨{ ns := work.metadata.ns, name := workPlacementName work d g }, {}, {}⟩ = .ok wp := by
  constructor
  · intro hi
    rcases issues_bind.mp hi with hi | ⟨a, u, -, hi⟩
    · rcases issues_bind.mp hi with hi | ⟨r, u, hget, hi⟩
      · obtain ⟨hcall, -⟩ := issues_perform.mp hi
        cases hcall
      · obtain ⟨v, hR, hc⟩ := exec_perform.mp hget
        obtain ⟨rfl, -, hmissing⟩ := exec_getObject (exec_perform.mpr hc)
        rcases r with (_ | _ | _ | _ | _) | stored
        case error.notFound =>
          dsimp only at hi
          split at hi
          · exact hi.elim
          · next obj hobj =>
            rcases issues_bind.mp hi with hi | ⟨b, v', -, hi⟩
            · obtain ⟨hcall, rfl⟩ := issues_perform.mp hi
              cases hcall
              exact ⟨hR, hmissing rfl, hobj⟩
            · cases b <;> exact hi.elim
        case ok =>
          dsimp only at hi
          split at hi
          · exact hi.elim
          · split at hi
            · exact hi.elim
            · rcases issues_bind.mp hi with hi | ⟨b, v', -, hi⟩
              · obtain ⟨hcall, -⟩ := issues_perform.mp hi
                cases hcall
              · cases b <;> exact hi.elim
        all_goals exact hi.elim
    · cases a with
      | some e => exact hi.elim
      | none =>
        have hstatus : Obeys { status := fun _ => True }
            (updateWorkPlacementStatus work.metadata.ns (workPlacementName work d g) misplaced) :=
          calls_updateWorkPlacementStatus (fun _ _ => trivial) (fun _ => trivial) _ _ _
        exact absurd hi (not_creates_of_obeys hstatus id)
  · rintro ⟨hR, hmissing, hobj⟩
    refine issues_bind.mpr (Or.inl (issues_bind.mpr (Or.inr ⟨.error .notFound, w,
      exec_perform.mpr ⟨w, hR, ?_⟩, ?_⟩)))
    · exact exec_perform.mp ((answers_getObject_missing env hmissing).mono faulty_of_unfailing)
    · dsimp only
      rw [hobj]
      exact issues_bind.mpr (Or.inl (issues_perform.mpr ⟨rfl, rfl⟩))

theorem creates_iff {existing : List WorkPlacement} {names : List String} {wp : WorkPlacement} :
    Creates env R work g existing names v wp w ↔
      ∃ order u before d after t,
        Exec (amidst env R) (mapOrder (targetDestinationMap names existing).keys) v order u ∧
        order = before ++ d :: after ∧
        Exec (amidst env R)
          (applyWorkplacements g work (targetDestinationMap names existing) before) u none t ∧
        Issues (amidst env R) (applyWorkplacement g work d
          (((targetDestinationMap names existing).lookup d).getD false)) t
            (.api (.create .workPlacement wp)) w := by
  constructor
  · intro hi
    rcases issues_bind.mp hi with hi | ⟨order, u, horder, hi⟩
    · obtain ⟨hcall, -⟩ := issues_perform.mp hi
      cases hcall
    · rcases issues_bind.mp hi with hi | ⟨a, u', -, hi⟩
      · obtain ⟨before, d, after, t, rfl, hbefore, hi⟩ := issues_applyWorkplacements.mp hi
        exact ⟨_, u, before, d, after, t, horder, rfl, hbefore, hi⟩
      · cases a <;> exact hi.elim
  · rintro ⟨order, u, before, d, after, t, horder, rfl, hbefore, hi⟩
    exact issues_bind.mpr (Or.inr ⟨_, u, horder, issues_bind.mpr (Or.inl
      (issues_applyWorkplacements.mpr ⟨before, d, after, t, rfl, hbefore, hi⟩))⟩)

/-- A group of a dependency creates WorkPlacements after it has listed and selected. -/
theorem issues_create_reconcileWorkloadGroup (hdep : work.isResourceRequest = false)
    {wp : WorkPlacement} :
    Issues (amidst env R) (reconcileWorkloadGroup env g work) s (.api (.create .workPlacement wp)) w ↔
      ∃ existing names u v, Exec (amidst env R) (getExistingWorkPlacementsForWorkloadGroup env
          work.metadata.ns work.metadata.name g) s (.ok existing) u ∧
        Exec (amidst env R) (getTargetDestinationNames env
          (resolveDestinationSelectorsForWorkloadGroup g) work) u names v ∧
        Creates env R work g existing names v wp w := by
  have hlist : ¬ Issues (amidst env R) (getExistingWorkPlacementsForWorkloadGroup env
      work.metadata.ns work.metadata.name g) s (.api (.create .workPlacement wp)) w :=
    not_creates_of_obeys (p := {}) (obeys_listWorkplacementWithLabels _ _) id
  constructor
  · intro hi
    rcases issues_bind.mp hi with hi | ⟨a, u, hlisted, hi⟩
    · exact absurd hi hlist
    · rcases a with e | existing
      · exact hi.elim
      · dsimp only at hi
        rw [if_neg (by simp [hdep])] at hi
        rcases issues_bind.mp hi with hi | ⟨names, v, hselected, hi⟩
        · exact absurd hi (not_creates_of_obeys (p := {}) (obeys_getTargetDestinationNames _ _) id)
        · dsimp only at hi
          split at hi
          · exact hi.elim
          · rcases issues_bind.mp hi with hi | ⟨b, v', -, hi⟩
            · exact ⟨existing, names, u, v, hlisted, hselected, hi⟩
            · cases b <;> exact hi.elim
  · rintro ⟨existing, names, u, v, hlisted, hselected, hi⟩
    refine issues_bind.mpr (Or.inr ⟨_, u, hlisted, ?_⟩)
    dsimp only
    rw [if_neg (by simp [hdep])]
    refine issues_bind.mpr (Or.inr ⟨_, v, hselected, ?_⟩)
    dsimp only
    split
    · next hempty =>
      obtain ⟨order, v', before, d, after, t, horder, rfl, -⟩ := creates_iff.mp hi
      obtain ⟨x, -, hperm, -⟩ := exec_perform.mp horder
      have hd : d ∈ (targetDestinationMap names existing).keys :=
        hperm.mem_iff.mp (List.mem_append_right _ List.mem_cons_self)
      rw [entries_isEmpty_iff.mp hempty] at hd
      cases hd
    · exact issues_bind.mpr (Or.inl hi)

/-- All WorkPlacements that a call for a dependency creates are of this kind. -/
theorem issues_create_reconcileWork (hdep : work.isResourceRequest = false) {wp : WorkPlacement} :
    Issues (amidst env R) (reconcileWork env work) s (.api (.create .workPlacement wp)) w ↔
      ∃ g existing names v, Selected env R work s g existing names v ∧
        Creates env R work g existing names v wp w := by
  have hstatus (u : World) (work' : Work) : ¬ Issues (amidst env R) (writeWorkStatus work') u
      (.api (.create .workPlacement wp)) w := by
    intro hi
    rcases issues_bind.mp hi with hi | ⟨a, v, -, hi⟩
    · obtain ⟨hcall, -⟩ := issues_perform.mp hi
      cases hcall
    · cases a <;> exact hi.elim
  have hclean (u : World) (work' : Work) : ¬ Issues (amidst env R)
      (cleanupDanglingWorkplacements env work') u (.api (.create .workPlacement wp)) w :=
    not_creates_of_obeys (p := { delete := fun _ => True })
      (obeys_cleanupDanglingWorkplacements trivial work') id
  constructor
  · intro hi
    rcases issues_bind.mp hi with hi | ⟨a, u, -, hi⟩
    · obtain ⟨before, g, after, lists, t, hgroups, hbefore, hi⟩ :=
        issues_reconcileWorkloadGroups.mp hi
      obtain ⟨existing, names, u, v, hlisted, hselected, hi⟩ :=
        (issues_create_reconcileWorkloadGroup hdep).mp hi
      exact ⟨g, existing, names, v, ⟨before, after, lists, t, u, hgroups, hbefore, hlisted,
        hselected⟩, hi⟩
    · cases a with
      | error wg =>
        rcases issues_bind.mp hi with hi | ⟨b, v, -, hi⟩
        · exact absurd hi (hstatus _ _)
        · exact hi.elim
      | ok lists =>
        dsimp only at hi
        split at hi <;>
        · rcases issues_bind.mp hi with hi | ⟨b, v, -, hi⟩
          · first
            | exact absurd hi (hstatus _ _)
            | exact hi.elim
          · split at hi
            · exact hi.elim
            · rcases issues_bind.mp hi with hi | ⟨c, v', -, hi⟩
              · exact absurd hi (hclean _ _)
              · exact hi.elim
  · rintro ⟨g, existing, names, v, ⟨before, after, lists, t, u, hgroups, hbefore, hlisted,
      hselected⟩, hi⟩
    refine issues_bind.mpr (Or.inl (issues_reconcileWorkloadGroups.mpr
      ⟨before, g, after, lists, t, hgroups, hbefore, ?_⟩))
    exact (issues_create_reconcileWorkloadGroup hdep).mpr
      ⟨existing, names, u, v, hlisted, hselected, hi⟩

/-! ### Which of them were not selected -/

/-- The call may create a WorkPlacement for a Destination that it did not select. -/
def Resurrects (env : Externals) (R : World → World → Prop) (work : Work) (s : World) : Prop :=
  ∃ g existing names v wp w, Selected env R work s g existing names v ∧
    Creates env R work g existing names v wp w ∧ wp.spec.targetDestinationName ∉ names

/-- A WorkPlacement that was listed, and whose Destination is not selected, may be gone
when it is its turn to be written. -/
def Vanishes (env : Externals) (R : World → World → Prop) (work : Work) (s : World) : Prop :=
  ∃ g existing names v order u before d after t w, Selected env R work s g existing names v ∧
    Exec (amidst env R) (mapOrder (targetDestinationMap names existing).keys) v order u ∧
    order = before ++ d :: after ∧
    Exec (amidst env R)
      (applyWorkplacements g work (targetDestinationMap names existing) before) u none t ∧
    (∃ x ∈ existing, x.spec.targetDestinationName = d) ∧ d ∉ names ∧
    R t w ∧ w.placement (placementKey work g d) = none

theorem resurrects_iff_vanishes : Resurrects env R work s ↔ Vanishes env R work s := by
  constructor
  · rintro ⟨g, existing, names, v, wp, w, hselected, hcreates, htarget⟩
    obtain ⟨order, u, before, d, after, t, horder, rfl, hbefore, hi⟩ := creates_iff.mp hcreates
    obtain ⟨hR, hmissing, hobj⟩ := issues_create_applyWorkplacement.mp hi
    rw [(mutateWorkPlacement_eq_ok rfl hobj).1.target] at htarget
    obtain ⟨x, -, hperm, -⟩ := exec_perform.mp horder
    have hd : d ∈ (targetDestinationMap names existing).keys :=
      hperm.mem_iff.mp (List.mem_append_right _ List.mem_cons_self)
    exact ⟨g, existing, names, v, _, u, before, d, after, t, w, hselected, horder, rfl, hbefore,
      ((mem_keys_targetDestinationMap names existing).mp hd).resolve_left htarget, htarget, hR,
      hmissing⟩
  · rintro ⟨g, existing, names, v, order, u, before, d, after, t, w, hselected, horder, rfl,
      hbefore, -, hd, hR, hmissing⟩
    obtain ⟨wp, hobj⟩ : ∃ wp, mutateWorkPlacement g work d
        (((targetDestinationMap names existing).lookup d).getD false)
        ⟨{ ns := work.metadata.ns, name := workPlacementName work d g }, {}, {}⟩ = .ok wp :=
      exists_mutateWorkPlacement fun howner => by cases howner
    refine ⟨g, existing, names, v, wp, w, hselected, creates_iff.mpr ⟨_, u, before, d, after, t,
      horder, rfl, hbefore, issues_create_applyWorkplacement.mpr ⟨hR, hmissing, hobj⟩⟩, ?_⟩
    rw [(mutateWorkPlacement_eq_ok rfl hobj).1.target]
    exact hd

/-! ### A WorkPlacement that is gone too early -/

/-- The deletion of a WorkPlacement of the Work may come to its end. -/
def Finishes (work : Work) (s t : World) : Prop :=
  t = s ∨ ∃ key x, s.placement key = some x ∧ BelongsTo work x ∧ x.metadata.deleting = true ∧
    SetsPlacement key none s t

def leavingPlacement : WorkPlacement :=
  ⟨{ ns := "default", name := "work.destination-group",
      labels := .ofList [(Label.work, "work"), (Label.workloadGroupID, "group")],
      finalizers := [Finalizer.repoCleanup], owner := some 0, ownerName := "work" },
    ⟨"destination", [], "promise", "", "group"⟩, {}⟩

theorem valid_leavingPlacement : leavingPlacement.metadata.labels.Valid := by decide +kernel

theorem valid_zone : (Labels.ofList [("zone", "a")]).Valid := by decide +kernel

theorem unplaced_zone :
    ∀ x ∈ (worldWith (workSelecting []) (strictDestination (.ofList [("zone", "a")]))
      (valid_workSelecting []) valid_zone).cluster.objects .workPlacement,
      x.key ≠ leavingPlacement.key :=
  fun x hx => by cases hx

/-- The dependency, a Destination that it does not select, and the WorkPlacement, whose
deletion has begun. -/
def leavingWorld : World :=
  (worldWith (workSelecting []) (strictDestination (.ofList [("zone", "a")]))
    (valid_workSelecting []) valid_zone).withCluster
    (serve (S := scheme) (.delete .workPlacement "default" "work.destination-group")
      (Cluster.add (S := scheme) _ .workPlacement leavingPlacement valid_leavingPlacement
        unplaced_zone)).2

theorem placement_leavingWorld : leavingWorld.placement ("default", "work.destination-group") =
    some (leavingPlacement.stampedAt 2).markDeleting := by
  rfl

theorem exists_setsPlacement_none {key : String × String} {x : WorkPlacement}
    (hx : s.placement key = some x) : ∃ u, SetsPlacement key none s u := by
  obtain ⟨hmem, rfl⟩ := s.cluster.find_eq_some.mp hx
  have hgone : KeepsIdentity fun _ : WorkPlacement => none := fun o o' ho => by cases ho
  exact ⟨s.withCluster _, Sets.of_replaces (replaces_atKey hgone hmem)⟩

theorem amidst_of_faulty (hrefl : ∀ s, R s s) (call : Call) (s : World) (r : call.Answer) (t : World)
    (hc : faulty env call s r t) : amidst env R call s r t := ⟨s, hrefl s, hc⟩

/-- Without steps in between the calls only fail. -/
theorem faulty_of_amidst (call : Call) (s : World) (r : call.Answer) (t : World)
    (hc : amidst env Eq call s r t) : faulty env call s r t := by
  obtain ⟨u, rfl, hc⟩ := hc
  exact hc

/-- The WorkPlacement is listed, its deletion comes to an end, and it is created again
for a Destination that was not selected. -/
theorem deleted_placement_resurrected :
    (workSelecting []).isResourceRequest = false ∧
      Resurrects plainExternals (Finishes (workSelecting [])) (workSelecting []) leavingWorld := by
  have heval : (eval (serveCall plainExternals) (do
      let existing ← getExistingWorkPlacementsForWorkloadGroup plainExternals "default" "work"
        (groupSelecting [])
      let names ← getTargetDestinationNames plainExternals
        (resolveDestinationSelectorsForWorkloadGroup (groupSelecting [])) (workSelecting [])
      return (existing, names)) leavingWorld).any (fun out => out.1.1.toOption.any fun existing =>
        decide (out.1.2 = [] ∧ existing.map (fun x => x.spec.targetDestinationName) = ["destination"] ∧
          (targetDestinationMap out.1.2 existing).keys = ["destination"])) = true := by
    decide +kernel
  obtain ⟨w, hgone⟩ := exists_setsPlacement_none placement_leavingWorld
  have hfinishes : Finishes (workSelecting []) leavingWorld w :=
    Or.inr ⟨_, _, placement_leavingWorld, ⟨rfl, by decide⟩, rfl, hgone⟩
  obtain ⟨env, henv⟩ : ∃ env, plainExternals = env := ⟨_, rfl⟩
  rw [henv] at heval ⊢
  have hmono (call : Call) (s : World) (r : call.Answer) (t : World)
      (hc : faulty env call s r t) : amidst env (Finishes (workSelecting [])) call s r t :=
    amidst_of_faulty (fun _ => Or.inl rfl) call s r t hc
  obtain ⟨a, t, he, ha⟩ := exists_exec_of_eval (h := faulty env) faulty_of_serveCall heval
  obtain ⟨existing, u, hlisted, he'⟩ := exec_bind.mp he
  obtain ⟨rfl, -⟩ := exec_listWorkplacementWithLabels hlisted
  obtain ⟨names, v, hselected, hret⟩ := exec_bind.mp he'
  obtain ⟨rfl, -⟩ := exec_getTargetDestinationNames hselected
  obtain ⟨rfl, rfl⟩ := hret
  cases existing with
  | error e => cases ha
  | ok existing =>
    obtain ⟨rfl, htargets, hkeys⟩ := of_decide_eq_true ha
    obtain ⟨x, hx, htarget⟩ : ∃ x ∈ existing, x.spec.targetDestinationName = "destination" :=
      List.mem_map.mp (htargets ▸ List.mem_singleton.mpr rfl)
    refine ⟨rfl, resurrects_iff_vanishes.mpr ⟨groupSelecting [], existing, [], leavingWorld,
      ["destination"], leavingWorld, [], "destination", [], leavingWorld, w, ?_, ?_, rfl, ⟨rfl, rfl⟩,
      ⟨x, hx, htarget⟩, by simp, hfinishes, hgone.self⟩⟩
    · exact ⟨[], [], _, _, _, rfl, ⟨rfl, rfl⟩, hlisted.mono hmono, hselected.mono hmono⟩
    · refine exec_perform.mpr (hmono _ _ _ _ ⟨?_, rfl⟩)
      rw [hkeys]

/-! ### When none comes back -/

/-- A call for a dependency creates WorkPlacements only after it has listed and selected
for a group. It creates none for a Destination that it did not select exactly if none
that it listed is gone when its turn comes, whatever others do between its calls. -/
theorem never_resurrects_iff (env : Externals) (R : World → World → Prop) (work : Work) (s : World)
    (hdep : work.isResourceRequest = false) :
    (∀ wp w, Issues (amidst env R) (reconcileWork env work) s (.api (.create .workPlacement wp)) w ↔
      ∃ g existing names v, Selected env R work s g existing names v ∧
        Creates env R work g existing names v wp w) ∧
    ((∀ g existing names v wp w, Selected env R work s g existing names v →
        Creates env R work g existing names v wp w → wp.spec.targetDestinationName ∈ names) ↔
      ¬ Vanishes env R work s) := by
  refine ⟨fun wp w => issues_create_reconcileWork hdep, ?_⟩
  rw [← resurrects_iff_vanishes]
  constructor
  · rintro hnever ⟨g, existing, names, v, wp, w, hselected, hcreates, htarget⟩
    exact htarget (hnever g existing names v wp w hselected hcreates)
  · intro hnever g existing names v wp w hselected hcreates
    by_contra htarget
    exact hnever ⟨g, existing, names, v, wp, w, hselected, hcreates, htarget⟩

/-- A dependency that is placed for the first time, with nobody else about. -/
theorem never_resurrects_sample :
    (workSelecting []).isResourceRequest = false ∧ ∀ g existing names v wp w,
      Selected plainExternals Eq (workSelecting []) (worldSelecting [] Labels.valid_empty) g existing
        names v →
      Creates plainExternals Eq (workSelecting []) g existing names v wp w →
        wp.spec.targetDestinationName ∈ names := by
  refine ⟨rfl, (never_resurrects_iff plainExternals Eq (workSelecting [])
    (worldSelecting [] Labels.valid_empty) rfl).2.mpr ?_⟩
  rintro ⟨g, existing, names, v, order, u, before, d, after, t, w,
    ⟨earlier, later, lists, t', u', hgroups, hearlier, hlisted, -⟩, -, -, -, ⟨x, hx, -⟩, -⟩
  obtain rfl : earlier = [] := by
    cases earlier with
    | nil => rfl
    | cons g' earlier =>
      have hlength := congrArg List.length hgroups
      simp [workSelecting] at hlength
  obtain ⟨-, rfl⟩ := hearlier
  obtain ⟨-, hall⟩ := exec_listWorkplacementWithLabels (hlisted.mono faulty_of_amidst)
  rw [hall existing rfl] at hx
  have hstored := Cluster.find_key (Cluster.mem_listed.mp hx).1
  cases hstored.symm.trans (placement_worldWith x.key)

end Kratix
