import Kratix.Scheduling.Complete

/-!
# Works do not touch each other's WorkPlacements

Two Works may want WorkPlacements of the same name. Listing by labels finds only
those of the Work itself, since generated names can be used as label values, and
a WorkPlacement that another Work controls is not written over.
-/

namespace Kratix

open Apiserver Effect

variable {env : Externals} {h : Handler signature World} {s t : World} {work : Work}
  {g : WorkloadGroup}

/-! ### Owners -/

/-- Each WorkPlacement is controlled by a Work and labelled with its name. -/
def LabelledByOwner (s : World) : Prop :=
  ∀ key x, s.placement key = some x → x.metadata.owner.isSome = true ∧
    x.metadata.labels.lookup Label.work = some x.metadata.ownerName

theorem LabelledByOwner.of_alike (hs : LabelledByOwner s)
    (halike : ∀ key x', t.placement key = some x' → ∃ x, s.placement key = some x ∧ Alike x x') :
    LabelledByOwner t := by
  intro key x' hx'
  obtain ⟨x, hx, ha⟩ := halike key x' hx'
  rw [ha.owner, ha.belongs, ha.ownerName]
  exact hs key x hx

theorem LabelledByOwner.of_entries {groups : List WorkloadGroup} (hs : LabelledByOwner s)
    (hentry : ∀ key, EntryChange work groups (s.placement key) (t.placement key)) :
    LabelledByOwner t := by
  intro key x' hx'
  rcases (hentry key).origin hx' with ⟨x, hx, ha, -⟩ | ⟨g, hg, d, mis, hplaced⟩
  · rw [ha.owner, ha.belongs, ha.ownerName]
    exact hs key x hx
  · rw [hplaced.isPlacement.owner, hplaced.isPlacement.ownerName]
    exact ⟨rfl, hplaced.isPlacement.belongsTo.2⟩

theorem Deletes.alike {doomed : WorkPlacement → Prop} (hd : Deletes doomed s t)
    (key : String × String) (x' : WorkPlacement) (hx' : t.placement key = some x') :
    ∃ x, s.placement key = some x ∧ Alike x x' := by
  rcases hd.entry key with hsame | ⟨x, hx, -, hnew⟩
  · exact ⟨x', hsame.symm.trans hx', rfl, rfl, rfl, rfl, rfl, rfl⟩
  · rw [Object.settle_eq_some (hnew.symm.trans hx')]
    exact ⟨x, hx, alike_of_sameContent (SameContent.markDeleting x)⟩

section

variable {key : String × String} {x : WorkPlacement}

theorem GroupOutcome.keeps_others {r : Except Failure SchedulingStatus}
    (hg : GroupOutcome env h work g s r t) (hs : LabelledByOwner s) (hns : work.metadata.ns ≠ "")
    (hname : isValidLabelValue work.metadata.name = true) (hid : isValidLabelValue g.id = true)
    (hx : s.placement key = some x) (hother : x.metadata.ownerName ≠ work.metadata.name) :
    t.placement key = some x := by
  cases hg with
  | failed hsame => rwa [hsame]
  | updates _ _ hupdates =>
    rcases hupdates.entry key with hsame | ⟨y, hy, rfl, -⟩
    · exact hsame.trans hx
    -- a listed one carries the label of this Work
    · have hy' := (mem_existingPlacements hname hid hns).mp hy
      obtain rfl : y = x := Option.some.inj (hy'.1.symm.trans hx)
      exact absurd (Option.some.inj ((hs _ y hx).2.symm.trans hy'.2.1.2)) hother
  | places _ _ _ _ _ happlies =>
    rcases happlies.entry key with hsame | ⟨d, -, -, y, -, hover⟩
    · exact hsame.trans hx
    -- a controlled one is not adopted
    · exact absurd ((hover.adopts x hx).owned (hs key x hx).1) hother

theorem GroupsRun.keeps_others {groups : List WorkloadGroup} {b : Bool}
    (hrun : GroupsRun env h work groups s b t) (hs : LabelledByOwner s)
    (hns : work.metadata.ns ≠ "") (hname : isValidLabelValue work.metadata.name = true)
    (hids : ∀ g ∈ groups, isValidLabelValue g.id = true) (hx : s.placement key = some x)
    (hother : x.metadata.ownerName ≠ work.metadata.name) :
    t.placement key = some x ∧ LabelledByOwner t := by
  induction hrun with
  | done s => exact ⟨hx, hs⟩
  | stop hg _ =>
    exact ⟨hg.keeps_others hs hns hname (hids _ (by simp)) hx hother, hs.of_entries hg.entry⟩
  | next hg _ ih =>
    exact ih (hs.of_entries hg.entry) (fun g hg => hids g (by simp [hg]))
      (hg.keeps_others hs hns hname (hids _ (by simp)) hx hother)

end

theorem GroupsRun.labelledByOwner {groups : List WorkloadGroup} {b : Bool}
    (hrun : GroupsRun env h work groups s b t) (hs : LabelledByOwner s) : LabelledByOwner t := by
  induction hrun with
  | done s => exact hs
  | stop hg _ => exact hs.of_entries hg.entry
  | next hg _ ih => exact ih (hs.of_entries hg.entry)

theorem exec_reconcileWork_labelledByOwner (hh : Refines env h) {r : ScheduleResult}
    (hs : LabelledByOwner s) (he : Exec h (reconcileWork env work) s r t) : LabelledByOwner t := by
  obtain ⟨b, u, v, hrun, hsame, hend⟩ := exec_reconcileWork hh he
  have hv : LabelledByOwner v := (hrun.labelledByOwner hs).of_alike fun key x' hx' =>
    ⟨x', (hsame.placement key).symm.trans hx', rfl, rfl, rfl, rfl, rfl, rfl⟩
  rcases hend with ⟨rfl, -⟩ | ⟨-, work', -, -, hclean⟩
  · exact hv
  · exact hv.of_alike (exec_cleanupDanglingWorkplacements (hclean.mono hh)).1.alike

theorem exec_reconcileWork_keeps_others (hh : Refines env h) {r : ScheduleResult}
    (hs : LabelledByOwner s) (hns : work.metadata.ns ≠ "")
    (hname : isValidLabelValue work.metadata.name = true)
    (hids : ∀ g ∈ work.spec.workloadGroups, isValidLabelValue g.id = true)
    (he : Exec h (reconcileWork env work) s r t) {key : String × String} {x : WorkPlacement}
    (hx : s.placement key = some x) (hother : x.metadata.ownerName ≠ work.metadata.name) :
    t.placement key = some x := by
  obtain ⟨b, u, v, hrun, hsame, hend⟩ := exec_reconcileWork hh he
  obtain ⟨hu, -⟩ := hrun.keeps_others hs hns hname hids hx hother
  have hv : v.placement key = some x := (hsame.placement key).trans hu
  rcases hend with ⟨rfl, -⟩ | ⟨-, work', hkey, -, hclean⟩
  · exact hv
  · rcases (exec_cleanupDanglingWorkplacements (hclean.mono hh)).1.entry key with
      heq | ⟨y, hy, hdangling, -⟩
    · exact heq.trans hv
    · obtain rfl : y = x := Option.some.inj (hy.symm.trans hv)
      have hname' : work'.metadata.name = work.metadata.name := congrArg Prod.snd hkey
      have hns' : work'.metadata.ns = work.metadata.ns := congrArg Prod.fst hkey
      obtain ⟨-, hbelongs⟩ := (mem_listed_workNameLabels (hname'.symm ▸ hname)
        (hns'.symm ▸ hns)).mp hdangling.1
      have hlabel := (hs key y hx).2.symm.trans hbelongs.2
      exact absurd ((Option.some.inj hlabel).trans hname') hother

/-! ### Reachable WorkPlacements -/

/-- Works are scheduled, and whatever else happens to WorkPlacements leaves
their labels, owners and targets alone. -/
inductive PlacementStep (env : Externals) : World → World → Prop
  | reconcile {work : Work} {r : ScheduleResult} {s t : World} (hns : work.metadata.ns ≠ "")
      (hname : IsGeneratedName work.metadata.name)
      (hids : ∀ g ∈ work.spec.workloadGroups, IsDigest g.id)
      (he : Exec (faulty env) (reconcileWork env work) s r t) : PlacementStep env s t
  | other {s t : World} (halike : ∀ key x', t.placement key = some x' →
      ∃ x, s.placement key = some x ∧ Alike x x') : PlacementStep env s t

/-- Reached from a cluster without any WorkPlacement. -/
def PlacementReachable (env : Externals) (s : World) : Prop :=
  ∃ s₀ : World, (∀ key, s₀.placement key = none) ∧
    Relation.ReflTransGen (PlacementStep env) s₀ s

theorem PlacementReachable.labelledByOwner (hs : PlacementReachable env s) : LabelledByOwner s := by
  obtain ⟨s₀, hempty, hrun⟩ := hs
  induction hrun with
  | refl =>
    intro key x hx
    rw [hempty key] at hx
    cases hx
  | tail _ hstep ih =>
    cases hstep with
    | reconcile _ _ _ he => exact exec_reconcileWork_labelledByOwner (fun _ _ _ _ hc => hc) ih he
    | other halike => exact ih.of_alike halike

/-- Scheduling one Work leaves every WorkPlacement that another one controls as it is. -/
theorem other_work_untouched (env : Externals) {first second : Work} {s t : World}
    {r : ScheduleResult} (hns : first.metadata.ns ≠ "")
    (hdistinct : first.metadata.name ≠ second.metadata.name)
    (hfirst : IsGeneratedName first.metadata.name)
    (hids : ∀ g ∈ first.spec.workloadGroups, IsDigest g.id)
    (hs : PlacementReachable env s) (he : Exec (faulty env) (reconcileWork env first) s r t)
    {key : String × String} {x : WorkPlacement} (hx : s.placement key = some x)
    (howner : x.metadata.ownerName = second.metadata.name) : t.placement key = some x := by
  apply exec_reconcileWork_keeps_others (fun _ _ _ _ hc => hc) hs.labelledByOwner hns hfirst.valid
    (fun g hg => (hids g hg).valid) he hx
  rw [howner]
  exact hdistinct.symm

/-- A group with the digest that `plainExternals` computes of an empty text. -/
def plainGroup : WorkloadGroup := ⟨[], [], "00000000000000000000000000000000", []⟩

def plainWork (name : String) : Work :=
  ⟨{ ns := "default", name := name },
    { workloadGroups := [plainGroup], promiseName := "promise" }, {}⟩

def firstName := generateObjectName "app" "abcde"

def secondName := generateObjectName "app-abcde.x" "fghij"

/-- Both Works, no WorkPlacement, and two Destinations whose names make those of
the two Works coincide. -/
@[irreducible]
def clashingWorld : World where
  cluster := {
    objects := fun
      | .work => [{ plainWork firstName with metadata := { ns := "default", name := firstName } },
          { plainWork secondName with
            metadata := { ns := "default", name := secondName, creationTimestamp := 1 } }]
      | .destination => [⟨{ name := "x-fghij.dst" },
          { path := [], stateStoreRef := ⟨.git, "store"⟩ }, {}⟩,
          ⟨{ name := "dst", creationTimestamp := 1 },
          { path := [], stateStoreRef := ⟨.git, "store"⟩ }, {}⟩]
      | _ => []
    clock := 2
    labels_valid := by
      intro k o ho
      cases k <;> simp at ho <;> rcases ho with rfl | rfl <;> intro e he <;> cases he
    keys_nodup := by
      intro k
      cases k <;> simp <;> decide
    created_nodup := by
      intro k
      cases k <;> simp <;> decide
    created_lt := by
      intro k o ho
      cases k <;> simp at ho <;> rcases ho with rfl | rfl <;> decide }

theorem placement_clashingWorld (key : String × String) : clashingWorld.placement key = none := by
  rw [World.placement, Cluster.find_eq_none]
  unfold clashingWorld
  simp

/-- The second Work is scheduled, then the first one, which wants the same name. -/
theorem other_work_untouched_sample :
    ∃ (s t : World) (r : ScheduleResult) (x : WorkPlacement),
      PlacementReachable plainExternals s ∧
      Exec (faulty plainExternals) (reconcileWork plainExternals (plainWork firstName)) s r t ∧
      s.placement (placementKey (plainWork firstName) plainGroup "x-fghij.dst") = some x ∧
      x.metadata.ownerName = secondName ∧
      t.placement (placementKey (plainWork firstName) plainGroup "x-fghij.dst") = some x := by
  have hdigest : ∀ (name : String), ∀ g ∈ (plainWork name).spec.workloadGroups, IsDigest g.id := by
    intro name g hg
    rw [List.mem_singleton.mp hg]
    exact ⟨by decide, List.all_eq_true.mp (by decide)⟩
  have hfirst : IsGeneratedName firstName :=
    ⟨"app", "abcde", rfl, ⟨'a', ['p', 'p'], by decide, by decide⟩,
      List.all_eq_true.mp (by decide), by decide, List.all_eq_true.mp (by decide)⟩
  have hsecond : IsGeneratedName secondName :=
    ⟨"app-abcde.x", "fghij", rfl, ⟨'a', "pp-abcde.x".toList, by decide, by decide⟩,
      List.all_eq_true.mp (by decide), by decide, List.all_eq_true.mp (by decide)⟩
  have heval : (eval (serveCall plainExternals) (do
      let _ ← reconcileWork plainExternals (plainWork secondName)
      let x ← getObject .workPlacement "default"
        (workPlacementName (plainWork firstName) "x-fghij.dst" plainGroup)
      let _ ← reconcileWork plainExternals (plainWork firstName)
      return x) clashingWorld).any (fun out => match out.1 with
        | .ok x => x.metadata.ownerName == secondName
        | .error _ => false) = true := by
    decide +kernel
  obtain ⟨a, t, he, ha⟩ := exists_exec_of_eval (h := faulty plainExternals) faulty_of_serveCall heval
  obtain ⟨r₁, s, he₁, he₂⟩ := exec_bind.mp he
  obtain ⟨b, u, hget, he₃⟩ := exec_bind.mp he₂
  obtain ⟨r₂, v, he₄, hret⟩ := exec_bind.mp he₃
  obtain ⟨rfl, hfound, -⟩ := exec_getObject hget
  obtain ⟨rfl, rfl⟩ := hret
  cases a with
  | error e => cases ha
  | ok x =>
    have hs : PlacementReachable plainExternals u := ⟨clashingWorld, placement_clashingWorld,
      .single (.reconcile (show "default" ≠ "" by decide) hsecond (hdigest _) he₁)⟩
    have howner : x.metadata.ownerName = secondName := beq_iff_eq.mp ha
    have hkept := @other_work_untouched plainExternals (plainWork firstName) (plainWork secondName)
      u t r₂ (show "default" ≠ "" by decide) (show firstName ≠ secondName by decide) hfirst
      (hdigest _) hs he₄ _ x (hfound x rfl) howner
    exact ⟨u, t, r₂, x, hs, he₄, hfound x rfl, howner, hkept⟩

end Kratix
