import Kratix.Scheduling.Group

/-!
# Calls of the scheduler in which nothing fails

When every request is answered, the scheduler comes through: the only error
left is a WorkPlacement of another Work under the name of a new one.
-/

namespace Kratix

open Apiserver Effect

variable {env : Externals} {s t : World} {work : Work} {g : WorkloadGroup}

/-- No WorkPlacement under a name of this Work is controlled by another Work. -/
def Unclaimed (s : World) (work : Work) : Prop :=
  ∀ g d x, s.placement (placementKey work g d) = some x → x.metadata.owner.isSome = true →
    x.metadata.ownerName = work.metadata.name

theorem refines_unfailing : Refines env (unfailing env) := faulty_of_unfailing

/-! ### Placing -/

theorem succeeds_updateWorkPlacementStatus {ns name : String} {misplaced : Bool}
    {r : Option Failure} (hstored : (s.placement (ns, name)).isSome = true)
    (he : Exec (unfailing env) (updateWorkPlacementStatus ns name misplaced) s r t) : r = none := by
  obtain ⟨a, u, hget, hrest⟩ := exec_bind.mp he
  obtain ⟨rfl, ⟨-, hnone⟩ | ⟨o, rfl, -⟩⟩ := exec_getObject_unfailing hget
  · rw [show u.placement (ns, name) = none from hnone] at hstored
    cases hstored
  · dsimp only at hrest
    split at hrest
    · exact hrest.1
    · obtain ⟨b, v, hupdate, hret⟩ := exec_bind.mp hrest
      obtain ⟨x, rfl⟩ := exec_updateStatus_unfailing hupdate
      exact hret.1

theorem exists_mutateWorkPlacement {d : String} {misplaced : Bool} {base : WorkPlacement}
    (hbase : base.metadata.owner.isSome = true → base.metadata.ownerName = work.metadata.name) :
    ∃ o, mutateWorkPlacement g work d misplaced base = .ok o := by
  unfold mutateWorkPlacement setControllerReference
  simp only [addFinalizer_eq]
  cases misplaced <;>
  · refine ⟨_, if_neg ?_⟩
    simpa [withFinalizers, labelWorkplacementAsMisplaced, withLabels] using hbase

theorem succeeds_applyWorkplacement {d : String} {misplaced : Bool} {r : Option Failure}
    (hfree : ∀ x, s.placement (placementKey work g d) = some x → x.metadata.owner.isSome = true →
      x.metadata.ownerName = work.metadata.name)
    (he : Exec (unfailing env) (applyWorkplacement g work d misplaced) s r t) : r = none := by
  obtain ⟨a, u, hcreate, hrest⟩ := exec_bind.mp he
  have ha : a = none := by
    obtain ⟨b, v, hget, hwrite⟩ := exec_bind.mp hcreate
    obtain ⟨rfl, ⟨rfl, hnone⟩ | ⟨stored, rfl, hfound⟩⟩ := exec_getObject_unfailing hget
    · obtain ⟨o, ho⟩ : ∃ o, mutateWorkPlacement g work d misplaced
          ⟨{ ns := work.metadata.ns, name := workPlacementName work d g }, {}, {}⟩ = .ok o :=
        exists_mutateWorkPlacement (by simp)
      dsimp only at hwrite
      rw [ho] at hwrite
      obtain ⟨b, w, hcreate', hret⟩ := exec_bind.mp hwrite
      obtain ⟨x, rfl⟩ := exec_createObject_unfailing hcreate'
      exact hret.1
    · obtain ⟨o, ho⟩ : ∃ o, mutateWorkPlacement g work d misplaced stored = .ok o :=
        exists_mutateWorkPlacement (hfree stored hfound)
      dsimp only at hwrite
      rw [ho] at hwrite
      dsimp only at hwrite
      split at hwrite
      · exact hwrite.1
      · obtain ⟨b, w, hupdate, hret⟩ := exec_bind.mp hwrite
        obtain ⟨x, rfl⟩ := exec_updateObject_unfailing hupdate
        exact hret.1
  subst ha
  rcases exec_createOrUpdate (hcreate.mono faulty_of_unfailing) with ⟨-, hno⟩ | ⟨x, hset, -⟩
  · exact absurd rfl hno
  · apply succeeds_updateWorkPlacementStatus _ hrest
    rw [show u.placement (work.metadata.ns, workPlacementName work d g) = some x from hset.self]
    rfl

/-- Each entry is as before or holds something of this Work, or of the owner it had. -/
theorem Unclaimed.of_entries (hfree : Unclaimed s work)
    (hentry : ∀ key, t.placement key = s.placement key ∨ ∀ x, t.placement key = some x →
      x.metadata.ownerName = work.metadata.name ∨ ∃ y, s.placement key = some y ∧
        x.metadata.owner = y.metadata.owner ∧ x.metadata.ownerName = y.metadata.ownerName) :
    Unclaimed t work := by
  intro g d x hx howned
  rcases hentry (placementKey work g d) with hsame | hnew
  · exact hfree g d x (hsame ▸ hx) howned
  · rcases hnew x hx with h | ⟨y, hy, ho, hn⟩
    · exact h
    · exact hn.trans (hfree g d y hy (ho ▸ howned))

theorem Applies.unclaimed {misplaced : String → Bool} {names : List String}
    (happlies : Applies work g misplaced names s t) (hfree : Unclaimed s work) :
    Unclaimed t work := by
  apply hfree.of_entries
  intro key
  rcases happlies.entry key with hsame | ⟨d, -, -, x, hx, hplaced⟩
  · exact Or.inl hsame
  · right
    intro y hy
    obtain rfl : x = y := Option.some.inj (hx.symm.trans hy)
    exact Or.inl hplaced.isPlacement.ownerName

theorem succeeds_applyWorkplacements {targets : StringMap Bool} {names : List String}
    {r : Option Failure} (hfree : Unclaimed s work)
    (he : Exec (unfailing env) (applyWorkplacements g work targets names) s r t) : r = none := by
  induction names generalizing s with
  | nil => exact he.1
  | cons d names ih =>
    obtain ⟨a, u, happly, hrest⟩ := exec_bind.mp he
    obtain rfl := succeeds_applyWorkplacement (hfree g d) happly
    have hone : Exec (faulty env) (applyWorkplacements g work targets [d]) s none u :=
      exec_bind.mpr ⟨none, u, happly.mono faulty_of_unfailing, rfl, rfl⟩
    exact ih ((exec_applyWorkplacements (by simp) hone).1.unclaimed hfree) hrest

theorem succeeds_placeWorkloadGroup {existing : List WorkPlacement}
    {r : Except Failure SchedulingStatus} (hfree : Unclaimed s work)
    (he : Exec (unfailing env) (placeWorkloadGroup env g work existing) s r t) :
    ∃ st, r = .ok st := by
  obtain ⟨names, u, hnames, hrest⟩ := exec_bind.mp he
  obtain ⟨rfl, -⟩ := exec_getTargetDestinationNames (hnames.mono faulty_of_unfailing)
  dsimp only at hrest
  split at hrest
  · exact ⟨_, hrest.1⟩
  · obtain ⟨a, v, happly, hret⟩ := exec_bind.mp hrest
    obtain ⟨order, w, horder, hloop⟩ := exec_bind.mp happly
    obtain ⟨b, w', hloop', hret'⟩ := exec_bind.mp hloop
    obtain ⟨-, rfl⟩ := faulty_of_unfailing _ _ _ _ (exec_perform.mp horder)
    obtain rfl := succeeds_applyWorkplacements hfree hloop'
    obtain ⟨rfl, rfl⟩ := hret'
    exact ⟨_, hret.1⟩

/-! ### Updating -/

theorem succeeds_updateWorkPlacement {x : WorkPlacement} {r : Except Failure Bool}
    (hx : s.placement x.key = some x)
    (hlast : x.metadata.deleting = true → x.metadata.finalizers ≠ [])
    (he : Exec (unfailing env) (updateWorkPlacement env g x) s r t) : ∃ mis, r = .ok mis := by
  obtain ⟨ds, u, hdest, hrest⟩ := exec_bind.mp he
  obtain ⟨rfl, -⟩ := exec_getDestinationsForWorkloadGroup (hdest.mono faulty_of_unfailing)
  dsimp only at hrest
  generalize hmis : (!ds.any fun dest =>
    dest.metadata.name == x.spec.targetDestinationName) = mis at hrest
  generalize ho : (if mis then labelWorkplacementAsMisplaced x else x) = o at hrest
  have hkey : o.key = x.key := by
    subst ho
    cases mis <;> rfl
  obtain ⟨a, v, hupdate, hrest'⟩ := exec_bind.mp hrest
  obtain ⟨y, rfl⟩ := exec_updateObject_unfailing hupdate
  obtain ⟨b, w, hstatus, hret⟩ := exec_bind.mp hrest'
  have hb : b = none := by
    apply succeeds_updateWorkPlacementStatus _ hstatus
    rcases exec_updateObject (hupdate.mono faulty_of_unfailing) with
      ⟨-, hno⟩ | ⟨stored, c, hf, hrep, rfl, -⟩
    · exact absurd rfl (hno y)
    · have hf' : u.placement o.key = some stored := hf
      rw [hkey, hx] at hf'
      obtain rfl : x = stored := Option.some.inj hf'
      have hself := hrep.find_self
      unfold Object.settle at hself
      have hfin : o.metadata.finalizers = x.metadata.finalizers := by
        subst ho
        cases mis <;> rfl
      rw [if_neg (by simpa [Object.accept, hfin] using hlast)] at hself
      rw [show (u.withCluster c).placement (o.metadata.ns, o.metadata.name) = _ from
        (congrArg (u.withCluster c).placement hkey).trans hself]
      rfl
  subst hb
  exact ⟨_, hret.1⟩

theorem succeeds_updateWorkPlacements {listed : List WorkPlacement} {r : ℕ × ℕ}
    (hkeys : (listed.map Object.key).Nodup) (hstored : ∀ x ∈ listed, s.placement x.key = some x)
    (hlast : ∀ x ∈ listed, x.metadata.deleting = true → x.metadata.finalizers ≠ [])
    (he : Exec (unfailing env) (updateWorkPlacements env g listed) s r t) : r.1 = 0 := by
  induction listed generalizing s r with
  | nil => rw [he.1]
  | cons x listed ih =>
    rw [List.map_cons, List.nodup_cons] at hkeys
    obtain ⟨a, u, hfirst, hrest⟩ := exec_bind.mp he
    obtain ⟨b, w, hloop, hret⟩ := exec_bind.mp hrest
    have hx := hstored x (by simp)
    obtain ⟨mis, rfl⟩ := succeeds_updateWorkPlacement hx (hlast x (by simp)) hfirst
    obtain ⟨v, hset, -⟩ := exec_updateWorkPlacement hx (hfirst.mono faulty_of_unfailing)
    have hstored' : ∀ y ∈ listed, u.placement y.key = some y := fun y hy =>
      (hset.other _ fun heq => hkeys.1 (heq ▸ List.mem_map_of_mem hy)).trans
        (hstored y (by simp [hy]))
    have ht : t = w ∧ r.1 = b.1 := by
      cases mis <;> exact ⟨hret.2, by rw [hret.1]⟩
    obtain ⟨rfl, hr⟩ := ht
    rw [hr]
    exact ih hkeys.2 hstored' (fun y hy => hlast y (by simp [hy])) hloop

theorem succeeds_reconcileWorkloadGroup {r : Except Failure SchedulingStatus}
    (hfree : Unclaimed s work)
    (hlast : work.isResourceRequest = true → ∀ x ∈ existingPlacements env s work g,
      x.metadata.deleting = true → x.metadata.finalizers ≠ [])
    (he : Exec (unfailing env) (reconcileWorkloadGroup env g work) s r t) : ∃ st, r = .ok st := by
  obtain ⟨a, u, hlist, hrest⟩ := exec_bind.mp he
  obtain ⟨b, v, hlist', hret⟩ := exec_bind.mp hlist
  obtain ⟨rfl, rfl⟩ := exec_listObjects_unfailing hlist'
  obtain ⟨rfl, rfl⟩ := hret
  dsimp only at hrest
  split at hrest
  · next hcase =>
    obtain ⟨counts, w, hloop, hret⟩ := exec_bind.mp hrest
    have hzero := succeeds_updateWorkPlacements existingPlacements_nodup
      (fun x hx => existingPlacements_mem hx) (hlast (Bool.and_eq_true _ _ ▸ hcase).1) hloop
    obtain ⟨errored, misplaced⟩ := counts
    dsimp only at hret hzero
    rw [if_neg (by omega)] at hret
    exact ⟨_, hret.1⟩
  · exact succeeds_placeWorkloadGroup hfree hrest

end Kratix
