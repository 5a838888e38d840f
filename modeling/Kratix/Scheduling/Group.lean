import Kratix.Scheduling.Placement

/-!
# Reconciling a workload group and cleaning up

A group of a resource request that has WorkPlacements gets them updated; any
other group is placed. Afterwards the WorkPlacements of groups that left the
Work are deleted.
-/

namespace Kratix

open Apiserver Effect

variable {env : Externals} {h : Handler signature World} {s t : World} {work : Work}
  {g : WorkloadGroup}

/-! ### Updating -/

/-- Each WorkPlacement is as before, or it is a listed one that was updated. -/
structure Updates (g : WorkloadGroup) (listed : List WorkPlacement) (s t : World) : Prop where
  entry : ∀ key, t.placement key = s.placement key ∨
    ∃ x ∈ listed, x.key = key ∧ UpdatedTo g x (t.placement key)
  others : ∀ k, k ≠ .workPlacement → t.cluster.objects k = s.cluster.objects k

theorem exec_updateWorkPlacements {listed : List WorkPlacement} {r : ℕ × ℕ}
    (hkeys : (listed.map Object.key).Nodup) (hstored : ∀ x ∈ listed, s.placement x.key = some x)
    (he : Exec (faulty env) (updateWorkPlacements env g listed) s r t) :
    Updates g listed s t ∧ (r.1 = 0 → ∀ x ∈ listed, ∃ mis x',
      t.placement x.key = some x' ∧ Updated g mis x x' ∧ Reports mis x'.status) := by
  induction listed generalizing s r with
  | nil =>
    obtain ⟨rfl, rfl⟩ := he
    exact ⟨⟨fun key => Or.inl rfl, fun k _ => rfl⟩, by simp⟩
  | cons x listed ih =>
    rw [List.map_cons, List.nodup_cons] at hkeys
    obtain ⟨a, u, hfirst, hrest⟩ := exec_bind.mp he
    obtain ⟨b, w, hloop, hret⟩ := exec_bind.mp hrest
    obtain ⟨v, hset, hto, hdone⟩ := exec_updateWorkPlacement (hstored x (by simp)) hfirst
    have hne : ∀ y ∈ listed, y.key ≠ x.key := fun y hy heq =>
      hkeys.1 (heq ▸ List.mem_map_of_mem hy)
    have hstored' : ∀ y ∈ listed, u.placement y.key = some y := fun y hy =>
      (hset.other _ (hne y hy)).trans (hstored y (by simp [hy]))
    have ht : t = w := by
      rcases a with e | (_ | _) <;> exact hret.2
    subst ht
    obtain ⟨hrun, hall⟩ := ih hkeys.2 hstored' hloop
    have hkeep : t.placement x.key = v := by
      rcases hrun.entry x.key with hsame | ⟨y, hy, hk, -⟩
      · exact hsame.trans hset.self
      · exact absurd hk (hne y hy)
    refine ⟨⟨fun key => ?_, fun k hk => (hrun.others k hk).trans (hset.others k hk)⟩, ?_⟩
    · by_cases hk : key = x.key
      · subst hk
        exact Or.inr ⟨x, by simp, rfl, hkeep ▸ hto⟩
      · rcases hrun.entry key with hsame | ⟨y, hy, hy'⟩
        · exact Or.inl (hsame.trans (hset.other key hk))
        · exact Or.inr ⟨y, by simp [hy], hy'⟩
    · intro hr y hy
      have hok : (∃ mis, a = .ok mis) ∧ b.1 = 0 := by
        rcases a with e | (_ | _)
        · rw [hret.1] at hr
          exact absurd hr (by simp)
        · rw [hret.1] at hr
          exact ⟨⟨_, rfl⟩, hr⟩
        · rw [hret.1] at hr
          exact ⟨⟨_, rfl⟩, hr⟩
      obtain ⟨⟨mis, ha⟩, hb⟩ := hok
      rcases List.mem_cons.mp hy with rfl | hy
      · obtain ⟨x', hx', hup, hrep⟩ := hdone mis ha
        exact ⟨mis, x', hkeep.trans hx', hup, hrep⟩
      · exact hall hb y hy

/-! ### A group -/

/-- The WorkPlacements that are found for a group. -/
def existingPlacements (env : Externals) (s : World) (work : Work) (g : WorkloadGroup) :
    List WorkPlacement :=
  s.cluster.listed .workPlacement work.metadata.ns
    (selectorOrEverything env (workloadGroupLabels work.metadata.name g.id))

/-- What one call may have done for a group: nothing before an error, updates
of the WorkPlacements of a resource request, or placements. -/
inductive GroupOutcome (env : Externals) (h : Handler signature World) (work : Work)
    (g : WorkloadGroup) (s : World) (r : Except Failure SchedulingStatus) (t : World) : Prop
  | failed (hsame : t = s) (hr : ∀ st, r ≠ .ok st)
  | updates (hrequest : work.isResourceRequest = true)
      (hsome : existingPlacements env s work g ≠ [])
      (hupdates : Updates g (existingPlacements env s work g) s t)
      (hdone : ∀ st, r = .ok st → ∀ x ∈ existingPlacements env s work g, ∃ mis x',
        t.placement x.key = some x' ∧ Updated g mis x x' ∧ Reports mis x'.status)
  | places (names targets : List String)
      (hnone : work.isResourceRequest = true → existingPlacements env s work g = [])
      (hnames : Exec h (getTargetDestinationNames env
        (resolveDestinationSelectorsForWorkloadGroup g) work) s names s)
      (htargets : ∀ d, d ∈ targets ↔ d ∈ names ∨
        ∃ x ∈ existingPlacements env s work g, x.spec.targetDestinationName = d)
      (happlies : Applies work g (fun d => !names.contains d) targets s t)
      (hdone : ∀ st, r = .ok st → ∀ d ∈ targets, ∃ x,
        t.placement (placementKey work g d) = some x ∧
        PlacedOver work g d (!names.contains d) (s.placement (placementKey work g d)) x ∧
        Reports (!names.contains d) x.status)

theorem existingPlacements_mem {x : WorkPlacement} (hx : x ∈ existingPlacements env s work g) :
    s.placement x.key = some x :=
  Cluster.find_key (Cluster.mem_listed.mp hx).1

theorem existingPlacements_nodup : ((existingPlacements env s work g).map Object.key).Nodup :=
  (s.cluster.keys_nodup .workPlacement).sublist (List.filter_sublist.map _)

theorem exec_reconcileWorkloadGroup (hh : Refines env h) {r : Except Failure SchedulingStatus}
    (he : Exec h (reconcileWorkloadGroup env g work) s r t) : GroupOutcome env h work g s r t := by
  obtain ⟨a, u, hlist, hrest⟩ := exec_bind.mp he
  obtain ⟨rfl, hok⟩ := exec_listWorkplacementWithLabels (hlist.mono hh)
  cases a with
  | error e =>
    obtain ⟨rfl, rfl⟩ := hrest
    exact .failed rfl (by simp)
  | ok existing =>
    obtain rfl : existing = existingPlacements env u work g := hok existing rfl
    dsimp only at hrest
    split at hrest
    · next hcase =>
      simp only [Bool.and_eq_true, Bool.not_eq_true', List.isEmpty_eq_false_iff] at hcase
      obtain ⟨⟨errored, misplaced⟩, w, hloop, hret⟩ := exec_bind.mp hrest
      obtain ⟨hupdates, hdone⟩ := exec_updateWorkPlacements existingPlacements_nodup
        (fun x hx => existingPlacements_mem hx) (hloop.mono hh)
      dsimp only at hret
      split at hret
      · obtain ⟨rfl, rfl⟩ := hret
        exact .updates hcase.1 hcase.2 hupdates (by simp)
      · next hzero =>
        obtain ⟨rfl, rfl⟩ := hret
        exact .updates hcase.1 hcase.2 hupdates fun _ _ => hdone (by simpa using hzero)
    · next hcase =>
      have hnone : work.isResourceRequest = true → existingPlacements env u work g = [] := by
        intro hr
        simpa [hr] using hcase
      obtain ⟨names, targets, hnames, htargets, happlies, hdone⟩ := exec_placeWorkloadGroup hh hrest
      exact .places names targets hnone hnames htargets happlies hdone

/-! ### All groups -/

/-- The groups one after another; the flag tells whether all of them came through. -/
inductive GroupsRun (env : Externals) (h : Handler signature World) (work : Work) :
    List WorkloadGroup → World → Bool → World → Prop
  | done (s : World) : GroupsRun env h work [] s true s
  | stop {g : WorkloadGroup} {groups : List WorkloadGroup} {s t : World}
      {r : Except Failure SchedulingStatus} (hg : GroupOutcome env h work g s r t)
      (hr : ∀ st, r ≠ .ok st) : GroupsRun env h work (g :: groups) s false t
  | next {g : WorkloadGroup} {groups : List WorkloadGroup} {s u t : World} {b : Bool}
      {st : SchedulingStatus} (hg : GroupOutcome env h work g s (.ok st) u)
      (hrest : GroupsRun env h work groups u b t) : GroupsRun env h work (g :: groups) s b t

theorem exec_reconcileWorkloadGroups (hh : Refines env h) {groups : List WorkloadGroup}
    {unschedulable misplaced : List String} {r : Except WorkloadGroup (List String × List String)}
    (he : Exec h (reconcileWorkloadGroups env work groups unschedulable misplaced) s r t) :
    GroupsRun env h work groups s r.toBool t := by
  induction groups generalizing s unschedulable misplaced with
  | nil =>
    obtain ⟨rfl, rfl⟩ := he
    exact .done _
  | cons g groups ih =>
    obtain ⟨a, u, hgroup, hrest⟩ := exec_bind.mp he
    have hg := exec_reconcileWorkloadGroup hh hgroup
    rcases a with e | (_ | _ | _)
    · obtain ⟨rfl, rfl⟩ := hrest
      exact .stop hg (by simp)
    · exact .next hg (ih hrest)
    · exact .next hg (ih hrest)
    · exact .next hg (ih hrest)

theorem GroupOutcome.others {r : Except Failure SchedulingStatus}
    (hg : GroupOutcome env h work g s r t) {k : Kind} (hk : k ≠ .workPlacement) :
    t.cluster.objects k = s.cluster.objects k := by
  cases hg with
  | failed hsame => rw [hsame]
  | updates _ _ hupdates => exact hupdates.others k hk
  | places _ _ _ _ _ happlies => exact happlies.others k hk

theorem GroupsRun.others {groups : List WorkloadGroup} {b : Bool}
    (hrun : GroupsRun env h work groups s b t) {k : Kind} (hk : k ≠ .workPlacement) :
    t.cluster.objects k = s.cluster.objects k := by
  induction hrun with
  | done s => rfl
  | stop hg _ => exact hg.others hk
  | next hg _ ih => exact ih.trans (hg.others hk)

/-! ### Cleaning up -/

/-- Each WorkPlacement is as before, or it was a doomed one and is now deleted. -/
structure Deletes (doomed : WorkPlacement → Prop) (s t : World) : Prop where
  entry : ∀ key, t.placement key = s.placement key ∨ ∃ x, s.placement key = some x ∧ doomed x ∧
    t.placement key = x.markDeleting.settle
  others : ∀ k, k ≠ .workPlacement → t.cluster.objects k = s.cluster.objects k

theorem Deletes.refl (doomed : WorkPlacement → Prop) (s : World) : Deletes doomed s s :=
  ⟨fun _ => Or.inl rfl, fun _ _ => rfl⟩

theorem exec_deleteWorkPlacements {wps : List WorkPlacement} {r : Option Failure}
    (hkeys : (wps.map Object.key).Nodup) (hstored : ∀ x ∈ wps, s.placement x.key = some x)
    (he : Exec (faulty env) (deleteWorkPlacements wps) s r t) :
    Deletes (· ∈ wps) s t ∧
      (r = none → ∀ x ∈ wps, t.placement x.key = x.markDeleting.settle) := by
  induction wps generalizing s with
  | nil =>
    obtain ⟨rfl, rfl⟩ := he
    exact ⟨Deletes.refl _ _, by simp⟩
  | cons x wps ih =>
    rw [List.map_cons, List.nodup_cons] at hkeys
    have hx := hstored x (by simp)
    obtain ⟨a, u, hdelete, hrest⟩ := exec_bind.mp he
    have hfirst : u = s ∧ (∀ y, a ≠ .ok y) ∨ SetsPlacement x.key x.markDeleting.settle s u := by
      rcases exec_deleteObject hdelete with ⟨rfl, hno, -⟩ | ⟨stored, c, hf, hrep, rfl, -⟩
      · exact Or.inl ⟨rfl, hno⟩
      · obtain rfl : x = stored := Option.some.inj (hx.symm.trans hf)
        exact Or.inr (Sets.of_replaces hrep)
    cases a with
    | error e =>
      obtain ⟨rfl, rfl⟩ := hrest
      refine ⟨?_, by simp⟩
      rcases hfirst with ⟨rfl, -⟩ | hset
      · exact Deletes.refl _ _
      · refine ⟨fun key => ?_, hset.others⟩
        by_cases hk : key = x.key
        · subst hk
          exact Or.inr ⟨x, hx, by simp, hset.self⟩
        · exact Or.inl (hset.other key hk)
    | ok _ =>
      rcases hfirst with ⟨-, hno⟩ | hset
      · exact absurd rfl (hno ())
      · have hne : ∀ y ∈ wps, y.key ≠ x.key := fun y hy heq =>
          hkeys.1 (heq ▸ List.mem_map_of_mem hy)
        obtain ⟨hrun, hall⟩ := ih hkeys.2
          (fun y hy => (hset.other _ (hne y hy)).trans (hstored y (by simp [hy]))) hrest
        have hkeep : t.placement x.key = x.markDeleting.settle := by
          rcases hrun.entry x.key with hsame | ⟨y, hy, hmem, -⟩
          · exact hsame.trans hset.self
          · exact absurd (u.cluster.find_eq_some.mp hy).2 (hne y hmem)
        refine ⟨⟨fun key => ?_, fun k hk => (hrun.others k hk).trans (hset.others k hk)⟩, ?_⟩
        · by_cases hk : key = x.key
          · subst hk
            exact Or.inr ⟨x, hx, by simp, hkeep⟩
          · have hsame : u.placement key = s.placement key := hset.other key hk
            rcases hrun.entry key with h | ⟨y, hy, hmem, hy'⟩
            · exact Or.inl (h.trans hsame)
            · exact Or.inr ⟨y, hsame ▸ hy, by simp [hmem], hy'⟩
        · intro hr y hy
          rcases List.mem_cons.mp hy with rfl | hy
          · exact hkeep
          · exact hall hr y hy

theorem exec_namesThatShouldExist {groups : List WorkloadGroup}
    {r : Except Failure (List String)}
    (he : Exec (faulty env) (namesThatShouldExist env work groups) s r t) :
    t = s ∧ ∀ names, r = .ok names → ∀ n, n ∈ names ↔
      ∃ g ∈ groups, ∃ x ∈ existingPlacements env s work g, x.metadata.name = n := by
  induction groups generalizing r t with
  | nil =>
    obtain ⟨rfl, rfl⟩ := he
    exact ⟨rfl, by simp⟩
  | cons g groups ih =>
    obtain ⟨a, u, hlist, hrest⟩ := exec_bind.mp he
    obtain ⟨rfl, hok⟩ := exec_listWorkplacementWithLabels hlist
    cases a with
    | error e =>
      obtain ⟨rfl, rfl⟩ := hrest
      exact ⟨rfl, by simp⟩
    | ok existing =>
      obtain rfl : existing = existingPlacements env u work g := hok existing rfl
      obtain ⟨b, v, hloop, hret⟩ := exec_bind.mp hrest
      obtain ⟨rfl, hnames⟩ := ih hloop
      cases b with
      | error e =>
        obtain ⟨rfl, rfl⟩ := hret
        exact ⟨rfl, by simp⟩
      | ok rest =>
        obtain ⟨rfl, rfl⟩ := hret
        refine ⟨rfl, fun names hr n => ?_⟩
        cases hr
        simp [hnames rest rfl n]

/-- The WorkPlacement is found for the Work but for none of its groups. -/
def Dangling (env : Externals) (s : World) (work : Work) (x : WorkPlacement) : Prop :=
  x ∈ s.cluster.listed .workPlacement work.metadata.ns
      (selectorOrEverything env (workNameLabels work.metadata.name)) ∧
    ∀ g ∈ work.spec.workloadGroups, ∀ y ∈ existingPlacements env s work g,
      y.metadata.name ≠ x.metadata.name

theorem exec_cleanupDanglingWorkplacements {r : Option Failure}
    (he : Exec (faulty env) (cleanupDanglingWorkplacements env work) s r t) :
    Deletes (Dangling env s work) s t ∧
      (r = none → ∀ x, Dangling env s work x → t.placement x.key = x.markDeleting.settle) := by
  obtain ⟨a, u, hnames, hrest⟩ := exec_bind.mp he
  obtain ⟨rfl, hkeep⟩ := exec_namesThatShouldExist hnames
  cases a with
  | error e =>
    obtain ⟨rfl, rfl⟩ := hrest
    exact ⟨Deletes.refl _ _, by simp⟩
  | ok names =>
    obtain ⟨b, v, hlist, hdelete⟩ := exec_bind.mp hrest
    obtain ⟨rfl, hok⟩ := exec_listWorkplacementWithLabels hlist
    cases b with
    | error e =>
      obtain ⟨rfl, rfl⟩ := hdelete
      exact ⟨Deletes.refl _ _, by simp⟩
    | ok all =>
      obtain rfl := hok all rfl
      have hdoomed : ∀ x, x ∈ (v.cluster.listed .workPlacement work.metadata.ns
          (selectorOrEverything env (workNameLabels work.metadata.name))).filter
            (fun wp => !names.contains wp.metadata.name) ↔ Dangling env v work x := by
        intro x
        rw [List.mem_filter]
        refine and_congr_right fun _ => ?_
        rw [Bool.not_eq_true', ← Bool.not_eq_true, List.contains_iff_mem, hkeep names rfl]
        push Not
        rfl
      obtain ⟨hrun, hall⟩ := exec_deleteWorkPlacements
        ((v.cluster.keys_nodup .workPlacement).sublist
          ((List.filter_sublist.trans List.filter_sublist).map _))
        (fun x hx => Cluster.find_key (Cluster.mem_listed.mp (List.mem_filter.mp hx).1).1) hdelete
      refine ⟨⟨fun key => ?_, hrun.others⟩, fun hr x hx => hall hr x ((hdoomed x).mpr hx)⟩
      rcases hrun.entry key with hsame | ⟨x, hx, hmem, hx'⟩
      · exact Or.inl hsame
      · exact Or.inr ⟨x, hx, (hdoomed x).mp hmem, hx'⟩

/-! ### The whole call -/

/-- Only Works may be others. -/
def SamePlacements (s t : World) : Prop :=
  ∀ k, k ≠ .work → t.cluster.objects k = s.cluster.objects k

theorem SamePlacements.placement (hsame : SamePlacements s t) (key : String × String) :
    t.placement key = s.placement key := by
  unfold World.placement Cluster.find
  rw [hsame .workPlacement (by decide)]

/-- Writing the status leaves the other objects alone and answers with the stored Work. -/
theorem exec_writeWorkStatus {w : Work} {r : Option Failure × Work}
    (he : Exec (faulty env) (writeWorkStatus w) s r t) :
    SamePlacements s t ∧ r.2.key = w.key ∧
      ∀ x ∈ s.cluster.objects .work, x.key = w.key → x.spec = w.spec → r.2.spec = w.spec := by
  obtain ⟨a, u, hupdate, hret⟩ := exec_bind.mp he
  have ht : t = u := by cases a <;> exact hret.2
  subst ht
  rcases exec_updateStatus hupdate with ⟨rfl, hno⟩ | ⟨stored, c, hf, hrep, rfl, hok⟩
  · cases a with
    | ok x => exact absurd rfl (hno x)
    | error e =>
      rw [hret.1]
      exact ⟨fun _ _ => rfl, rfl, fun _ _ _ _ => rfl⟩
  · refine ⟨hrep.others, ?_⟩
    obtain ⟨hmem, hkey⟩ := s.cluster.find_eq_some.mp hf
    cases a with
    | error e =>
      rw [hret.1]
      exact ⟨rfl, fun _ _ _ _ => rfl⟩
    | ok x =>
      rw [hret.1, hok x rfl]
      refine ⟨hkey, fun y hy hyk hspec => ?_⟩
      rw [← hspec, s.cluster.eq_of_key hy hmem (hyk.trans hkey.symm)]

/-- A call reconciles the groups, writes the status of the Work and, if all of
that came through, deletes the dangling WorkPlacements. -/
theorem exec_reconcileWork_parts (hh : Refines env h) {r : ScheduleResult}
    (he : Exec h (reconcileWork env work) s r t) :
    ∃ a u v, Exec h (reconcileWorkloadGroups env work work.spec.workloadGroups [] []) s a u ∧
      SamePlacements u v ∧
      (t = v ∧ (a.toBool = true → r.err ≠ none) ∨
        a.toBool = true ∧ ∃ work' : Work, work'.key = work.key ∧
          (work ∈ s.cluster.objects .work → work'.spec = work.spec) ∧
          Exec h (cleanupDanglingWorkplacements env work') v r.err t) := by
  obtain ⟨a, u, hgroups, hrest⟩ := exec_bind.mp he
  have hrun := exec_reconcileWorkloadGroups hh hgroups
  refine ⟨a, u, ?_⟩
  cases a with
  | error wg =>
    obtain ⟨⟨err, w⟩, v, hstatus, hret⟩ := exec_bind.mp hrest
    obtain ⟨hsame, -⟩ := exec_writeWorkStatus (hstatus.mono hh)
    exact ⟨v, hgroups, hsame, Or.inl ⟨hret.2, fun hok => by cases hok⟩⟩
  | ok lists =>
    obtain ⟨unschedulable, misplaced⟩ := lists
    -- what follows the status, with its result and the Work as it is then
    have htail : ∀ (err : Option Failure) (w : Work) (v : World),
        Exec h (if err.isSome then pure (⟨[], err, w⟩ : ScheduleResult) else do
          let err ← cleanupDanglingWorkplacements env w
          return ⟨unschedulable, err, w⟩) v r t →
        (t = v ∧ r.err ≠ none) ∨ Exec h (cleanupDanglingWorkplacements env w) v r.err t := by
      intro err w v hret
      split at hret
      · next herr =>
        obtain ⟨rfl, rfl⟩ := hret
        exact Or.inl ⟨rfl, fun hnone => by simp_all⟩
      · obtain ⟨b, w', hclean, hret'⟩ := exec_bind.mp hret
        obtain ⟨rfl, rfl⟩ := hret'
        exact Or.inr hclean
    dsimp only at hrest
    split at hrest
    · obtain ⟨⟨err, w⟩, v, hstatus, hret⟩ := exec_bind.mp hrest
      obtain ⟨hsame, hkey, hspec⟩ := exec_writeWorkStatus (hstatus.mono hh)
      refine ⟨v, hgroups, hsame, ?_⟩
      rcases htail err w v hret with ⟨rfl, herr⟩ | hclean
      · exact Or.inl ⟨rfl, fun _ => herr⟩
      · refine Or.inr ⟨rfl, w, hkey, fun hwork => hspec work ?_ rfl rfl, hclean⟩
        rw [hrun.others (by decide)]
        exact hwork
    · obtain ⟨a, v, hpure, hret⟩ := exec_bind.mp hrest
      obtain ⟨rfl, rfl⟩ := hpure
      refine ⟨v, hgroups, fun _ _ => rfl, ?_⟩
      rcases htail _ _ v hret with ⟨rfl, herr⟩ | hclean
      · exact Or.inl ⟨rfl, fun _ => herr⟩
      · refine Or.inr ⟨rfl, ?_⟩
        exact ⟨{ work with status := (updatedWorkStatus work unschedulable misplaced).2 }, rfl,
          fun _ => rfl, hclean⟩

theorem exec_reconcileWork (hh : Refines env h) {r : ScheduleResult}
    (he : Exec h (reconcileWork env work) s r t) :
    ∃ b u v, GroupsRun env h work work.spec.workloadGroups s b u ∧ SamePlacements u v ∧
      (t = v ∧ (b = true → r.err ≠ none) ∨
        b = true ∧ ∃ work' : Work, work'.key = work.key ∧
          (work ∈ s.cluster.objects .work → work'.spec = work.spec) ∧
          Exec h (cleanupDanglingWorkplacements env work') v r.err t) := by
  obtain ⟨a, u, v, hgroups, hsame, hend⟩ := exec_reconcileWork_parts hh he
  exact ⟨_, u, v, exec_reconcileWorkloadGroups hh hgroups, hsame, hend⟩

end Kratix
