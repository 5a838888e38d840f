import Kratix.Scheduling.Invariant

/-!
# Groups do not disturb one another

With distinct five-character prefixes the names of the WorkPlacements of two
groups are distinct, so what a call does for one group can be read off the
cluster before and after the whole call.
-/

namespace Kratix

open Apiserver Effect

variable {env : Externals} {h : Handler signature World} {s t u : World} {work : Work}
  {g : WorkloadGroup} {id : String} {key : String × String} {x : WorkPlacement}

/-- The WorkPlacement is stored, belongs to the Work and carries the ID of the group. -/
structure Holds (s : World) (work : Work) (id : String) (key : String × String)
    (x : WorkPlacement) : Prop where
  stored : s.placement key = some x
  belongsTo : BelongsTo work x
  groupID_eq : groupID x = some id

theorem Holds.valid (hx : Holds s work id key x) :
    isValidLabelValue work.metadata.name = true ∧ isValidLabelValue id = true :=
  have hmem := (s.cluster.find_eq_some.mp hx.stored).1
  ⟨isValidLabelValue_of_lookup hmem hx.belongsTo.2, isValidLabelValue_of_lookup hmem hx.groupID_eq⟩

theorem Holds.key_eq (hx : Holds s work id key x) : x.key = key :=
  (s.cluster.find_eq_some.mp hx.stored).2

theorem mem_existingPlacements_iff (hns : work.metadata.ns ≠ "")
    (hname : isValidLabelValue work.metadata.name = true) (hid : isValidLabelValue g.id = true) :
    x ∈ existingPlacements env s work g ↔ Holds s work g.id x.key x := by
  rw [mem_existingPlacements hname hid hns]
  exact ⟨fun hx => ⟨hx.1, hx.2.1, hx.2.2⟩, fun hx => ⟨hx.stored, hx.belongsTo, hx.groupID_eq⟩⟩

theorem Holds.of_isPlacement {d : String} {misplaced : Bool} (hx : t.placement key = some x)
    (hplaced : IsPlacement work g d misplaced x) : Holds t work g.id key x :=
  ⟨hx, hplaced.belongsTo, hplaced.groupID_eq⟩

/-- Under a regular name the ID and the Destination are the ones of the label. -/
theorem Tidy.key_of_holds (hs : Tidy work s) (hx : Holds s work g.id key x) :
    key = placementKey work g x.spec.targetDestinationName := by
  obtain ⟨g', hkey, hgroup, -⟩ := hs.regular key x hx.stored hx.belongsTo
  have hid : g'.id = g.id := Option.some.inj (hgroup.symm.trans hx.groupID_eq)
  rw [hkey, placementKey, placementKey, workPlacementName, workPlacementName, hid]

/-- The labels of the Work and the group can be used to list by, as long as
updates depend on it. -/
def Listable (work : Work) (g : WorkloadGroup) : Prop :=
  work.isResourceRequest = true →
    isValidLabelValue work.metadata.name = true ∧ isValidLabelValue g.id = true

/-- A group leaves the WorkPlacements of groups with another prefix alone. -/
theorem GroupOutcome.holds_iff {r : Except Failure SchedulingStatus}
    (hg : GroupOutcome env h work g s r t) (hs : Tidy work s) (hns : work.metadata.ns ≠ "")
    (hlist : Listable work g) (hlen : 5 ≤ g.id.length) (hshort : shortID g.id ≠ shortID id) :
    Holds t work id key x ↔ Holds s work id key x := by
  suffices hentry : t.placement key = s.placement key ∨
      (∀ y, ¬ Holds s work id key y) ∧ ∀ y, ¬ Holds t work id key y by
    rcases hentry with hsame | ⟨hbefore, hafter⟩
    · exact ⟨fun hx => ⟨hsame ▸ hx.stored, hx.belongsTo, hx.groupID_eq⟩,
        fun hx => ⟨hsame ▸ hx.stored, hx.belongsTo, hx.groupID_eq⟩⟩
    · exact ⟨fun hx => absurd hx (hafter x), fun hx => absurd hx (hbefore x)⟩
  have hid : g.id ≠ id := fun heq => hshort (congrArg shortID heq)
  cases hg with
  | failed hsame => exact Or.inl (by rw [hsame])
  | updates hrequest _ hupdates =>
    rcases hupdates.entry key with hsame | ⟨y, hy, rfl, hto⟩
    · exact Or.inl hsame
    · obtain ⟨hname, hvalid⟩ := hlist hrequest
      have hy' := (mem_existingPlacements_iff hns hname hvalid).mp hy
      refine Or.inr ⟨fun z hz => ?_, fun z hz => ?_⟩
      · obtain rfl : y = z := Option.some.inj (hy'.stored.symm.trans hz.stored)
        exact hid (Option.some.inj (hy'.groupID_eq.symm.trans hz.groupID_eq))
      · rcases hto with hsame | ⟨hnone, -⟩ | ⟨mis, y', hnew, hup⟩
        · obtain rfl : y = z := Option.some.inj (hsame.symm.trans hz.stored)
          exact hid (Option.some.inj (hy'.groupID_eq.symm.trans hz.groupID_eq))
        · exact absurd (hnone.symm.trans hz.stored) (by simp)
        · obtain rfl : y' = z := Option.some.inj (hnew.symm.trans hz.stored)
          exact hid (Option.some.inj
            (hy'.groupID_eq.symm.trans (hup.groupID_eq.symm.trans hz.groupID_eq)))
  | places names _ _ _ _ happlies =>
    rcases happlies.entry key with hsame | ⟨d, -, hk, y, hy, hplaced⟩
    · exact Or.inl hsame
    · refine Or.inr ⟨fun z hz => ?_, fun z hz => ?_⟩
      -- the name of a stored one would have the prefix of both IDs
      · obtain ⟨-, id', hgroup, hprefix⟩ := hs.target_of_key hlen (hk ▸ hz.stored)
        rw [Option.some.inj (hgroup.symm.trans hz.groupID_eq)] at hprefix
        exact hshort hprefix.symm
      · obtain rfl : y = z := Option.some.inj (hy.symm.trans hz.stored)
        exact hid (Option.some.inj (hplaced.isPlacement.groupID_eq.symm.trans hz.groupID_eq))

/-- The group IDs have distinct prefixes of five characters. -/
structure DistinctPrefixes (groups : List WorkloadGroup) : Prop where
  length : ∀ g ∈ groups, 5 ≤ g.id.length
  nodup : (groups.map fun g => shortID g.id).Nodup

theorem DistinctPrefixes.tail {groups : List WorkloadGroup} (hd : DistinctPrefixes (g :: groups)) :
    DistinctPrefixes groups :=
  ⟨fun g hg => hd.length g (by simp [hg]), (List.nodup_cons.mp hd.nodup).2⟩

theorem DistinctPrefixes.ne {groups : List WorkloadGroup} (hd : DistinctPrefixes (g :: groups))
    {g' : WorkloadGroup} (hg' : g' ∈ groups) : shortID g.id ≠ shortID g'.id := by
  intro heq
  exact (List.nodup_cons.mp hd.nodup).1 (List.mem_map.mpr ⟨g', hg', heq.symm⟩)

theorem GroupsRun.holds_iff {groups : List WorkloadGroup} {b : Bool}
    (hrun : GroupsRun env h work groups s b t) (hs : Tidy work s) (hns : work.metadata.ns ≠ "")
    (hlist : ∀ g ∈ groups, Listable work g) (hlen : ∀ g ∈ groups, 5 ≤ g.id.length)
    (hshort : ∀ g ∈ groups, shortID g.id ≠ shortID id) :
    Holds t work id key x ↔ Holds s work id key x := by
  induction hrun with
  | done s => exact Iff.rfl
  | stop hg _ =>
    exact hg.holds_iff hs hns (hlist _ (by simp)) (hlen _ (by simp)) (hshort _ (by simp))
  | next hg _ ih =>
    have hu := hs.of_entries (fun g hg => hlen g (by simp_all)) hg.entry
    rw [ih hu (fun g hg => hlist g (by simp [hg])) (fun g hg => hlen g (by simp [hg]))
      fun g hg => hshort g (by simp [hg])]
    exact hg.holds_iff hs hns (hlist _ (by simp)) (hlen _ (by simp)) (hshort _ (by simp))

/-- What happened to one group, seen from the ends of the run. -/
structure GroupPart (env : Externals) (h : Handler signature World) (work : Work)
    (g : WorkloadGroup) (s t : World) (s' : World) (st : SchedulingStatus) (t' : World) : Prop where
  outcome : GroupOutcome env h work g s' (.ok st) t'
  before : ∀ key x, Holds s' work g.id key x ↔ Holds s work g.id key x
  after : ∀ key x, Holds t work g.id key x ↔ Holds t' work g.id key x
  tidy : Tidy work s'
  others : ∀ k, k ≠ .workPlacement → s'.cluster.objects k = s.cluster.objects k

theorem GroupsRun.part {groups : List WorkloadGroup} {b : Bool}
    (hrun : GroupsRun env h work groups s b t) (hb : b = true) (hs : Tidy work s)
    (hns : work.metadata.ns ≠ "") (hlist : ∀ g ∈ groups, Listable work g)
    (hd : DistinctPrefixes groups) (hg : g ∈ groups) :
    ∃ s' st t', GroupPart env h work g s t s' st t' := by
  induction hrun with
  | done s => cases hg
  | stop _ _ => cases hb
  | @next g₀ groups s u t b st hg₀ hrest ih =>
    have hu := hs.of_entries (fun g hg => hd.length g (by simp_all)) hg₀.entry
    have hlist' : ∀ g ∈ groups, Listable work g := fun g hg => hlist g (by simp [hg])
    rcases List.mem_cons.mp hg with rfl | hg
    · refine ⟨s, st, u, hg₀, fun _ _ => Iff.rfl, fun key x => ?_, hs, fun _ _ => rfl⟩
      exact hrest.holds_iff hu hns hlist' hd.tail.length fun g' hg' => (hd.ne hg').symm
    · obtain ⟨s', st', t', hpart⟩ := ih hb hu hlist' hd.tail hg
      refine ⟨s', st', t', hpart.outcome, fun key x => ?_, hpart.after, hpart.tidy,
        fun k hk => (hpart.others k hk).trans (hg₀.others hk)⟩
      rw [hpart.before]
      exact hg₀.holds_iff hs hns (hlist _ (by simp)) (hd.length _ (by simp)) (hd.ne hg)

end Kratix
