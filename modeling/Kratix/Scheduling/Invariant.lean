import Kratix.Scheduling.Names
import Kratix.Scheduling.Success

/-!
# The WorkPlacements of a Work

A WorkPlacement belongs to the Work whose name its label holds. As long as only
the scheduler writes them, those of a Work carry the name made of the Work, the
Destination and the group, and no other WorkPlacement uses such a name.
-/

namespace Kratix

open Apiserver Effect

variable {env : Externals} {h : Handler signature World} {s t u : World} {work : Work}
  {g : WorkloadGroup}

def BelongsTo (work : Work) (x : WorkPlacement) : Prop :=
  x.metadata.ns = work.metadata.ns ∧ x.metadata.labels.lookup Label.work = some work.metadata.name

def groupID (x : WorkPlacement) : Option String := x.metadata.labels.lookup Label.workloadGroupID

/-- The label that marks a misplaced WorkPlacement. -/
def isMarkedMisplaced (x : WorkPlacement) : Prop :=
  x.metadata.labels.lookup Label.misscheduled = some "true"

/-! ### Labels -/

theorem lookup_workPlacementLabels (work : Work) (d : String) (g : WorkloadGroup) (key : String) :
    (workPlacementLabels work d g).lookup key =
      if key = Label.pipelineName then some (work.metadata.labels.value Label.pipelineName)
      else if key = Label.work then some work.metadata.name
      else if key = Label.workloadGroupID then some g.id
      else if key = Label.targetDestinationName then some d else none := by
  unfold workPlacementLabels
  rw [Labels.lookup_insert]
  simp

namespace IsPlacement

variable {d : String} {misplaced : Bool} {x : WorkPlacement}

theorem lookup (hx : IsPlacement work g d misplaced x) {key : String}
    (hkey : key ≠ Label.misscheduled) :
    x.metadata.labels.lookup key = (workPlacementLabels work d g).lookup key := by
  rw [hx.labels]
  cases misplaced
  · rfl
  · exact AList.lookup_insert_ne hkey

theorem belongsTo (hx : IsPlacement work g d misplaced x) : BelongsTo work x := by
  refine ⟨congrArg Prod.fst hx.key, ?_⟩
  rw [hx.lookup (by decide), lookup_workPlacementLabels]
  rfl

theorem groupID_eq (hx : IsPlacement work g d misplaced x) : groupID x = some g.id := by
  rw [groupID, hx.lookup (by decide), lookup_workPlacementLabels]
  rfl

theorem target (hx : IsPlacement work g d misplaced x) : x.spec.targetDestinationName = d := by
  rw [hx.spec]

theorem isMarkedMisplaced_iff (hx : IsPlacement work g d misplaced x) :
    isMarkedMisplaced x ↔ misplaced = true := by
  unfold isMarkedMisplaced
  rw [hx.labels]
  cases misplaced
  · simp only [Bool.false_eq_true, if_false, iff_false]
    rw [lookup_workPlacementLabels]
    exact Option.some_ne_none _ ∘ Eq.symm
  · simp

end IsPlacement

namespace Updated

variable {misplaced : Bool} {x x' : WorkPlacement}

theorem lookup (hx : Updated g misplaced x x') {key : String} (hkey : key ≠ Label.misscheduled) :
    x'.metadata.labels.lookup key = x.metadata.labels.lookup key := by
  rw [hx.labels]
  cases misplaced
  · rfl
  · exact AList.lookup_insert_ne hkey

theorem belongsTo_iff (hx : Updated g misplaced x x') : BelongsTo work x' ↔ BelongsTo work x := by
  unfold BelongsTo
  rw [hx.lookup (by decide), show x'.metadata.ns = x.metadata.ns from congrArg Prod.fst hx.key]

theorem groupID_eq (hx : Updated g misplaced x x') : groupID x' = groupID x :=
  hx.lookup (by decide)

theorem target (hx : Updated g misplaced x x') :
    x'.spec.targetDestinationName = x.spec.targetDestinationName := by
  rw [hx.spec]

end Updated

/-! ### Listing by valid labels -/

theorem isValidLabelValue_of_lookup {x : WorkPlacement} {key v : String} {c : Cluster scheme}
    (hx : x ∈ c.objects .workPlacement) (hv : x.metadata.labels.lookup key = some v) :
    isValidLabelValue v = true :=
  (Labels.valid_iff.mp (c.labels_valid .workPlacement x hx) key v hv).2

theorem selectorOrEverything_of_valid {l m : Labels} (hne : l ≠ ∅) (hv : l.Valid) :
    selectorOrEverything env l m = true ↔
      ∀ key v, l.lookup key = some v → m.lookup key = some v := by
  rw [selectorOrEverything, env.parseLabels_of_valid hne hv, Option.getD_some, Selector.fromSet_iff]

theorem mem_listed_of_valid {l : Labels} {ns : String} {x : WorkPlacement} (hne : l ≠ ∅)
    (hv : l.Valid) (hns : ns ≠ "") :
    x ∈ s.cluster.listed .workPlacement ns (selectorOrEverything env l) ↔
      s.placement x.key = some x ∧ x.metadata.ns = ns ∧
        ∀ key v, l.lookup key = some v → x.metadata.labels.lookup key = some v := by
  rw [Cluster.mem_listed, selectorOrEverything_of_valid hne hv]
  simp only [hns, false_or]
  constructor
  · rintro ⟨hmem, hx⟩
    exact ⟨Cluster.find_key hmem, hx⟩
  · rintro ⟨hfind, hx⟩
    exact ⟨(s.cluster.find_eq_some.mp hfind).1, hx⟩

theorem mem_existingPlacements {x : WorkPlacement}
    (hname : isValidLabelValue work.metadata.name = true) (hid : isValidLabelValue g.id = true)
    (hns : work.metadata.ns ≠ "") :
    x ∈ existingPlacements env s work g ↔
      s.placement x.key = some x ∧ BelongsTo work x ∧ groupID x = some g.id := by
  have hlookup : ∀ key v, (workloadGroupLabels work.metadata.name g.id).lookup key = some v ↔
      key = Label.work ∧ work.metadata.name = v ∨ key = Label.workloadGroupID ∧ g.id = v := by
    intro key v
    simp only [workloadGroupLabels, Labels.lookup_ofList_cons, Labels.lookup_ofList_nil]
    split_ifs with h₁ h₂
    · simp [h₁, show Label.work ≠ Label.workloadGroupID by decide]
    · simp [h₂, show Label.workloadGroupID ≠ Label.work by decide]
    · simp [h₁, h₂]
  rw [existingPlacements, mem_listed_of_valid (workloadGroupLabels_ne_empty _ _)
    (valid_workloadGroupLabels hname hid) hns]
  simp only [hlookup, BelongsTo, groupID]
  grind

theorem mem_listed_workNameLabels {x : WorkPlacement}
    (hname : isValidLabelValue work.metadata.name = true) (hns : work.metadata.ns ≠ "") :
    x ∈ s.cluster.listed .workPlacement work.metadata.ns
        (selectorOrEverything env (workNameLabels work.metadata.name)) ↔
      s.placement x.key = some x ∧ BelongsTo work x := by
  have hlookup : ∀ key v, (workNameLabels work.metadata.name).lookup key = some v ↔
      key = Label.work ∧ work.metadata.name = v := by
    intro key v
    simp only [workNameLabels, Labels.lookup_ofList_cons, Labels.lookup_ofList_nil]
    split_ifs with h₁ <;> simp [h₁]
  rw [mem_listed_of_valid (workNameLabels_ne_empty _) (valid_workNameLabels hname) hns]
  simp only [hlookup, BelongsTo]
  grind

/-! ### Names -/

theorem placementKey_inj_of_length {g g' : WorkloadGroup} {d d' : String}
    (hg : 5 ≤ g.id.length) (hg' : 5 ≤ g'.id.length)
    (hkey : placementKey work g d = placementKey work g' d') :
    d = d' ∧ shortID g.id = shortID g'.id := by
  have hname := congrArg String.toList (congrArg Prod.snd hkey)
  simp only [placementKey, workPlacementName, String.toList_append, List.append_assoc,
    List.append_cancel_left_eq] at hname
  have hlen : ∀ {g : WorkloadGroup}, 5 ≤ g.id.length → (shortID g.id).toList.length = 5 := by
    intro g h
    rw [shortID, String.toList_ofList, List.length_take, String.length_toList]
    exact min_eq_left h
  obtain ⟨h₁, h₂⟩ := List.append_inj' hname (by simp [hlen hg, hlen hg'])
  exact ⟨String.ext h₁, String.ext (List.append_cancel_left h₂)⟩

/-! ### The invariant -/

/-- The WorkPlacement is the same up to its workloads, its status and marks. -/
structure Alike (x x' : WorkPlacement) : Prop where
  key : x'.key = x.key
  belongs : x'.metadata.labels.lookup Label.work = x.metadata.labels.lookup Label.work
  group : groupID x' = groupID x
  target : x'.spec.targetDestinationName = x.spec.targetDestinationName
  owner : x'.metadata.owner = x.metadata.owner
  ownerName : x'.metadata.ownerName = x.metadata.ownerName

theorem Alike.belongsTo_iff {x x' : WorkPlacement} (hx : Alike x x') :
    BelongsTo work x' ↔ BelongsTo work x := by
  unfold BelongsTo
  rw [hx.belongs, show x'.metadata.ns = x.metadata.ns from congrArg Prod.fst hx.key]

theorem Updated.alike {misplaced : Bool} {x x' : WorkPlacement} (hx : Updated g misplaced x x') :
    Alike x x' where
  key := hx.key
  belongs := hx.lookup (by decide)
  group := hx.lookup (by decide)
  target := by rw [hx.spec]
  owner := hx.owner
  ownerName := hx.ownerName

theorem alike_of_sameContent {x x' : WorkPlacement} (hx : SameContent x x') : Alike x x' :=
  ⟨hx.key, by rw [hx.labels], by rw [groupID, groupID, hx.labels], by rw [hx.spec], hx.owner,
    hx.ownerName⟩

/-- What a call may make of an entry before it cleans up: nothing new, a version
that is alike, or a placement for one of the groups. -/
inductive EntryChange (work : Work) (groups : List WorkloadGroup) (old new : Option WorkPlacement) :
    Prop
  | same (hsame : new = old)
  | gone (x : WorkPlacement) (hold : old = some x) (hdel : x.metadata.deleting = true)
      (hnew : new = none)
  | alike (x x' : WorkPlacement) (hold : old = some x) (hnew : new = some x') (halike : Alike x x')
      (hdel : x'.metadata.deleting = x.metadata.deleting)
  | placed (g : WorkloadGroup) (d : String) (misplaced : Bool) (x : WorkPlacement)
      (hg : g ∈ groups) (hnew : new = some x) (hplaced : PlacedOver work g d misplaced old x)

theorem GroupOutcome.entry {r : Except Failure SchedulingStatus}
    (hg : GroupOutcome env h work g s r t) (key : String × String) :
    EntryChange work [g] (s.placement key) (t.placement key) := by
  cases hg with
  | failed hsame => exact .same (by rw [hsame])
  | updates _ _ hupdates =>
    rcases hupdates.entry key with hsame | ⟨x, hx, rfl, hto⟩
    · exact .same hsame
    · have hold := existingPlacements_mem hx
      rcases hto with hsame | ⟨hnone, hdel⟩ | ⟨mis, x', hnew, hup⟩
      · exact .same (hsame.trans hold.symm)
      · exact .gone x hold hdel hnone
      · exact .alike x x' hold hnew hup.alike hup.deleting
  | places names _ _ _ _ happlies =>
    rcases happlies.entry key with hsame | ⟨d, -, -, x, hx, hplaced⟩
    · exact .same hsame
    · exact .placed g d _ x (by simp) hx hplaced

theorem EntryChange.origin {groups : List WorkloadGroup} {old new : Option WorkPlacement}
    (hc : EntryChange work groups old new) {x' : WorkPlacement} (hx' : new = some x') :
    (∃ x, old = some x ∧ Alike x x' ∧ x'.metadata.deleting = x.metadata.deleting) ∨
      ∃ g ∈ groups, ∃ d mis, PlacedOver work g d mis old x' := by
  cases hc with
  | same hsame =>
    exact Or.inl ⟨x', hsame.symm.trans hx', ⟨rfl, rfl, rfl, rfl, rfl, rfl⟩, rfl⟩
  | gone x hold hdel hnew => exact absurd (hnew.symm.trans hx') (by simp)
  | alike x y hold hnew halike hdel =>
    obtain rfl : y = x' := Option.some.inj (hnew.symm.trans hx')
    exact Or.inl ⟨x, hold, halike, hdel⟩
  | placed g d mis y hg hnew hplaced =>
    obtain rfl : y = x' := Option.some.inj (hnew.symm.trans hx')
    exact Or.inr ⟨g, hg, d, mis, hplaced⟩

/-- The WorkPlacements of the Work have its names, and no others do. -/
structure Tidy (work : Work) (s : World) : Prop where
  reserved : ∀ g d x, s.placement (placementKey work g d) = some x →
    BelongsTo work x ∧ x.metadata.ownerName = work.metadata.name
  regular : ∀ key x, s.placement key = some x → BelongsTo work x →
    ∃ g, key = placementKey work g x.spec.targetDestinationName ∧ groupID x = some g.id ∧
      5 ≤ g.id.length

/-- None of the WorkPlacements of the Work is being deleted. -/
def Live (work : Work) (s : World) : Prop :=
  ∀ key x, s.placement key = some x → BelongsTo work x → x.metadata.deleting = false

/-- A WorkPlacement that is being deleted still has a finalizer, or it would be gone. -/
def Lasting (work : Work) (s : World) : Prop :=
  ∀ key x, s.placement key = some x → BelongsTo work x → x.metadata.deleting = true →
    x.metadata.finalizers ≠ []

theorem Live.lasting (hlive : Live work s) : Lasting work s := fun key x hx hbelongs hdel =>
  absurd (hdel.symm.trans (hlive key x hx hbelongs)) (by simp)

namespace Tidy

theorem unclaimed (hs : Tidy work s) : Unclaimed s work :=
  fun g d x hx _ => (hs.reserved g d x hx).2

theorem of_origin (hs : Tidy work s)
    (horigin : ∀ key x', t.placement key = some x' →
      (∃ x, s.placement key = some x ∧ Alike x x') ∨
        ∃ g d mis, 5 ≤ g.id.length ∧ IsPlacement work g d mis x') : Tidy work t where
  reserved := by
    intro g d x' hx'
    rcases horigin _ x' hx' with ⟨x, hx, halike⟩ | ⟨g', d', mis, -, hplaced⟩
    · obtain ⟨hbelongs, howner⟩ := hs.reserved g d x hx
      exact ⟨halike.belongsTo_iff.mpr hbelongs, halike.ownerName.trans howner⟩
    · exact ⟨hplaced.belongsTo, hplaced.ownerName⟩
  regular := by
    intro key x' hx' hbelongs
    rcases horigin key x' hx' with ⟨x, hx, halike⟩ | ⟨g', d', mis, hlen, hplaced⟩
    · obtain ⟨g, hkey, hgroup, hg⟩ := hs.regular key x hx (halike.belongsTo_iff.mp hbelongs)
      exact ⟨g, by rw [hkey, halike.target], halike.group.trans hgroup, hg⟩
    · refine ⟨g', ?_, hplaced.groupID_eq, hlen⟩
      rw [hplaced.target, ← hplaced.key]
      exact ((t.cluster.find_eq_some.mp hx').2).symm

theorem of_entries {groups : List WorkloadGroup} (hs : Tidy work s)
    (hlen : ∀ g ∈ groups, 5 ≤ g.id.length)
    (hentry : ∀ key, EntryChange work groups (s.placement key) (t.placement key)) :
    Tidy work t := by
  apply hs.of_origin
  intro key x' hx'
  rcases (hentry key).origin hx' with ⟨x, hx, halike, -⟩ | ⟨g, hg, d, mis, hplaced⟩
  · exact Or.inl ⟨x, hx, halike⟩
  · exact Or.inr ⟨g, d, mis, hlen g hg, hplaced.isPlacement⟩

theorem of_deletes {doomed : WorkPlacement → Prop} (hs : Tidy work s) (hd : Deletes doomed s t) :
    Tidy work t := by
  apply hs.of_origin
  intro key x' hx'
  left
  rcases hd.entry key with hsame | ⟨x, hx, -, hnew⟩
  · exact ⟨x', hsame.symm.trans hx', ⟨rfl, rfl, rfl, rfl, rfl, rfl⟩⟩
  · rw [Object.settle_eq_some (hnew.symm.trans hx')]
    exact ⟨x, hx, alike_of_sameContent (SameContent.markDeleting x)⟩

theorem target_of_key (hs : Tidy work s) {g : WorkloadGroup} (hg : 5 ≤ g.id.length) {d : String}
    {x : WorkPlacement} (hx : s.placement (placementKey work g d) = some x) :
    x.spec.targetDestinationName = d ∧
      ∃ id, groupID x = some id ∧ shortID id = shortID g.id := by
  obtain ⟨g', hkey, hgroup, hg'⟩ := hs.regular _ x hx (hs.reserved g d x hx).1
  obtain ⟨hd, hshort⟩ := placementKey_inj_of_length hg hg' hkey
  exact ⟨hd.symm, g'.id, hgroup, hshort.symm⟩

end Tidy

theorem Live.of_entries {groups : List WorkloadGroup} (hs : Tidy work s) (hlive : Live work s)
    (hentry : ∀ key, EntryChange work groups (s.placement key) (t.placement key)) :
    Live work t := by
  intro key x' hx' hbelongs
  rcases (hentry key).origin hx' with ⟨x, hx, halike, hdel⟩ | ⟨g, hg, d, mis, hplaced⟩
  · exact hdel.trans (hlive key x hx (halike.belongsTo_iff.mp hbelongs))
  · have hkey : key = placementKey work g d :=
      ((t.cluster.find_eq_some.mp hx').2).symm.trans hplaced.isPlacement.key
    cases hold : s.placement key with
    | none => exact hplaced.new hold
    | some x =>
      rw [(hplaced.adopts x hold).deleting]
      exact hlive key x hold (hs.reserved g d x (hkey ▸ hold)).1

theorem GroupOutcome.lasting {r : Except Failure SchedulingStatus}
    (hg : GroupOutcome env h work g s r t) (hs : Lasting work s) : Lasting work t := by
  intro key x' hx' hbelongs hdel
  cases hg with
  | failed hsame => exact hs key x' (hsame ▸ hx') hbelongs hdel
  | updates _ _ hupdates =>
    rcases hupdates.entry key with hsame | ⟨x, hx, rfl, hto⟩
    · exact hs key x' (hsame ▸ hx') hbelongs hdel
    · have hold := existingPlacements_mem hx
      rcases hto with hsame | ⟨hnone, -⟩ | ⟨mis, y, hnew, hup⟩
      · exact hs x.key x' (hold.trans (hsame.symm.trans hx')) hbelongs hdel
      · exact absurd (hnone.symm.trans hx') (by simp)
      · obtain rfl : y = x' := Option.some.inj (hnew.symm.trans hx')
        rw [hup.finalizers]
        exact hs x.key x hold (hup.belongsTo_iff.mp hbelongs) (hup.deleting ▸ hdel)
  | places names _ _ _ _ happlies =>
    rcases happlies.entry key with hsame | ⟨d, -, -, x, hx, hplaced⟩
    · exact hs key x' (hsame ▸ hx') hbelongs hdel
    · obtain rfl : x = x' := Option.some.inj (hx.symm.trans hx')
      exact List.ne_nil_of_mem hplaced.isPlacement.finalizer

/-! ### Through a call -/

section

variable {groups : List WorkloadGroup} {b : Bool}

theorem GroupsRun.tidy (hrun : GroupsRun env h work groups s b t)
    (hlen : ∀ g ∈ groups, 5 ≤ g.id.length) (hs : Tidy work s) : Tidy work t := by
  induction hrun with
  | done s => exact hs
  | stop hg _ => exact hs.of_entries (fun g hg => hlen g (by simp_all)) hg.entry
  | next hg _ ih =>
    exact ih (fun g hg => hlen g (by simp_all))
      (hs.of_entries (fun g hg => hlen g (by simp_all)) hg.entry)

theorem GroupsRun.live (hrun : GroupsRun env h work groups s b t)
    (hlen : ∀ g ∈ groups, 5 ≤ g.id.length) (hs : Tidy work s) (hlive : Live work s) :
    Live work t := by
  induction hrun with
  | done s => exact hlive
  | stop hg _ => exact Live.of_entries hs hlive hg.entry
  | next hg _ ih =>
    exact ih (fun g hg => hlen g (by simp_all))
      (hs.of_entries (fun g hg => hlen g (by simp_all)) hg.entry)
      (Live.of_entries hs hlive hg.entry)

end

theorem Tidy.of_samePlacements (hs : Tidy work s) (hsame : SamePlacements s t) : Tidy work t := by
  apply hs.of_origin
  intro key x' hx'
  exact Or.inl ⟨x', (hsame.placement key).symm.trans hx', ⟨rfl, rfl, rfl, rfl, rfl, rfl⟩⟩

theorem exec_reconcileWork_tidy (hh : Refines env h) {r : ScheduleResult} (hs : Tidy work s)
    (hlen : ∀ g ∈ work.spec.workloadGroups, 5 ≤ g.id.length)
    (he : Exec h (reconcileWork env work) s r t) : Tidy work t := by
  obtain ⟨b, u, v, hrun, hsame, hend⟩ := exec_reconcileWork hh he
  have hv := (hrun.tidy hlen hs).of_samePlacements hsame
  rcases hend with ⟨rfl, -⟩ | ⟨-, work', -, -, hclean⟩
  · exact hv
  · exact hv.of_deletes (exec_cleanupDanglingWorkplacements (hclean.mono hh)).1

end Kratix
