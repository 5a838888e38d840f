import Kratix.Scheduling.Soundness
import Kratix.Scheduling.Runs

/-!
# A resource request stays where it was placed

Runs of calls for the Work of a resource request, with faults, between which the
Work and the Destinations change. Each group has at most one WorkPlacement, and
it keeps its target.
-/

namespace Kratix

open Apiserver Effect

variable {env : Externals} {h : Handler signature World} {s t : World} {work : Work}
  {g : WorkloadGroup}

/-- No two WorkPlacements of the Work carry the same group ID. -/
def AtMostOne (work : Work) (s : World) : Prop :=
  ∀ id k₁ x₁ k₂ x₂, Holds s work id k₁ x₁ → Holds s work id k₂ x₂ → k₁ = k₂

theorem exec_getTargetDestinationNames_length {m : Labels} {names : List String}
    (hrequest : work.isResourceRequest = true)
    (he : Exec (faulty env) (getTargetDestinationNames env m work) s names t) :
    names.length ≤ 1 := by
  obtain ⟨ds, u, hdest, hrest⟩ := exec_bind.mp he
  rcases ds with _ | ⟨d, ds⟩
  · rw [hrest.1]
    simp
  · dsimp only at hrest
    rw [if_pos hrequest] at hrest
    obtain ⟨i, w, hi, hret⟩ := exec_bind.mp hrest
    rw [hret.1]
    cases (d :: ds)[i]? <;> simp

section

variable {id : String} {key : String × String} {x y : WorkPlacement}

/-- What is held after a group of a resource request was held before, unless the
group was nowhere and is placed on one of the names. -/
theorem GroupOutcome.holds_origin {r : Except Failure SchedulingStatus}
    (hg : GroupOutcome env h work g s r t) (hrequest : work.isResourceRequest = true) :
    (∀ id key y, Holds t work id key y → ∃ x, Holds s work id key x) ∨
      ∃ names, existingPlacements env s work g = [] ∧
        Exec h (getTargetDestinationNames env (resolveDestinationSelectorsForWorkloadGroup g) work)
          s names s ∧
        ∀ id key y, Holds t work id key y → Holds s work id key y ∨
          id = g.id ∧ ∃ d ∈ names, key = placementKey work g d := by
  cases hg with
  | failed heq => exact Or.inl fun id key y hy => ⟨y, heq ▸ hy⟩
  | updates _ _ hupdates =>
    refine Or.inl fun id key y hy => ?_
    rcases hupdates.entry key with heq | ⟨x, hx, rfl, hto⟩
    · exact ⟨y, heq ▸ hy.stored, hy.belongsTo, hy.groupID_eq⟩
    · have hx' := existingPlacements_mem hx
      rcases hto with heq | ⟨hnone, -⟩ | ⟨mis, x', heq, hup⟩
      · obtain rfl : x = y := Option.some.inj (heq.symm.trans hy.stored)
        exact ⟨x, hx', hy.belongsTo, hy.groupID_eq⟩
      · exact absurd (hnone.symm.trans hy.stored) (by simp)
      · obtain rfl : x' = y := Option.some.inj (heq.symm.trans hy.stored)
        exact ⟨x, hx', hup.belongsTo_iff.mp hy.belongsTo, hup.groupID_eq.symm.trans hy.groupID_eq⟩
  | places names targets hnone hnames htargets happlies =>
    have hempty := hnone hrequest
    refine Or.inr ⟨names, hempty, hnames, fun id key y hy => ?_⟩
    rcases happlies.entry key with heq | ⟨d, hd, hk, x, hx, hover⟩
    · exact Or.inl ⟨heq ▸ hy.stored, hy.belongsTo, hy.groupID_eq⟩
    · obtain rfl : x = y := Option.some.inj (hx.symm.trans hy.stored)
      refine Or.inr ⟨?_, d, ?_, hk⟩
      · exact Option.some.inj (hy.groupID_eq.symm.trans hover.isPlacement.groupID_eq)
      · rw [htargets, hempty] at hd
        simpa using hd

theorem GroupOutcome.atMostOne (hh : Refines env h) {r : Except Failure SchedulingStatus}
    (hg : GroupOutcome env h work g s r t) (hone : AtMostOne work s)
    (hrequest : work.isResourceRequest = true) (hns : work.metadata.ns ≠ "") :
    AtMostOne work t := by
  intro id k₁ x₁ k₂ x₂ h₁ h₂
  rcases hg.holds_origin hrequest with hold | ⟨names, hempty, hnames, hnew⟩
  · obtain ⟨y₁, hy₁⟩ := hold id k₁ x₁ h₁
    obtain ⟨y₂, hy₂⟩ := hold id k₂ x₂ h₂
    exact hone id k₁ y₁ k₂ y₂ hy₁ hy₂
  · have hnowhere : ∀ key x, ¬ Holds s work g.id key x := by
      intro key x hx
      have hmem : x ∈ existingPlacements env s work g := by
        rw [mem_existingPlacements_iff hns hx.valid.1 hx.valid.2, hx.key_eq]
        exact hx
      rw [hempty] at hmem
      cases hmem
    have hlen := exec_getTargetDestinationNames_length hrequest (hnames.mono hh)
    rcases hnew id k₁ x₁ h₁ with hy₁ | ⟨rfl, d₁, hd₁, rfl⟩
    · rcases hnew id k₂ x₂ h₂ with hy₂ | ⟨rfl, -⟩
      · exact hone id k₁ x₁ k₂ x₂ hy₁ hy₂
      · exact absurd hy₁ (hnowhere k₁ x₁)
    · rcases hnew g.id k₂ x₂ h₂ with hy₂ | ⟨-, d₂, hd₂, rfl⟩
      · exact absurd hy₂ (hnowhere k₂ x₂)
      · rcases names with _ | ⟨d, _ | ⟨d', names⟩⟩
        · cases hd₁
        · rw [List.mem_singleton.mp hd₁, List.mem_singleton.mp hd₂]
        · simp at hlen

theorem GroupsRun.atMostOne (hh : Refines env h) {groups : List WorkloadGroup} {b : Bool}
    (hrun : GroupsRun env h work groups s b t) (hone : AtMostOne work s)
    (hrequest : work.isResourceRequest = true) (hns : work.metadata.ns ≠ "") :
    AtMostOne work t := by
  induction hrun with
  | done s => exact hone
  | stop hg _ => exact hg.atMostOne hh hone hrequest hns
  | next hg _ ih => exact ih (hg.atMostOne hh hone hrequest hns)

theorem Deletes.holds_origin {doomed : WorkPlacement → Prop} (hd : Deletes doomed s t)
    (hy : Holds t work id key y) : ∃ x, Holds s work id key x := by
  rcases hd.entry key with heq | ⟨x, hx, -, hnew⟩
  · exact ⟨y, heq ▸ hy.stored, hy.belongsTo, hy.groupID_eq⟩
  · obtain rfl := Object.settle_eq_some (hnew.symm.trans hy.stored)
    exact ⟨x, hx, hy.belongsTo, hy.groupID_eq⟩

theorem exec_reconcileWork_atMostOne {r : ScheduleResult} (hone : AtMostOne work s)
    (hrequest : work.isResourceRequest = true) (hns : work.metadata.ns ≠ "")
    (he : Exec (faulty env) (reconcileWork env work) s r t) : AtMostOne work t := by
  have hh : Refines env (faulty env) := fun _ _ _ _ hc => hc
  obtain ⟨b, u, v, hrun, hsame, hend⟩ := exec_reconcileWork hh he
  have hu := hrun.atMostOne hh hone hrequest hns
  have horigin : ∀ id key y, Holds t work id key y → ∃ x, Holds v work id key x := by
    intro id key y hy
    rcases hend with ⟨rfl, -⟩ | ⟨-, work', -, -, hclean⟩
    · exact ⟨y, hy⟩
    · exact (exec_cleanupDanglingWorkplacements hclean).1.holds_origin hy
  intro id k₁ x₁ k₂ x₂ h₁ h₂
  obtain ⟨y₁, hy₁⟩ := horigin id k₁ x₁ h₁
  obtain ⟨y₂, hy₂⟩ := horigin id k₂ x₂ h₂
  exact hu id k₁ y₁ k₂ y₂ (hsame.holds_iff.mp hy₁) (hsame.holds_iff.mp hy₂)

/-- A WorkPlacement that is not being deleted stays, on the same Destination. -/
theorem EntryChange.kept {groups : List WorkloadGroup} (hs : Tidy work s) (hlive : Live work s)
    (hlen : ∀ g ∈ groups, 5 ≤ g.id.length)
    (hc : EntryChange work groups (s.placement key) (t.placement key))
    (hx : s.placement key = some x) (hbelongs : BelongsTo work x) :
    ∃ y, t.placement key = some y ∧ BelongsTo work y ∧
      y.spec.targetDestinationName = x.spec.targetDestinationName := by
  cases hc with
  | same hsame => exact ⟨x, hsame.trans hx, hbelongs, rfl⟩
  | gone z hold hdel =>
    obtain rfl : z = x := Option.some.inj (hold.symm.trans hx)
    exact absurd (hlive key z hx hbelongs) (by simp [hdel])
  | alike z y hold hnew halike =>
    obtain rfl : z = x := Option.some.inj (hold.symm.trans hx)
    exact ⟨y, hnew, halike.belongsTo_iff.mpr hbelongs, halike.target⟩
  | placed g d mis y hg hnew hplaced =>
    have hkey : key = placementKey work g d :=
      ((t.cluster.find_eq_some.mp hnew).2).symm.trans hplaced.isPlacement.key
    refine ⟨y, hnew, hplaced.isPlacement.belongsTo, ?_⟩
    rw [hplaced.isPlacement.target, (hs.target_of_key (hlen g hg) (hkey ▸ hx)).1]

theorem GroupsRun.kept {groups : List WorkloadGroup} {b : Bool}
    (hrun : GroupsRun env h work groups s b t) (hlen : ∀ g ∈ groups, 5 ≤ g.id.length)
    (hs : Tidy work s) (hlive : Live work s) (hx : s.placement key = some x)
    (hbelongs : BelongsTo work x) :
    ∃ y, t.placement key = some y ∧ BelongsTo work y ∧
      y.spec.targetDestinationName = x.spec.targetDestinationName := by
  induction hrun generalizing x with
  | done s => exact ⟨x, hx, hbelongs, rfl⟩
  | stop hg _ => exact (hg.entry key).kept hs hlive (fun g hg => hlen g (by simp_all)) hx hbelongs
  | @next g₀ groups s u t b st hg _ ih =>
    have hlen' : ∀ g' ∈ [g₀], 5 ≤ g'.id.length := fun g hg => hlen g (by simp_all)
    obtain ⟨y, hy, hb, htarget⟩ := (hg.entry key).kept hs hlive hlen' hx hbelongs
    obtain ⟨z, hz, hb', htarget'⟩ := ih (fun g hg => hlen g (by simp [hg]))
      (hs.of_entries hlen' hg.entry) (Live.of_entries hs hlive hg.entry) hy hb
    exact ⟨z, hz, hb', htarget'.trans htarget⟩

end

/-! ### One call -/

/-- What a call leaves of the WorkPlacements it finds, and where new ones go. -/
structure StaysPlaced (work : Work) (s t : World) : Prop where
  target : ∀ id key x y, Holds s work id key x → t.placement key = some y →
    y.spec.targetDestinationName = x.spec.targetDestinationName
  created : ∀ id key y, Holds t work id key y → (∃ x, Holds s work id key x) ∨
    ∃ g ∈ work.spec.workloadGroups, g.id = id ∧ ∃ dest ∈ s.cluster.objects .destination,
      dest.metadata.name = y.spec.targetDestinationName ∧
        Selects (resolveDestinationSelectorsForWorkloadGroup g) dest

/-- The WorkPlacements hold the workloads of the groups, and only of them. -/
structure UpToDate (work : Work) (t : World) : Prop where
  current : ∀ g ∈ work.spec.workloadGroups, ∀ key x, Holds t work g.id key x →
    x.spec.workloads = g.workloads
  swept : ∀ id key x, Holds t work id key x → x.metadata.deleting = false →
    ∃ g ∈ work.spec.workloadGroups, g.id = id

/-- The IDs may be used as label values, and the selectors can be read. -/
def ReadableGroups (env : Externals) (work : Work) : Prop :=
  ∀ g ∈ work.spec.workloadGroups, isValidLabelValue g.id = true ∧
    Readable env (resolveDestinationSelectorsForWorkloadGroup g)

theorem exec_reconcileWork_staysPlaced {r : ScheduleResult} (hc : Callable work s)
    (hlive : Live work s) (hread : ReadableGroups env work) (he : Exec (faulty env) (reconcileWork env work) s r t) :
    StaysPlaced work s t where
  target := by
    intro id key x y hx hy
    have hh : Refines env (faulty env) := fun _ _ _ _ hc => hc
    obtain ⟨b, u, v, hrun, hsame, hend⟩ := exec_reconcileWork hh he
    obtain ⟨z, hz, -, htarget⟩ :=
      hrun.kept hc.prefixes.length hc.tidy hlive hx.stored hx.belongsTo
    have hv : v.placement key = some z := (hsame.placement key).trans hz
    rcases hend with ⟨rfl, -⟩ | ⟨-, work', -, -, hclean⟩
    · rw [Option.some.inj (hy.symm.trans hv), htarget]
    · rcases (exec_cleanupDanglingWorkplacements hclean).1.entry key with
        heq | ⟨z', hz', -, hnew⟩
      · rw [Option.some.inj (hy.symm.trans (heq.trans hv)), htarget]
      · rw [Object.settle_eq_some (hnew.symm.trans hy), ← htarget,
          ← Option.some.inj (hz'.symm.trans hv)]
        rfl
  created := by
    intro id key y hy
    have ht := exec_reconcileWork_tidy (fun _ _ _ _ hc => hc) hc.tidy hc.prefixes.length he
    rcases exec_reconcileWork_scheduledTo hc.ns (fun g hg => (hread g hg).2) he
      ⟨key, y, hy, rfl⟩ with ⟨key', x, hx, htarget⟩ | hnew
    · left
      -- the ID and the Destination determine the name
      obtain ⟨g, hkey, hgroup, -⟩ := ht.regular key y hy.stored hy.belongsTo
      obtain rfl : g.id = id := Option.some.inj (hgroup.symm.trans hy.groupID_eq)
      rw [hkey, ← htarget, ← hc.tidy.key_of_holds hx]
      exact ⟨x, hx⟩
    · exact Or.inr hnew

theorem exec_reconcileWork_upToDate {r : ScheduleResult} (hc : Callable work s)
    (hrequest : work.isResourceRequest = true) (hread : ReadableGroups env work)
    (he : Exec (unfailing env) (reconcileWork env work) s r t) : UpToDate work t := by
  -- without a valid name nothing can be stored for the Work
  have hlist : ∀ id key x, Holds t work id key x → ∀ g ∈ work.spec.workloadGroups,
      Listable work g := fun id key x hx g hg _ => ⟨hx.valid.1, (hread g hg).1⟩
  constructor
  · intro g hg key x hx
    obtain ⟨u, v, hrun, hsame, hdel, -⟩ := exec_reconcileWork_unfailing hc (hlist _ _ _ hx) he
    obtain ⟨s', st, t', hpart⟩ :=
      hrun.part rfl hc.tidy hc.ns (hlist _ _ _ hx) hc.prefixes hg
    exact (hpart.resourceRequest hc.ns hrequest (hlist _ _ _ hx g hg)).1 key x
      (hsame.holds_iff.mp ((hdel.holds_iff hc.ns hg).mp hx))
  · intro id key x hx hlive
    obtain ⟨u, v, -, -, hdel, hall⟩ := exec_reconcileWork_unfailing hc (hlist _ _ _ hx) he
    refine hdel.swept hall hc.ns hx hlive fun hv hne g hg => ?_
    exact not_mem_existingPlacements hc.ns (hread g hg).1 hv (hne g hg)

/-! ### Runs -/

theorem AtMostOne.congr {work' : Work} (hkey : work'.key = work.key) (hs : AtMostOne work s) :
    AtMostOne work' s :=
  fun id k₁ x₁ k₂ x₂ h₁ h₂ =>
    hs id k₁ x₁ k₂ x₂ (h₁.congr hkey.symm) (h₂.congr hkey.symm)

/-- The scheduler is called with the stored version of the Work of a resource
request, when none of its WorkPlacements is being deleted. -/
structure RequestCall (work : Work) (s : World) : Prop where
  ns : work.metadata.ns ≠ ""
  stored : work ∈ s.cluster.objects .work
  request : work.isResourceRequest = true
  prefixes : DistinctPrefixes work.spec.workloadGroups
  live : Live work s

theorem RequestCall.callable (hc : RequestCall work s) (hs : Tidy work s) : Callable work s :=
  ⟨hc.ns, hc.stored, hc.prefixes, hs, hc.live.lasting⟩

/-- Runs of such calls in which the groups are readable. -/
def RequestRun (env : Externals) (origin : Work) (s : World) : Prop :=
  CallRun env (fun work s => RequestCall work s ∧ ReadableGroups env work) origin s

theorem RequestRun.tidy {origin : Work} (hs : RequestRun env origin s) : Tidy origin s :=
  CallRun.tidy (fun _ _ hguard => hguard.1.prefixes.length) hs

theorem RequestRun.atMostOne {origin : Work} (hs : RequestRun env origin s) :
    AtMostOne origin s := by
  induction hs with
  | start hs => exact fun id k₁ x₁ k₂ x₂ h₁ _ => absurd h₁.belongsTo (hs _ _ h₁.stored).1
  | call _ hkey hguard he ih =>
    exact AtMostOne.congr hkey.symm (exec_reconcileWork_atMostOne (ih.congr hkey)
      hguard.1.request hguard.1.ns he)
  | other _ halike ih =>
    intro id k₁ x₁ k₂ x₂ h₁ h₂
    obtain ⟨y₁, hy₁⟩ := halike.holds_origin h₁
    obtain ⟨y₂, hy₂⟩ := halike.holds_origin h₂
    exact ih id k₁ y₁ k₂ y₂ hy₁ hy₂

/-! ### Resource requests with one Destination -/

/-- A resource request with a group for each ID, whose workload is named after it. -/
def requestOf (ids : List String) : Work :=
  ⟨{ ns := "default", name := "work" },
    { workloadGroups := ids.map fun id => ⟨[⟨[id], []⟩], [], id, []⟩,
      promiseName := "promise", resourceName := "request" }, {}⟩

theorem valid_requestOf (ids : List String) : (requestOf ids).metadata.labels.Valid :=
  fun e he => by cases he

/-- The resource request, and a Destination without labels. -/
def worldRequesting (ids : List String) : World :=
  worldWith (requestOf ids) (destinationLabelled ∅) (valid_requestOf ids) Labels.valid_empty

theorem placement_worldRequesting (ids : List String) (key : String × String) :
    (worldRequesting ids).placement key = none :=
  placement_worldWith key

theorem unplaced_worldRequesting (ids : List String) :
    Unplaced (requestOf ids) (worldRequesting ids) := fun key x hx => by
  rw [placement_worldRequesting] at hx
  cases hx

theorem requestCall_worldRequesting {ids : List String} (hlen : ∀ id ∈ ids, 5 ≤ id.length)
    (hnodup : (ids.map shortID).Nodup) :
    RequestCall (requestOf ids) (worldRequesting ids) where
  ns := show "default" ≠ "" by decide
  stored := List.mem_singleton.mpr rfl
  request := rfl
  prefixes := by
    constructor
    · intro g hg
      obtain ⟨id, hid, rfl⟩ := List.mem_map.mp hg
      exact hlen id hid
    · simpa [requestOf, Function.comp_def] using hnodup
  live := fun key x hx => by
    rw [placement_worldRequesting] at hx
    cases hx

/-- The second ID holds a blank, so the first group ends with its workloads. -/
theorem unreadable_id_overwrites :
    ∃ (s t : World) (r : ScheduleResult),
      RequestCall (requestOf ["first", "second group"]) s ∧
      Unplaced (requestOf ["first", "second group"]) s ∧
      Exec (unfailing plainExternals)
        (reconcileWork plainExternals (requestOf ["first", "second group"])) s r t ∧
      ¬ UpToDate (requestOf ["first", "second group"]) t := by
  have heval : (eval (serveAnswered plainExternals) (do
      let _ ← reconcileWork plainExternals (requestOf ["first", "second group"])
      getObject .workPlacement "default" "work.destination-first")
      (worldRequesting ["first", "second group"])).any (fun out => match out.1 with
        | .ok x => decide (x.metadata.ns = "default" ∧
            x.metadata.labels.lookup Label.work = some "work" ∧
            x.metadata.labels.lookup Label.workloadGroupID = some "first" ∧
            x.spec.workloads = [⟨["second group"], []⟩])
        | .error _ => false) = true := by
    decide +kernel
  obtain ⟨a, t, he, ha⟩ :=
    exists_exec_of_eval (h := unfailing plainExternals) unfailing_of_serveAnswered heval
  obtain ⟨r, u, hcall, hget⟩ := exec_bind.mp he
  obtain ⟨rfl, hfound, -⟩ := exec_getObject (hget.mono faulty_of_unfailing)
  refine ⟨_, t, r, requestCall_worldRequesting (by decide) (by decide),
    unplaced_worldRequesting _, hcall, fun hup => ?_⟩
  cases a with
  | error e => cases ha
  | ok x =>
    obtain ⟨hns, hwork, hgroup, hloads⟩ := of_decide_eq_true ha
    have hcurrent := hup.current ⟨[⟨["first"], []⟩], [], "first", []⟩ (by simp [requestOf]) _ x
      ⟨hfound x rfl, ⟨hns, hwork⟩, hgroup⟩
    rw [hloads] at hcurrent
    exact absurd hcurrent (by decide)

/-- Each group of a resource request has at most one WorkPlacement, which stays
on its Destination; a call without faults brings it up to date. -/
theorem request_stays_placed (env : Externals) {origin : Work} {s : World}
    (hs : RequestRun env origin s) :
    AtMostOne origin s ∧ ∀ (work : Work) (r : ScheduleResult) (t : World),
      work.key = origin.key → RequestCall work s → ReadableGroups env work →
      (Exec (faulty env) (reconcileWork env work) s r t →
        AtMostOne work t ∧ StaysPlaced work s t) ∧
      (Exec (unfailing env) (reconcileWork env work) s r t → UpToDate work t) := by
  refine ⟨hs.atMostOne, fun work r t hkey hc hread => ?_⟩
  have hcall := hc.callable (hs.tidy.congr hkey)
  refine ⟨fun he => ⟨?_, ?_⟩, fun he => ?_⟩
  · exact exec_reconcileWork_atMostOne (hs.atMostOne.congr hkey) hc.request hc.ns he
  · exact exec_reconcileWork_staysPlaced hcall hc.live hread he
  · exact exec_reconcileWork_upToDate hcall hc.request hread he

/-- A resource request of one group is placed. -/
theorem exec_reconcileWork_requestOf :
    ∃ (t : World) (r : ScheduleResult),
      Exec (unfailing plainExternals) (reconcileWork plainExternals (requestOf ["group"]))
        (worldRequesting ["group"]) r t ∧
      ∃ key x, Holds t (requestOf ["group"]) "group" key x := by
  have heval : (eval (serveAnswered plainExternals) (do
      let _ ← reconcileWork plainExternals (requestOf ["group"])
      getObject .workPlacement "default" "work.destination-group")
      (worldRequesting ["group"])).any (fun out => match out.1 with
        | .ok x => decide (x.metadata.ns = "default" ∧
            x.metadata.labels.lookup Label.work = some "work" ∧
            x.metadata.labels.lookup Label.workloadGroupID = some "group")
        | .error _ => false) = true := by
    decide +kernel
  obtain ⟨a, t, he, ha⟩ :=
    exists_exec_of_eval (h := unfailing plainExternals) unfailing_of_serveAnswered heval
  obtain ⟨r, u, hcall, hget⟩ := exec_bind.mp he
  obtain ⟨rfl, hfound, -⟩ := exec_getObject (hget.mono faulty_of_unfailing)
  cases a with
  | error e => cases ha
  | ok x =>
    obtain ⟨hns, hwork, hgroup⟩ := of_decide_eq_true ha
    exact ⟨t, r, hcall, _, x, hfound x rfl, ⟨hns, hwork⟩, hgroup⟩

/-- A resource request of one group that is placed and stays. -/
theorem request_stays_placed_sample :
    ∃ (s t : World) (r : ScheduleResult), RequestRun plainExternals (requestOf ["group"]) s ∧
      Exec (unfailing plainExternals) (reconcileWork plainExternals (requestOf ["group"])) s r t ∧
      (∃ key x, Holds t (requestOf ["group"]) "group" key x) ∧
      AtMostOne (requestOf ["group"]) t ∧ StaysPlaced (requestOf ["group"]) s t ∧
      UpToDate (requestOf ["group"]) t := by
  obtain ⟨t, r, hcall, hplaced⟩ := exec_reconcileWork_requestOf
  have hread : ReadableGroups plainExternals (requestOf ["group"]) := by
    intro g hg
    rw [List.mem_singleton.mp hg]
    exact ⟨by decide, Or.inl (by decide +kernel)⟩
  have hs : RequestRun plainExternals (requestOf ["group"]) (worldRequesting ["group"]) :=
    .start (unplaced_worldRequesting _)
  obtain ⟨hfaulty, hunfailing⟩ := (request_stays_placed plainExternals hs).2 _ r t
    rfl (requestCall_worldRequesting (by decide) (by decide)) hread
  obtain ⟨hone, hstays⟩ := hfaulty (hcall.mono faulty_of_unfailing)
  exact ⟨_, t, r, hs, hcall, hplaced, hone, hstays, hunfailing hcall⟩

end Kratix
