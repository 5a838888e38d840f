import Kratix.Controllers.Quiescence
import Kratix.Scheduling.History

/-!
# Failing requests while a Work is scheduled

Requests of some classes may fail while the Work controller reconciles, all
others are answered. What a failing request does depends on its class: one that
places a group is not reported if the status of the Work can still be written, and
a failed list of Destinations passes for an empty one.
-/

namespace Kratix

open Apiserver Effect

/-- The classes of requests that a reconcile of a Work makes. -/
inductive Request
  | listDestinations
  | listWorkPlacements
  | getWorkPlacement
  | createWorkPlacement
  | updateWorkPlacement
  | updateWorkPlacementStatus
  /-- For the Work itself, and the deletion of WorkPlacements. -/
  | other
  deriving DecidableEq, Repr

def Call.request : Call → Request
  | .api (.list .destination _ _) => .listDestinations
  | .api (.list .workPlacement _ _) => .listWorkPlacements
  | .api (.get .workPlacement _ _) => .getWorkPlacement
  | .api (.create .workPlacement _) => .createWorkPlacement
  | .api (.update .workPlacement _) => .updateWorkPlacement
  | .api (.updateStatus .workPlacement _) => .updateWorkPlacementStatus
  | _ => .other

/-- Any fault may befall the requests of these classes, and only them. -/
def failingIn (env : Externals) (may : Request → Prop) : Handler signature World :=
  fun call s r t => faulty env call s r t ∧ (¬ may call.request → call.Answered r)

variable {env : Externals} {may : Request → Prop} {s t u v : World} {work : Work}
  {g : WorkloadGroup} {ns name : String}

theorem refines_failingIn : Refines env (failingIn env may) := fun _ _ _ _ hc => hc.1

theorem unfailing_of_answered {call : ApiCall scheme} {r : Except ApiError call.Result}
    (hc : faulty env (.api call) s r t) (hanswered : Call.Answered (.api call) r) :
    unfailing env (.api call) s r t := by
  refine ⟨?_, hanswered⟩
  obtain ⟨c, ⟨hr, rfl⟩ | ⟨e, hfault, rfl, -⟩, rfl⟩ := hc
  · exact Prod.ext hr rfl
  · cases call with
    | get k ns name =>
      rw [hanswered e rfl] at hfault
      cases hfault
    | _ =>
      obtain ⟨x, hx⟩ := hanswered
      cases hx

/-- The calls that place a group. -/
def Call.Places (call : Call) : Prop :=
  (call.request ≠ .other ∧ ∃ request, call = .api request) ∨ (∃ n, call = .randIntn n) ∨
    ∃ keys, call = .mapOrder keys

theorem placing_places : Placing Call.Places where
  destinations := fun _ _ => Or.inl ⟨by simp [Call.request], _, rfl⟩
  placements := fun _ _ => Or.inl ⟨by simp [Call.request], _, rfl⟩
  get := fun _ _ => Or.inl ⟨by simp [Call.request], _, rfl⟩
  create := fun _ => Or.inl ⟨by simp [Call.request], _, rfl⟩
  update := fun _ => Or.inl ⟨by simp [Call.request], _, rfl⟩
  status := fun _ => Or.inl ⟨by simp [Call.request], _, rfl⟩
  random := fun n => Or.inr (Or.inl ⟨n, rfl⟩)
  order := fun keys => Or.inr (Or.inr ⟨keys, rfl⟩)

section

variable (hmay : ∀ q, may q → q = .other)
include hmay

theorem unfailing_of_places {call : Call} {r : call.Answer} (hcall : call.Places)
    (hc : failingIn env may call s r t) : unfailing env call s r t := by
  rcases hcall with ⟨hrequest, request, rfl⟩ | ⟨n, rfl⟩ | ⟨keys, rfl⟩
  · exact unfailing_of_answered hc.1 (hc.2 fun hm => hrequest (hmay _ hm))
  · exact ⟨hc.1, trivial⟩
  · exact ⟨hc.1, trivial⟩

/-- Where the requests that place groups are answered, all groups are settled in the
end, whatever else fails. -/
theorem exec_reconcileWork_groups {r : ScheduleResult} (hc : Callable work s)
    (hname : isValidLabelValue work.metadata.name = true)
    (hid : ∀ g ∈ work.spec.workloadGroups, isValidLabelValue g.id = true)
    (he : Exec (failingIn env may) (reconcileWork env work) s r t) :
    ∀ g ∈ work.spec.workloadGroups, GroupSettled env work g s t := by
  obtain ⟨a, u, v, hgroups, hsame, hend⟩ := exec_reconcileWork_parts refines_failingIn he
  have hgroups' := (calls_reconcileWorkloadGroups placing_places work work.spec.workloadGroups []
    []).exec_mono (fun c s r t => unfailing_of_places hmay) hgroups
  have hsettled := (exec_reconcileWorkloadGroups_settled hc.ns hname hid hc.prefixes hc.tidy
    hc.lasting hgroups').1
  intro g hg
  refine (hsettled g hg).congr rfl (fun key x => ?_) fun _ _ => Iff.rfl
  rcases hend with ⟨rfl, -⟩ | ⟨-, work', hkey, hspec, hclean⟩
  · exact hsame.holds_iff
  · have hdangling : Dangling env v work' = Dangling env v work := by
      funext x
      unfold Dangling existingPlacements
      rw [hspec hc.stored, show work'.metadata.ns = work.metadata.ns from congrArg Prod.fst hkey,
        show work'.metadata.name = work.metadata.name from congrArg Prod.snd hkey]
    have hdel := (exec_cleanupDanglingWorkplacements (hclean.mono refines_failingIn)).1
    rw [hdangling] at hdel
    exact (hdel.holds_iff hc.ns hg).trans hsame.holds_iff

end

namespace WorkController

/-! ### Whole reconciles -/

theorem obeys_reportScheduling (result : ScheduleResult) :
    Obeys (sparing .workPlacement) (reportScheduling env result) := by
  unfold reportScheduling
  split
  · exact obeys_pure _
  · exact obeys_pure _
  · split
    · exact obeys_pure _
    · refine obeys_bind (obeys_listWorkplacementWithLabels _ _) ?_
      rintro (e | wps)
      · exact obeys_pure _
      · dsimp only
        split
        · exact obeys_pure _
        · split
          · exact obeys_pure _
          · exact obeys_bind (obeys_updateStatus (show Kind.work ≠ .workPlacement by decide) _)
              fun _ => obeys_pure _

/-- The Work is scheduled as it is stored: the controller has its finalizer on it,
and its name, IDs and selectors can be labels. -/
structure Placeable (work : Work) (s : World) : Prop extends Settling work s where
  selectors : ∀ g ∈ work.spec.workloadGroups, (resolveDestinationSelectorsForWorkloadGroup g).Valid

/-- Each group that selects a Destination is placed with its workloads. -/
def AllPlaced (work : Work) (s t : World) : Prop :=
  ∀ g ∈ work.spec.workloadGroups, (selectedNames g s).Nonempty →
    ∃ key x, Holds t work g.id key x ∧ x.spec.workloads = g.workloads

/-- A WorkPlacement whose Destination is selected is said to be misplaced, and was not
before. -/
def NewlyMisplaced (work : Work) (s t : World) : Prop :=
  ∃ g ∈ work.spec.workloadGroups, ∃ key x, Holds t work g.id key x ∧
    x.spec.targetDestinationName ∈ selectedNames g s ∧
    (isMarkedMisplaced x ∧ ¬ (∃ y, Holds s work g.id key y ∧ isMarkedMisplaced y) ∨
      ScheduleFailed x ∧ ¬ ∃ y, Holds s work g.id key y ∧ ScheduleFailed y)

theorem exec_reconcile_groups {r : ReconcileResult} (hmay : ∀ q, may q → q = .other)
    (hf : s.cluster.find .work (ns, name) = some work) (hlive : work.metadata.deleting = false)
    (hq : Settling work s) (he : Exec (failingIn env may) (reconcile env ns name) s r t) :
    (r ≠ {} ∧ t = s) ∨ ∀ g ∈ work.spec.workloadGroups, GroupSettled env work g s t := by
  obtain ⟨a, u, hget, hrest⟩ := exec_bind.mp he
  obtain ⟨rfl, hfound, hmissing⟩ := exec_getObject (hget.mono refines_failingIn)
  rcases a with (_ | _ | _ | _ | _) | stored
  case error.notFound =>
    rw [hmissing rfl] at hf
    cases hf
  case ok =>
    obtain rfl : work = stored := Option.some.inj (hf.symm.trans (hfound stored rfl))
    dsimp only at hrest
    rw [if_neg (by simp [hlive]), if_neg (by simp [hq.finalizer])] at hrest
    obtain ⟨result, v, hcall, hreport⟩ := exec_bind.mp hrest
    have hsettled := exec_reconcileWork_groups hmay hq.callable hq.name hq.ids hcall
    have hsame : t.cluster.objects .workPlacement = v.cluster.objects .workPlacement :=
      exec_spared (obeys_reportScheduling result) (hreport.mono refines_failingIn)
    refine Or.inr fun g hg => (hsettled g hg).congr rfl (fun key x => ?_) fun _ _ => Iff.rfl
    have hplacement : t.placement key = v.placement key := by
      unfold World.placement Cluster.find
      rw [hsame]
    exact ⟨fun hx => ⟨hplacement ▸ hx.stored, hx.belongsTo, hx.groupID_eq⟩,
      fun hx => ⟨hplacement ▸ hx.stored, hx.belongsTo, hx.groupID_eq⟩⟩
  all_goals
    obtain ⟨rfl, rfl⟩ := hrest
    exact Or.inl ⟨by simp, rfl⟩

/-- A WorkPlacement is as it was, or its deletion has begun. -/
def OnlyDeletes (s t : World) : Prop :=
  ∀ key x, t.placement key = some x →
    ∃ y, s.placement key = some y ∧ (x = y ∨ x = y.markDeleting)

theorem OnlyDeletes.trans (hst : OnlyDeletes s t) (htu : OnlyDeletes t u) : OnlyDeletes s u := by
  intro key x hx
  obtain ⟨y, hy, hxy⟩ := htu key x hx
  obtain ⟨z, hz, hyz⟩ := hst key y hy
  refine ⟨z, hz, ?_⟩
  rcases hyz with rfl | rfl
  · exact hxy
  · exact Or.inr (hxy.elim id id)

theorem exec_deleteObject_onlyDeletes {ns name : String} {a : Except ApiError Unit}
    (he : Exec (faulty env) (deleteObject .workPlacement ns name) s a t) : OnlyDeletes s t := by
  rcases exec_deleteObject he with ⟨rfl, -⟩ | ⟨stored, c, hf, hrep, rfl, -⟩
  · exact fun key x hx => ⟨x, hx, Or.inl rfl⟩
  · intro key x hx
    by_cases hkey : key = stored.key
    · subst hkey
      have hnew := Object.settle_eq_some (hrep.find_self.symm.trans hx)
      exact ⟨stored, Cluster.find_key hrep.stored_mem, Or.inr hnew⟩
    · exact ⟨x, (hrep.find_of_ne hkey).symm.trans hx, Or.inl rfl⟩

theorem exec_deleteListed_onlyDeletes {l : List WorkPlacement} {a : Except Failure Unit}
    (he : Exec (faulty env) (deleteListed .workPlacement l) s a t) : OnlyDeletes s t := by
  induction l generalizing s with
  | nil =>
    obtain ⟨-, rfl⟩ := he
    exact fun key x hx => ⟨x, hx, Or.inl rfl⟩
  | cons x l ih =>
    obtain ⟨b, u, hdelete, hrest⟩ := exec_bind.mp he
    have hfirst := exec_deleteObject_onlyDeletes hdelete
    rcases b with (_ | _ | _ | _ | _) | _
    case error.notFound => exact hfirst.trans (ih hrest)
    case ok => exact hfirst.trans (ih hrest)
    all_goals
      obtain ⟨-, rfl⟩ := hrest
      exact hfirst

theorem exec_deleteWork_onlyDeletes {r : ReconcileResult}
    (he : Exec (faulty env) (deleteWork work) s r t) : OnlyDeletes s t := by
  have hrefl (s : World) : OnlyDeletes s s := fun key x hx => ⟨x, hx, Or.inl rfl⟩
  obtain ⟨a, u, hdelete, hrest⟩ := exec_bind.mp he
  have hdeleted : OnlyDeletes s u := by
    obtain ⟨b, v, hlist, hdelete'⟩ := exec_bind.mp hdelete
    obtain ⟨rfl, -⟩ := exec_listObjects hlist
    cases b with
    | error e =>
      obtain ⟨-, rfl⟩ := hdelete'
      exact hrefl _
    | ok l =>
      obtain ⟨c, w, hloop, hret⟩ := exec_bind.mp hdelete'
      have hu : u = w := by cases c <;> exact hret.2
      exact hu ▸ exec_deleteListed_onlyDeletes hloop
  cases a with
  | error e =>
    obtain ⟨-, rfl⟩ := hrest
    exact hdeleted
  | ok remaining =>
    dsimp only at hrest
    split at hrest
    · obtain ⟨-, rfl⟩ := hrest
      exact hdeleted
    · obtain ⟨b, v, hupdate, hret⟩ := exec_bind.mp hrest
      obtain rfl : t = v := hret.2
      refine hdeleted.trans fun key x hx => ⟨x, ?_, Or.inl rfl⟩
      have hsame : t.cluster.objects .workPlacement = u.cluster.objects .workPlacement :=
        exec_spared (obeys_updateObject (show Kind.work ≠ .workPlacement by decide)) hupdate
      rw [← hx]
      unfold World.placement Cluster.find
      rw [hsame]

theorem OnlyDeletes.harmless (hst : OnlyDeletes s t) : ¬ NewlyMisplaced work s t := by
  rintro ⟨g, hg, key, x, hx, -, hnew⟩
  obtain ⟨y, hy, hxy⟩ := hst key x hx.stored
  rcases hxy with rfl | rfl
  · have hold : Holds s work g.id key x := ⟨hy, hx.belongsTo, hx.groupID_eq⟩
    rcases hnew with ⟨hm, hnone⟩ | ⟨hm, hnone⟩ <;> exact hnone ⟨x, hold, hm⟩
  · have hold : Holds s work g.id key y := ⟨hy, hx.belongsTo, hx.groupID_eq⟩
    rcases hnew with ⟨hm, hnone⟩ | ⟨hm, hnone⟩ <;> exact hnone ⟨y, hold, hm⟩

/-- Requests for the Work itself, and deletions, may fail without harm. -/
theorem exec_reconcile_harmless {r : ReconcileResult} (hmay : ∀ q, may q → q = .other)
    (hf : s.cluster.find .work (ns, name) = some work)
    (hq : work.metadata.deleting = false → Placeable work s)
    (he : Exec (failingIn env may) (reconcile env ns name) s r t) :
    (r = {} → AllPlaced work s t) ∧ ¬ NewlyMisplaced work s t := by
  cases hlive : work.metadata.deleting with
  | true =>
    obtain ⟨a, u, hget, hrest⟩ := exec_bind.mp he
    obtain ⟨rfl, hfound, hmissing⟩ := exec_getObject (hget.mono refines_failingIn)
    rcases a with (_ | _ | _ | _ | _) | stored
    case error.notFound =>
      rw [hmissing rfl] at hf
      cases hf
    case ok =>
      obtain rfl : work = stored := Option.some.inj (hf.symm.trans (hfound stored rfl))
      dsimp only at hrest
      rw [if_pos hlive] at hrest
      refine ⟨fun hr => ?_, (exec_deleteWork_onlyDeletes (hrest.mono refines_failingIn)).harmless⟩
      rw [hr] at hrest
      cases deleteWork_requeues hrest
    all_goals
      obtain ⟨rfl, rfl⟩ := hrest
      exact ⟨fun hr => by simp at hr, OnlyDeletes.harmless fun key x hx => ⟨x, hx, Or.inl rfl⟩⟩
  | false =>
    obtain ⟨hsettling, hselectors⟩ := hq hlive
    rcases exec_reconcile_groups hmay hf hlive hsettling he with ⟨hr, rfl⟩ | hsettled
    · exact ⟨fun hr' => absurd hr' hr, OnlyDeletes.harmless fun key x hx => ⟨x, hx, Or.inl rfl⟩⟩
    · constructor
      · rintro - g hg ⟨d, dest, hdest, hselects, -⟩
        obtain ⟨key, x, hx⟩ := (hsettled g hg).placed (List.ne_nil_of_mem
          ((mem_chosenDestinations_of_valid (hselectors g hg)).mpr ⟨hdest, hselects⟩))
        exact ⟨key, x, hx, (hsettled g hg).workloads key x hx⟩
      · rintro ⟨g, hg, key, x, hx, ⟨dest, hdest, hselects, hname⟩, hnew⟩
        have hmis : isMisplaced env g s x = false := isMisplaced_eq_false.mpr
          ⟨dest, (mem_chosenDestinations_of_valid (hselectors g hg)).mpr ⟨hdest, hselects⟩, hname⟩
        rcases hnew with ⟨hm, hnone⟩ | ⟨hm, -⟩
        · rcases ((hsettled g hg).marked key x hx).mp hm with hm' | ⟨-, hold⟩
          · rw [hmis] at hm'
            cases hm'
          · exact hnone hold
        · have hreports := ((hsettled g hg).told key x hx).reports
          rw [hreports.scheduleFailed_iff, hmis] at hm
          cases hm

/-! ### Each other class does harm -/

/-- A dependency with two groups that the controller has its finalizer on. -/
def pairWork : Work :=
  ⟨{ ns := "default", name := "work", finalizers := [Finalizer.workCleanup] },
    { workloadGroups := [⟨[⟨["first"], []⟩], [], "first", []⟩, ⟨[⟨["second"], []⟩], [], "second", []⟩],
      promiseName := "promise" }, {}⟩

/-- The WorkPlacement of its first group, from when that had no workloads. -/
def stalePlacement : WorkPlacement :=
  ⟨{ ns := "default", name := "work.destination-first",
      labels := .ofList [(Label.work, "work"), (Label.workloadGroupID, "first")],
      finalizers := [Finalizer.repoCleanup], owner := some 0, ownerName := "work" },
    ⟨"destination", [], "promise", "", "first"⟩, {}⟩

theorem valid_pairWork : pairWork.metadata.labels.Valid := fun _ he => by cases he

theorem valid_stalePlacement : stalePlacement.metadata.labels.Valid := by decide +kernel

theorem unplaced_pairWorld :
    ∀ x ∈ (worldWith pairWork (destinationLabelled ∅) valid_pairWork
      Labels.valid_empty).cluster.objects .workPlacement, x.key ≠ stalePlacement.key :=
  fun x hx => by cases hx

/-- The dependency, a Destination for it, and the WorkPlacement. -/
def staleWorld : World :=
  (worldWith pairWork (destinationLabelled ∅) valid_pairWork Labels.valid_empty).withCluster
    (Cluster.add _ .workPlacement stalePlacement valid_stalePlacement unplaced_pairWorld)

/-- The list of the WorkPlacements of a single group, or any other request. -/
def asksForGroup : ApiCall scheme → Bool
  | .list .workPlacement _ sel => !sel (workNameLabels "work")
  | _ => true

/-- All requests of the class are refused, the others are served. -/
def serveBut (env : Externals) (q : Request) : (call : Call) → World → Option (call.Answer × World)
  | .api call, s =>
    if decide (Call.request (.api call) = q) && asksForGroup call then
      some (.error .unavailable, s)
    else serveAnswered env (.api call) s
  | call, s => serveAnswered env call s

theorem failingIn_of_serveBut {q : Request} (hq : may q) (call : Call) (s : World)
    (r : call.Answer) (t : World) (hserve : serveBut env q call s = some (r, t)) :
    failingIn env may call s r t := by
  have hserved (call : Call) (r : call.Answer) (hs : serveAnswered env call s = some (r, t)) :
      failingIn env may call s r t := by
    have hc := unfailing_of_serveAnswered call s r t hs
    exact ⟨faulty_of_unfailing call s r t hc, fun _ => hc.2⟩
  cases call with
  | api call =>
    simp only [serveBut] at hserve
    split at hserve
    · next hrefused =>
      simp only [Bool.and_eq_true, decide_eq_true_eq] at hrefused
      obtain ⟨rfl, rfl⟩ := Prod.mk.inj (Option.some.inj hserve)
      exact ⟨⟨_, Or.inr ⟨.unavailable, rfl, rfl, Or.inl rfl⟩, rfl⟩,
        fun hnot => absurd (hrefused.1 ▸ hq) hnot⟩
    · exact hserved _ _ hserve
  | _ => exact hserved _ _ hserve

/-- The reconcile comes to an end without having placed the second group. -/
def passesOver (q : Request) : Bool :=
  (eval (serveBut plainExternals q) (reconcile plainExternals "default" "work") staleWorld).any
    fun out => decide (out.1 = {}) &&
      (out.2.cluster.objects .workPlacement).all fun x => decide (groupID x ≠ some "second")

theorem passesOver_of_ne {q : Request} (hq : q ≠ .other) : passesOver q = true := by
  cases q with
  | other => exact absurd rfl hq
  | listDestinations => decide +kernel
  | listWorkPlacements => decide +kernel
  | getWorkPlacement => decide +kernel
  | createWorkPlacement => decide +kernel
  | updateWorkPlacement => decide +kernel
  | updateWorkPlacementStatus => decide +kernel

theorem placement_staleWorld {key : String × String} {x : WorkPlacement}
    (hx : staleWorld.placement key = some x) :
    key = ("default", "work.destination-first") ∧ x = stalePlacement.stampedAt 2 := by
  obtain ⟨hmem, rfl⟩ := staleWorld.cluster.find_eq_some.mp hx
  obtain rfl : x = stalePlacement.stampedAt 2 := List.mem_singleton.mp hmem
  exact ⟨rfl, rfl⟩

theorem find_staleWorld : staleWorld.cluster.find .work ("default", "work") = some pairWork := rfl

theorem placeable_pairWork : Placeable pairWork staleWorld where
  finalizer := List.mem_singleton.mpr rfl
  callable := by
    refine ⟨show "default" ≠ "" by decide, List.mem_singleton.mpr rfl, ⟨by decide, by decide⟩,
      ⟨fun g d x hx => ?_, fun key x hx hbelongs => ?_⟩, fun key x hx hbelongs hdel => ?_⟩
    · obtain ⟨-, rfl⟩ := placement_staleWorld hx
      exact ⟨⟨rfl, by decide⟩, rfl⟩
    · obtain ⟨rfl, rfl⟩ := placement_staleWorld hx
      exact ⟨⟨[], [], "first", []⟩, by decide, by decide, by decide⟩
    · obtain ⟨-, rfl⟩ := placement_staleWorld hx
      cases hdel
  name := by decide
  ids := by decide
  selectors := by decide +kernel

theorem destination_selected {g : WorkloadGroup} (hg : g ∈ pairWork.spec.workloadGroups) :
    "destination" ∈ selectedNames g staleWorld := by
  refine ⟨(destinationLabelled ∅).stampedAt 1, List.mem_singleton.mpr rfl, ⟨rfl, ?_, ?_⟩, rfl⟩
  · have hempty : resolveDestinationSelectorsForWorkloadGroup g = ∅ := by
      simp only [pairWork, List.mem_cons, List.not_mem_nil, or_false] at hg
      rcases hg with rfl | rfl <;> decide
    rw [hempty]
    intro key v hv
    cases hv
  · rintro - ⟨hstrict, -⟩
    cases hstrict

/-- A group that could be placed is passed over without an error. -/
theorem exec_passesOver {q : Request} (hq : q ≠ .other) (hmay : may q) :
    ∃ t, Exec (failingIn plainExternals may) (reconcile plainExternals "default" "work") staleWorld
        {} t ∧ ¬ AllPlaced pairWork staleWorld t := by
  obtain ⟨r, t, he, ht⟩ := exists_exec_of_eval (h := failingIn plainExternals may)
    (failingIn_of_serveBut hmay) (passesOver_of_ne hq)
  simp only [Bool.and_eq_true, decide_eq_true_eq, List.all_eq_true] at ht
  obtain ⟨rfl, hnone⟩ := ht
  refine ⟨t, he, fun hplaced => ?_⟩
  have hg : (⟨[⟨["second"], []⟩], [], "second", []⟩ : WorkloadGroup) ∈
      pairWork.spec.workloadGroups := by simp [pairWork]
  obtain ⟨key, x, hx, -⟩ := hplaced _ hg ⟨_, destination_selected hg⟩
  exact hnone x (t.cluster.find_eq_some.mp hx.stored).1 hx.groupID_eq

/-- The list of Destinations fails: the reconcile comes to an end, one group has no
WorkPlacement, and that of the other is said to be misplaced. -/
theorem failed_list_misplaces :
    ∃ t, Exec (failingIn plainExternals (· = .listDestinations))
        (reconcile plainExternals "default" "work") staleWorld {} t ∧
      ¬ AllPlaced pairWork staleWorld t ∧ NewlyMisplaced pairWork staleWorld t := by
  have heval : (eval (serveBut plainExternals .listDestinations)
      (reconcile plainExternals "default" "work") staleWorld).any (fun out =>
        decide (out.1 = {}) &&
        (out.2.cluster.objects .workPlacement).all (fun x => decide (groupID x ≠ some "second")) &&
        (out.2.cluster.objects .workPlacement).any fun x => decide (x.metadata.ns = "default" ∧
          x.metadata.labels.lookup Label.work = some "work" ∧ groupID x = some "first" ∧
          x.spec.targetDestinationName = "destination" ∧
          x.metadata.labels.lookup Label.misscheduled = some "true")) = true := by
    decide +kernel
  obtain ⟨r, t, he, ht⟩ :=
    exists_exec_of_eval (h := failingIn plainExternals (· = .listDestinations))
      (failingIn_of_serveBut rfl) heval
  simp only [Bool.and_eq_true, decide_eq_true_eq, List.all_eq_true, List.any_eq_true] at ht
  obtain ⟨⟨rfl, hnone⟩, x, hx, hns, hname, hgroup, htarget, hmark⟩ := ht
  have hfirst : (⟨[⟨["first"], []⟩], [], "first", []⟩ : WorkloadGroup) ∈
      pairWork.spec.workloadGroups := by simp [pairWork]
  have hsecond : (⟨[⟨["second"], []⟩], [], "second", []⟩ : WorkloadGroup) ∈
      pairWork.spec.workloadGroups := by simp [pairWork]
  refine ⟨t, he, fun hplaced => ?_, _, hfirst, x.key, x,
    ⟨Cluster.find_key hx, ⟨hns, hname⟩, hgroup⟩, htarget ▸ destination_selected hfirst,
    Or.inl ⟨hmark, ?_⟩⟩
  · obtain ⟨key, y, hy, -⟩ := hplaced _ hsecond ⟨_, destination_selected hsecond⟩
    exact hnone y (t.cluster.find_eq_some.mp hy.stored).1 hy.groupID_eq
  · rintro ⟨y, hy, hmarked⟩
    rw [(placement_staleWorld hy.stored).2] at hmarked
    exact absurd hmarked (show stalePlacement.metadata.labels.lookup Label.misscheduled ≠
      some "true" by decide)

/-- Failing requests are surfaced and do no harm, for all Works and Destinations,
exactly if only requests for the Work itself and deletions may fail. -/
theorem scheduling_failures_harmless_iff (may : Request → Prop) :
    (∀ (env : Externals) (ns name : String) (s t : World) (r : ReconcileResult) (work : Work),
      s.cluster.find .work (ns, name) = some work →
      (work.metadata.deleting = false → Placeable work s) →
      Exec (failingIn env may) (reconcile env ns name) s r t →
        (r = {} → AllPlaced work s t) ∧ ¬ NewlyMisplaced work s t) ↔
      ∀ q, may q → q = .other := by
  constructor
  · intro hall q hmay
    by_contra hq
    obtain ⟨t, he, hnot⟩ := exec_passesOver hq hmay
    exact hnot ((hall plainExternals "default" "work" staleWorld t {} pairWork find_staleWorld
      (fun _ => placeable_pairWork) he).1 rfl)
  · intro hmay env ns name s t r work hf hq he
    exact exec_reconcile_harmless hmay hf hq he

end WorkController

end Kratix
