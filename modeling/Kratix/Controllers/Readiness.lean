import Kratix.Controllers.Accesses
import Kratix.Controllers.Release
import Kratix.Lib.Concurrent
import Kratix.Scheduling.Placement

/-!
# When a WorkPlacement is ready

The scheduler and the WorkPlacement controller both write the ready condition,
each next to a condition of its own. Their operations run side by side, one call
after another in any order. The server refuses a status that was not computed
from the stored WorkPlacement, so the state holds what each operation read last.
-/

namespace Kratix.Readiness

open Apiserver Effect

/-! ### Conditions by type -/

/-- The status of the first condition of this type. -/
def conditionStatus (conditions : List Condition) (type : String) : Option ConditionStatus :=
  (findCondition conditions type).map Condition.status

theorem conditionStatus_setStatusCondition (conditions : List Condition) (new : Condition)
    (type : String) : conditionStatus (setStatusCondition conditions new).2 type =
      if type = new.type then some new.status else conditionStatus conditions type := by
  split_ifs with htype
  · subst htype
    obtain ⟨c, hfind, hstatus⟩ := findCondition_setStatusCondition conditions new
    rw [conditionStatus, hfind, Option.map_some, hstatus]
  · rw [conditionStatus, findCondition_setStatusCondition_of_ne conditions new htype]
    rfl

theorem types_modify (conditions : List Condition) (new : Condition) :
    (conditions.modify (conditions.findIdx fun c => c.type = new.type) fun _ => new).map
      Condition.type = conditions.map Condition.type := by
  induction conditions with
  | nil => rfl
  | cons c conditions ih =>
    by_cases hc : c.type = new.type
    · simp [List.findIdx_cons, hc]
    · simpa [List.findIdx_cons, hc] using ih

theorem nodup_setStatusCondition {conditions : List Condition}
    (hnodup : (conditions.map Condition.type).Nodup) (new : Condition) :
    ((setStatusCondition conditions new).2.map Condition.type).Nodup := by
  unfold setStatusCondition
  split
  · next hnone =>
    have hnew : new.type ∉ conditions.map Condition.type := by
      intro hmem
      obtain ⟨c, hc, htype⟩ := List.mem_map.mp hmem
      exact List.find?_eq_none.mp hnone c hc (by simp [htype])
    rw [List.map_append, List.nodup_append]
    refine ⟨hnodup, by simp, ?_⟩
    rintro type htype _ hmem rfl
    obtain rfl : type = new.type := by simpa using hmem
    exact hnew htype
  · split
    · exact hnodup
    · rw [types_modify]
      exact hnodup

/-- A condition that was set anew is the one that is found, and was not before. -/
theorem findCondition_of_changed {conditions conditions' : List Condition} {new : Condition}
    (h : setStatusCondition conditions new = (true, conditions')) :
    findCondition conditions' new.type = some new ∧
      findCondition conditions new.type ≠ some new := by
  unfold setStatusCondition at h
  split at h
  · next hnone =>
    cases h
    refine ⟨?_, by simp [hnone]⟩
    unfold findCondition at hnone ⊢
    rw [List.find?_append, hnone]
    simp
  · next old hold =>
    split at h
    · cases h
    · next hsame =>
      cases h
      refine ⟨findCondition_modify conditions new hold, fun heq => hsame ?_⟩
      obtain rfl : old = new := Option.some.inj (hold.symm.trans heq)
      simp [Condition.hasSameState]

theorem conditionStatus_of_any {conditions : List Condition} {type : String}
    {status : ConditionStatus} (hnodup : (conditions.map Condition.type).Nodup)
    (hany : (conditions.any fun c => c.type == type && c.status == status) = true) :
    conditionStatus conditions type = some status := by
  obtain ⟨c, hc, hmatch⟩ := List.any_eq_true.mp hany
  obtain ⟨htype, hstatus⟩ := Bool.and_eq_true_iff.mp hmatch
  have htype := beq_iff_eq.mp htype
  have hstatus := beq_iff_eq.mp hstatus
  cases hfind : findCondition conditions type with
  | none => exact absurd htype (by simpa using List.find?_eq_none.mp hfind c hc)
  | some c' =>
    have htype' : c'.type = type := by simpa using List.find?_some hfind
    obtain rfl := List.inj_on_of_nodup_map hnodup hc (List.mem_of_find?_eq_some hfind)
      (htype.trans htype'.symm)
    rw [conditionStatus, hfind, Option.map_some, hstatus]

theorem conditionStatus_ne_of_any {conditions : List Condition} {type : String}
    {status : ConditionStatus}
    (hany : (conditions.any fun c => c.type == type && c.status == status) = false) :
    conditionStatus conditions type ≠ some status := by
  intro hstatus
  obtain ⟨c, hfind, hc⟩ := Option.map_eq_some_iff.mp hstatus
  have htype : c.type = type := by simpa using List.find?_some hfind
  have hno := List.any_eq_false.mp hany c (List.mem_of_find?_eq_some hfind)
  simp [htype, hc] at hno

/-! ### Sound statuses -/

/-- What is ready was written, and is where it belongs. -/
structure Sound (status : WorkPlacementStatus) : Prop where
  types_nodup : (status.conditions.map Condition.type).Nodup
  of_ready : conditionStatus status.conditions ConditionType.ready = some .conditionTrue →
    conditionStatus status.conditions ConditionType.writeSucceeded = some .conditionTrue ∧
      conditionStatus status.conditions ConditionType.scheduleSucceeded ≠ some .conditionFalse

theorem sound_nil (versionID : String) : Sound ⟨[], versionID⟩ :=
  ⟨List.nodup_nil, fun h => by cases h⟩

section

variable {status : WorkPlacementStatus}

theorem Sound.withVersionID (h : Sound status) (versionID : String) :
    Sound { status with versionID := versionID } :=
  ⟨h.types_nodup, h.of_ready⟩

theorem Sound.of_not_ready {conditions : List Condition} {new : Condition}
    (hnodup : (conditions.map Condition.type).Nodup) (htype : new.type = ConditionType.ready)
    (hstatus : new.status ≠ .conditionTrue) (versionID : String) :
    Sound ⟨(setStatusCondition conditions new).2, versionID⟩ := by
  refine ⟨nodup_setStatusCondition hnodup new, fun hready => ?_⟩
  rw [conditionStatus_setStatusCondition, if_pos htype.symm] at hready
  exact absurd (Option.some.inj hready) hstatus

theorem Sound.writeSucceeded (h : Sound status) :
    Sound ⟨(setStatusCondition status.conditions
      WorkPlacementController.writeSucceededCondition).2, status.versionID⟩ := by
  refine ⟨nodup_setStatusCondition h.types_nodup _, fun hready => ?_⟩
  rw [conditionStatus_setStatusCondition, if_neg (by decide)] at hready
  rw [conditionStatus_setStatusCondition, conditionStatus_setStatusCondition, if_pos (by decide),
    if_neg (by decide)]
  exact ⟨rfl, (h.of_ready hready).2⟩

theorem Sound.writeFailed (h : Sound status) (message : String) :
    Sound ⟨(setStatusCondition (setStatusCondition status.conditions
      (WorkPlacementController.writeFailedCondition message)).2
      (readyCondition .conditionFalse "WorkloadsFailedWrite" "Failing")).2, status.versionID⟩ :=
  .of_not_ready (nodup_setStatusCondition h.types_nodup _) rfl (by decide) _

/-- Written and not misplaced, the WorkPlacement may be reported as ready. -/
theorem Sound.reportReady {conditions : List Condition} {new : Condition}
    (hnodup : (conditions.map Condition.type).Nodup) (htype : new.type = ConditionType.ready)
    (hwritten : conditionStatus conditions ConditionType.writeSucceeded = some .conditionTrue)
    (hplaced : conditionStatus conditions ConditionType.scheduleSucceeded ≠ some .conditionFalse)
    (versionID : String) : Sound ⟨(setStatusCondition conditions new).2, versionID⟩ := by
  refine ⟨nodup_setStatusCondition hnodup new, fun _ => ?_⟩
  rw [conditionStatus_setStatusCondition, conditionStatus_setStatusCondition, htype,
    if_neg (by decide), if_neg (by decide)]
  exact ⟨hwritten, hplaced⟩

/-- The scheduler may report a misplaced WorkPlacement, and one that was written. -/
theorem Sound.scheduled (h : Sound status) {misplaced : Bool} {conditions : List Condition}
    (hset : setStatusConditions status.conditions (workPlacementConditions misplaced).1
      (workPlacementConditions misplaced).2 = (true, conditions))
    (hwritten : misplaced = false →
      conditionStatus status.conditions ConditionType.writeSucceeded = some .conditionTrue) :
    Sound ⟨conditions, status.versionID⟩ := by
  unfold setStatusConditions at hset
  split at hset
  · cases hset
  · next conditions' hfirst =>
    cases hset
    have hnodup : (conditions'.map Condition.type).Nodup := by
      have := nodup_setStatusCondition h.types_nodup (workPlacementConditions misplaced).1
      rwa [hfirst] at this
    have hstatus (type : String) := conditionStatus_setStatusCondition status.conditions
      (workPlacementConditions misplaced).1 type
    rw [hfirst] at hstatus
    cases misplaced with
    | true => exact .of_not_ready hnodup rfl (by decide) _
    | false =>
      refine .reportReady hnodup rfl ?_ ?_ _
      · rw [hstatus, if_neg (by decide)]
        exact hwritten rfl
      · rw [hstatus, if_pos (by decide)]
        decide

end

/-! ### Operations side by side -/

/-- The world, and the WorkPlacements that each operation read last. -/
structure Session (ι : Type) where
  world : World
  seen : ι → String × String → Option WorkPlacement

/-- The WorkPlacement in the answer to a call. -/
def answered : (call : Call) → call.Answer → Option WorkPlacement
  | .api (.get .workPlacement _ _), .ok x => some x
  | .api (.create .workPlacement _), .ok x => some x
  | .api (.update .workPlacement _), .ok x => some x
  | .api (.updateStatus .workPlacement _), .ok x => some x
  | _, _ => none

def learn (seen : String × String → Option WorkPlacement) (x : Option WorkPlacement) :
    String × String → Option WorkPlacement :=
  match x with
  | none => seen
  | some wp => Function.update seen wp.key (some wp)

/-- A status that takes effect was computed from the stored WorkPlacement. -/
def UpToDate (seen : String × String → Option WorkPlacement) (s t : World) : Call → Prop
  | .api (.updateStatus .workPlacement o) => t = s ∨ seen o.key = s.placement o.key
  | _ => True

variable {ι : Type}

/-- Every outcome of a call of one of the operations. -/
def concurrent [DecidableEq ι] (env : Externals) (i : ι) : Handler signature (Session ι) :=
  fun call s r t => faulty env call s.world r t.world ∧
    UpToDate (s.seen i) s.world t.world call ∧
    t.seen = Function.update s.seen i (learn (s.seen i) (answered call r))

/-- A WorkPlacement is newly reported as scheduled only after it was written. -/
def InOrder (s : World) : Call → Prop
  | .api (.updateStatus .workPlacement o) =>
    ∀ x c, s.placement o.key = some x →
      findCondition o.status.conditions ConditionType.scheduleSucceeded = some c →
      c.status = .conditionTrue →
      findCondition x.status.conditions ConditionType.scheduleSucceeded ≠ some c →
      conditionStatus x.status.conditions ConditionType.writeSucceeded = some .conditionTrue
  | _ => True

/-- The outcomes of the calls that report in order. -/
def inOrder [DecidableEq ι] (env : Externals) (i : ι) : Handler signature (Session ι) :=
  fun call s r t => concurrent env i call s r t ∧ InOrder s.world call

def LeavesStatus : Call → Prop
  | .api (.create .workPlacement o) => o.status = {}
  | .api (.updateStatus .workPlacement _) => False
  | _ => True

inductive Operation
  | schedule (work : Work)
  | reconcile (ns name : String)
  /-- Any other change, such as new labels of a Destination. -/
  | change (call : Call) (hcall : LeavesStatus call)

def Operation.program (env : Externals) : Operation → Prog Unit
  | schedule work => do
    let _ ← reconcileWork env work
    return
  | reconcile ns name => do
    let _ ← WorkPlacementController.reconcile env ns name
    return
  | change call _ => do
    let _ ← Program.perform (S := signature) call
    return

/-- All stored WorkPlacements have sound statuses. -/
def AllSound (s : World) : Prop := ∀ x ∈ s.cluster.objects .workPlacement, Sound x.status

/-! ### Judging one operation -/

/-- What the others may do. -/
def Interferes (i : ι) (s t : Session ι) : Prop :=
  t.seen i = s.seen i ∧ (AllSound s.world → AllSound t.world)

/-- What an operation may do. -/
def Behaves (i : ι) (_ : Call) (s t : Session ι) : Prop :=
  (AllSound s.world → AllSound t.world) ∧ ∀ j, j ≠ i → t.seen j = s.seen j

/-- The program keeps all statuses sound and ends with `Q`. -/
def Safe [DecidableEq ι] {α : Type} (env : Externals) (i : ι)
    (Q : α → (String × String → Option WorkPlacement) → Prop) (prog : Prog α)
    (s : Session ι) : Prop :=
  Within (inOrder env i) (Interferes i) (Behaves i)
    (fun a t => AllSound t.world ∧ Q a (t.seen i)) prog s

theorem Interferes.refl (i : ι) (s : Session ι) : Interferes i s s := ⟨rfl, id⟩

theorem Interferes.trans {i : ι} {s t u : Session ι} (h₁ : Interferes i s t)
    (h₂ : Interferes i t u) : Interferes i s u :=
  ⟨h₂.1.trans h₁.1, h₂.2 ∘ h₁.2⟩

/-- Each status that the call gives to a WorkPlacement is sound. -/
def ReportsSound : Call → Prop
  | .api call => call.Reports (S := scheme) .workPlacement Sound
  | _ => True

theorem allSound_of_reports {env : Externals} {call : Call} {r : call.Answer} {s t : World}
    (hc : faulty env call s r t) (hcall : ReportsSound call) (hs : AllSound s) : AllSound t := by
  rcases faulty_cluster hc with h | ⟨c, rfl, h⟩
  · intro x hx
    rw [h] at hx
    exact hs x hx
  · intro x hx
    rw [h] at hx
    exact statuses_serve hcall hs x hx

variable [DecidableEq ι] {env : Externals} {i : ι} {s t : Session ι} {α β : Type}

theorem seen_of_ne {call : Call} {r : call.Answer} (hc : inOrder env i call s r t) {j : ι}
    (hj : j ≠ i) : t.seen j = s.seen j := by
  rw [hc.1.2.2, Function.update_of_ne hj]

section

variable {Q : α → (String × String → Option WorkPlacement) → Prop}

theorem safe_pure {a : α} (hs : AllSound s.world) (hq : Q a (s.seen i)) :
    Safe env i Q (pure a) s :=
  within_pure fun _ ht => ⟨ht.2 hs, ht.1.symm ▸ hq⟩

theorem safe_bind {M : β → (String × String → Option WorkPlacement) → Prop} {prog : Prog β}
    {f : β → Prog α} (hp : Safe env i M prog s)
    (hf : ∀ b t, AllSound t.world → M b (t.seen i) → Safe env i Q (f b) t) :
    Safe env i Q (prog >>= f) s :=
  within_bind (Interferes.refl i) hp fun b t hb => hf b t hb.1 hb.2

theorem safe_of_calls {prog : Prog α} (hp : prog.Calls ReportsSound) (hs : AllSound s.world) :
    Safe env i (fun _ _ => True) prog s := by
  refine Within.imp (fun _ _ hsound => ⟨hsound, trivial⟩) (within_of_calls
    (I := fun s : Session ι => AllSound s.world) (fun _ _ ht => ht.2) ?_ hp hs)
  intro c t r u hcall ht hc
  have hsound := allSound_of_reports hc.1.1 hcall
  exact ⟨⟨hsound, fun j => seen_of_ne hc⟩, hsound ht⟩

end

/-! ### Reading and writing a status -/

theorem safe_getObject (ns name : String) (hs : AllSound s.world) :
    Safe env i (fun r seen => ∀ x : WorkPlacement, r = .ok x →
      Sound x.status ∧ x.key = (ns, name) ∧ seen (ns, name) = some x)
      (getObject .workPlacement ns name) s := by
  refine within_perform fun t ht r u hc => ?_
  have hread := exec_getObject (exec_perform.mpr hc.1.1)
  refine ⟨⟨fun h => hread.1.symm ▸ h, fun j => seen_of_ne hc⟩, fun v hv => ⟨hv.2 ?_, ?_⟩⟩
  · rw [hread.1]
    exact ht.2 hs
  · rintro x rfl
    have hfind := t.world.cluster.find_eq_some.mp (hread.2.1 x rfl)
    refine ⟨ht.2 hs x hfind.1, hfind.2, ?_⟩
    rw [hv.1, hc.1.2.2, Function.update_self, ← hfind.2]
    exact Function.update_self ..

theorem safe_updateStatus {o : WorkPlacement} (ho : Sound o.status) (hs : AllSound s.world) :
    Safe env i (fun r _ => ∀ x : WorkPlacement, r = .ok x → Sound x.status)
      (updateStatus .workPlacement o) s := by
  refine within_perform fun t ht r u hc => ?_
  have hsound : AllSound t.world → AllSound u.world :=
    allSound_of_reports hc.1.1 fun _ => ho
  refine ⟨⟨hsound, fun j => seen_of_ne hc⟩, fun v hv => ⟨hv.2 (hsound (ht.2 hs)), ?_⟩⟩
  rintro x rfl
  rcases exec_updateStatus (exec_perform.mpr hc.1.1) with ⟨-, hno⟩ | ⟨stored, c, -, -, -, hx⟩
  · exact absurd rfl (hno x)
  · rw [hx x rfl]
    exact ho

/-! ### The scheduler -/

/-- What the scheduler reports was computed from the stored WorkPlacement, which had been
written if it is reported as scheduled. -/
theorem safe_updateScheduled {wp : WorkPlacement} {misplaced : Bool} {conditions : List Condition}
    (hwp : Sound wp.status) (hseen : s.seen i wp.key = some wp)
    (hset : setStatusConditions wp.status.conditions (workPlacementConditions misplaced).1
      (workPlacementConditions misplaced).2 = (true, conditions)) (hs : AllSound s.world) :
    Safe env i (fun _ _ => True) (updateStatus .workPlacement
      { wp with status := { wp.status with conditions := conditions } }) s := by
  refine within_perform fun t ht r u hc => ?_
  have hsound : AllSound t.world → AllSound u.world := by
    rcases hc.1.2.1 with hsame | hcurrent
    · exact fun h => hsame.symm ▸ h
    · have hstored : t.world.placement wp.key = some wp := by
        rw [ht.1] at hcurrent
        exact hcurrent.symm.trans hseen
      refine allSound_of_reports hc.1.1 fun _ => hwp.scheduled hset ?_
      rintro rfl
      unfold setStatusConditions at hset
      split at hset
      · cases hset
      · next conditions' hfirst =>
        cases hset
        obtain ⟨hfound, hnew⟩ := findCondition_of_changed hfirst
        refine hc.2 wp _ hstored ?_ rfl hnew
        exact (findCondition_setStatusCondition_of_ne _ _ (by decide)).trans hfound
  exact ⟨⟨hsound, fun j => seen_of_ne hc⟩, fun v hv => ⟨hv.2 (hsound (ht.2 hs)), trivial⟩⟩

theorem safe_updateWorkPlacementStatus (ns name : String) (misplaced : Bool)
    (hs : AllSound s.world) :
    Safe env i (fun _ _ => True) (updateWorkPlacementStatus ns name misplaced) s := by
  refine safe_bind (safe_getObject ns name hs) fun r t ht hr => ?_
  cases r with
  | error e => exact safe_pure ht trivial
  | ok wp =>
    obtain ⟨hwp, hkey, hseen⟩ := hr wp rfl
    dsimp only
    split
    · exact safe_pure ht trivial
    · next conditions hset =>
      refine safe_bind (safe_updateScheduled hwp (hkey ▸ hseen) hset ht) fun r u hu _ => ?_
      cases r <;> exact safe_pure hu trivial

theorem status_mutateWorkPlacement {workloadGroup : WorkloadGroup} {work : Work} {dest : String}
    {misscheduled : Bool} {wp x : WorkPlacement}
    (h : mutateWorkPlacement workloadGroup work dest misscheduled wp = .ok x) :
    x.status = wp.status := by
  unfold mutateWorkPlacement setControllerReference at h
  dsimp only at h
  split_ifs at h <;> (obtain rfl := Except.ok.inj h; simp [addFinalizer_eq, withFinalizers,
    labelWorkplacementAsMisplaced, withLabels])

theorem calls_createOrUpdate {new : WorkPlacement}
    {mutate : WorkPlacement → Except Failure WorkPlacement}
    (hnew : ∀ x, mutate new = .ok x → Sound x.status) :
    (createOrUpdate .workPlacement new mutate).Calls ReportsSound := by
  refine calls_bind (calls_perform.mpr trivial) fun r => ?_
  split
  · split
    · exact calls_pure _
    · next x hx =>
      refine calls_bind (calls_perform.mpr fun _ => hnew x hx) fun r => ?_
      cases r <;> exact calls_pure _
  · exact calls_pure _
  · split
    · exact calls_pure _
    · split
      · exact calls_pure _
      · refine calls_bind (calls_perform.mpr trivial) fun r => ?_
        cases r <;> exact calls_pure _

theorem safe_applyWorkplacement (workloadGroup : WorkloadGroup) (work : Work) (dest : String)
    (misscheduled : Bool) (hs : AllSound s.world) :
    Safe env i (fun _ _ => True) (applyWorkplacement workloadGroup work dest misscheduled) s := by
  have hnew (x : WorkPlacement) (h : mutateWorkPlacement workloadGroup work dest misscheduled
      ⟨{ ns := work.metadata.ns, name := workPlacementName work dest workloadGroup }, {}, {}⟩ =
      .ok x) : Sound x.status := by
    rw [status_mutateWorkPlacement h]
    exact sound_nil ""
  refine safe_bind (safe_of_calls (calls_createOrUpdate hnew) hs) fun r t ht _ => ?_
  cases r with
  | some e => exact safe_pure ht trivial
  | none => exact safe_updateWorkPlacementStatus _ _ _ ht

theorem safe_applyWorkplacements (workloadGroup : WorkloadGroup) (work : Work)
    (targets : StringMap Bool) (names : List String) (hs : AllSound s.world) :
    Safe env i (fun _ _ => True) (applyWorkplacements workloadGroup work targets names) s := by
  induction names generalizing s with
  | nil => exact safe_pure hs trivial
  | cons name names ih =>
    refine safe_bind (safe_applyWorkplacement workloadGroup work name _ hs) fun r t ht _ => ?_
    cases r with
    | some e => exact safe_pure ht trivial
    | none => exact ih ht

/-- A program that obeys this policy writes no WorkPlacement. -/
def readingPolicy : Policy where

theorem calls_of_reading {prog : Prog α} (hp : Obeys readingPolicy prog) :
    prog.Calls ReportsSound := by
  refine Program.Calls.mono ?_ hp
  rintro (call | _ | _ | _ | _ | _ | _ | _ | _ | _) hcall
  · cases call with
    | create k o => exact hcall.elim
    | updateStatus k o => exact hcall.elim
    | _ => exact trivial
  all_goals exact trivial

theorem safe_updateWorkPlacement (workloadGroup : WorkloadGroup) (wp : WorkPlacement)
    (hs : AllSound s.world) :
    Safe env i (fun _ _ => True) (updateWorkPlacement env workloadGroup wp) s := by
  refine safe_bind (safe_of_calls (calls_of_reading
    (obeys_getDestinationsForWorkloadGroup _)) hs) fun dests t ht _ => ?_
  refine safe_bind (safe_of_calls (calls_perform.mpr trivial) ht) fun r u hu _ => ?_
  cases r with
  | error e => exact safe_pure hu trivial
  | ok x =>
    refine safe_bind (safe_updateWorkPlacementStatus _ _ _ hu) fun r v hv _ => ?_
    cases r <;> exact safe_pure hv trivial

theorem safe_updateWorkPlacements (workloadGroup : WorkloadGroup) (wps : List WorkPlacement)
    (hs : AllSound s.world) :
    Safe env i (fun _ _ => True) (updateWorkPlacements env workloadGroup wps) s := by
  induction wps generalizing s with
  | nil => exact safe_pure hs trivial
  | cons wp wps ih =>
    refine safe_bind (safe_updateWorkPlacement workloadGroup wp hs) fun r t ht _ => ?_
    refine safe_bind (ih ht) fun counts u hu _ => ?_
    rcases r with e | (_ | _) <;> exact safe_pure hu trivial

theorem safe_placeWorkloadGroup (workloadGroup : WorkloadGroup) (work : Work)
    (wps : List WorkPlacement) (hs : AllSound s.world) :
    Safe env i (fun _ _ => True) (placeWorkloadGroup env workloadGroup work wps) s := by
  refine safe_bind (safe_of_calls (calls_of_reading
    (obeys_getTargetDestinationNames _ _)) hs) fun names t ht _ => ?_
  dsimp only
  split
  · exact safe_pure ht trivial
  · refine safe_bind (M := fun _ _ => True) ?_ fun r u hu _ => ?_
    · refine safe_bind (safe_of_calls (calls_perform.mpr trivial) ht) fun names u hu _ => ?_
      refine safe_bind (safe_applyWorkplacements workloadGroup work _ names hu) fun r v hv _ => ?_
      cases r <;> exact safe_pure hv trivial
    · cases r <;> exact safe_pure hu trivial

theorem safe_reconcileWorkloadGroup (workloadGroup : WorkloadGroup) (work : Work)
    (hs : AllSound s.world) :
    Safe env i (fun _ _ => True) (reconcileWorkloadGroup env workloadGroup work) s := by
  refine safe_bind (safe_of_calls (calls_of_reading
    (obeys_listWorkplacementWithLabels _ _)) hs) fun r t ht _ => ?_
  cases r with
  | error e => exact safe_pure ht trivial
  | ok existing =>
    dsimp only
    split
    · refine safe_bind (safe_updateWorkPlacements workloadGroup existing ht) fun counts u hu _ => ?_
      split <;> exact safe_pure hu trivial
    · exact safe_placeWorkloadGroup workloadGroup work existing ht

theorem safe_reconcileWorkloadGroups (work : Work) (groups : List WorkloadGroup)
    (unscheduled misplaced : List String) (hs : AllSound s.world) :
    Safe env i (fun _ _ => True)
      (reconcileWorkloadGroups env work groups unscheduled misplaced) s := by
  induction groups generalizing s unscheduled misplaced with
  | nil => exact safe_pure hs trivial
  | cons g groups ih =>
    refine safe_bind (safe_reconcileWorkloadGroup g work hs) fun r t ht _ => ?_
    rcases r with e | (_ | _ | _)
    · exact safe_pure ht trivial
    · exact ih _ _ ht
    · exact ih _ _ ht
    · exact ih _ _ ht

theorem calls_writeWorkStatus (work : Work) : (writeWorkStatus work).Calls ReportsSound := by
  refine calls_bind (calls_perform.mpr (fun h => by cases h)) fun r => ?_
  cases r <;> exact calls_pure _

theorem calls_deleteWorkPlacements (wps : List WorkPlacement) :
    (deleteWorkPlacements wps).Calls ReportsSound := by
  induction wps with
  | nil => exact calls_pure _
  | cons wp wps ih =>
    refine calls_bind (calls_perform.mpr trivial) fun r => ?_
    cases r with
    | error e => exact calls_pure _
    | ok u => exact ih

theorem calls_cleanupDanglingWorkplacements (work : Work) :
    (cleanupDanglingWorkplacements env work).Calls ReportsSound := by
  refine calls_bind (calls_of_reading (obeys_namesThatShouldExist _ _)) fun r => ?_
  cases r with
  | error e => exact calls_pure _
  | ok names =>
    refine calls_bind (calls_of_reading (obeys_listWorkplacementWithLabels _ _)) fun r => ?_
    cases r with
    | error e => exact calls_pure _
    | ok wps => exact calls_deleteWorkPlacements _

theorem safe_reconcileWork (work : Work) (hs : AllSound s.world) :
    Safe env i (fun _ _ => True) (reconcileWork env work) s := by
  refine safe_bind (safe_reconcileWorkloadGroups work _ _ _ hs) fun r t ht _ => ?_
  cases r with
  | error g =>
    refine safe_bind (safe_of_calls (calls_writeWorkStatus _) ht) fun r u hu _ => ?_
    exact safe_pure hu trivial
  | ok lists =>
    have hrest (out : Option Failure × Work) {u : Session ι} (hu : AllSound u.world) :
        Safe env i (fun _ _ => True)
          (if out.1.isSome then pure (ScheduleResult.mk [] out.1 out.2)
          else do
            let err ← cleanupDanglingWorkplacements env out.2
            return ScheduleResult.mk lists.1 err out.2) u := by
      split
      · exact safe_pure hu trivial
      · refine safe_bind (safe_of_calls (calls_cleanupDanglingWorkplacements _) hu) ?_
        exact fun _ v hv _ => safe_pure hv trivial
    dsimp only
    split
    · exact safe_bind (safe_of_calls (calls_writeWorkStatus _) ht) fun out u hu _ => hrest out hu
    · exact safe_bind (safe_of_calls (calls_pure _) ht) fun out u hu _ => hrest out hu

/-! ### The WorkPlacement controller -/

section WorkPlacementController

open WorkPlacementController

theorem reading_reportsSound : Reading ReportsSound where
  get := fun _ _ _ => trivial
  placements := fun _ _ => trivial
  connect := fun _ => trivial
  read := fun _ _ => trivial

variable {wp : WorkPlacement}

theorem safe_setWriteFailStatusConditions (hwp : Sound wp.status) (err : Failure)
    (hs : AllSound s.world) :
    Safe env i (fun _ _ => True) (setWriteFailStatusConditions wp err) s := by
  unfold setWriteFailStatusConditions
  dsimp only
  split
  · refine safe_bind (safe_updateStatus (hwp.writeFailed _) hs) fun r t ht _ => ?_
    exact safe_pure ht trivial
  · exact safe_pure hs trivial

theorem safe_writeToStateStore (hwp : Sound wp.status) (dest : Destination)
    (hs : AllSound s.world) :
    Safe env i (fun r _ => ∀ x : WorkPlacement × String, r = .ok x → Sound x.1.status)
      (writeToStateStore env wp dest) s := by
  refine safe_bind (safe_of_calls (calls_newWriter reading_reportsSound _ _) hs) fun r t ht _ => ?_
  split
  · exact safe_pure ht fun x hx => by cases hx
  · exact safe_pure ht fun x hx => by cases hx
  · refine safe_bind (safe_of_calls (calls_writeWorkloadsToStateStore reading_reportsSound
      (fun _ _ _ _ => trivial) trivial) ht) fun r u hu _ => ?_
    cases r with
    | error e =>
      refine safe_bind (safe_setWriteFailStatusConditions hwp e hu) fun r v hv _ => ?_
      exact safe_pure hv fun x hx => by cases hx
    | ok versionID =>
      have hwritten := hwp.writeSucceeded
      dsimp only
      split
      · refine safe_pure hu fun x hx => ?_
        cases hx
        exact hwp
      · next conditions hset =>
        rw [hset] at hwritten
        refine safe_bind (safe_updateStatus hwritten hu) fun r v hv hr => ?_
        cases r with
        | error e => exact safe_pure hv fun x hx => by cases hx
        | ok stored =>
          refine safe_pure hv fun x hx => ?_
          cases hx
          exact hr stored rfl

theorem calls_versionToReport (versionID : String) :
    (versionToReport wp versionID).Calls ReportsSound := by
  refine calls_bind (calls_perform.mpr trivial) fun r => ?_
  dsimp only
  split
  · exact calls_bind (calls_perform.mpr trivial) fun _ => calls_pure _
  · exact calls_pure _

theorem safe_updateVersion (hwp : Sound wp.status) (versionID : String) (hs : AllSound s.world) :
    Safe env i (fun r _ => ∀ x : WorkPlacement, r = .ok x → Sound x.status)
      (WorkPlacementController.updateStatus wp versionID) s := by
  refine safe_bind (safe_of_calls (calls_versionToReport _) hs) fun version t ht _ => ?_
  split
  · refine safe_bind (safe_updateStatus (hwp.withVersionID _) ht) fun r u hu hr => ?_
    split
    · refine safe_bind (safe_of_calls (calls_perform.mpr trivial) hu) fun _ v hv _ => ?_
      exact safe_pure hv fun x hx => by cases hx
    · refine safe_bind (safe_of_calls (calls_perform.mpr trivial) hu) fun _ v hv _ => ?_
      exact safe_pure hv fun x hx => by cases hx
    · next stored =>
      refine safe_pure hu fun x hx => ?_
      cases hx
      exact hr stored rfl
  · refine safe_pure ht fun x hx => ?_
    cases hx
    exact hwp

theorem safe_setWorkplacementReady (hwp : Sound wp.status) (hs : AllSound s.world) :
    Safe env i (fun _ _ => True) (setWorkplacementReady wp) s := by
  unfold setWorkplacementReady
  dsimp only
  split
  · next hready =>
    obtain ⟨hwritten, hplaced⟩ := Bool.and_eq_true_iff.mp hready
    have hsound : Sound ⟨(setStatusCondition wp.status.conditions (readyCondition .conditionTrue
        "WorkloadsWrittenToTargetDestination" "Ready")).2, wp.status.versionID⟩ :=
      .reportReady hwp.types_nodup rfl (conditionStatus_of_any hwp.types_nodup hwritten)
        (conditionStatus_ne_of_any (by simpa using hplaced)) _
    split
    · exact safe_pure hs trivial
    · next conditions hset =>
      rw [hset] at hsound
      refine safe_bind (safe_updateStatus hsound hs) fun r t ht _ => ?_
      cases r <;> exact safe_pure ht trivial
  · exact safe_pure hs trivial

theorem safe_reconcileWritten (hwp : Sound wp.status) (dest : Destination) (versionID : String)
    (hs : AllSound s.world) :
    Safe env i (fun _ _ => True) (reconcileWritten wp dest versionID) s := by
  refine safe_bind (safe_updateVersion hwp versionID hs) fun r t ht hr => ?_
  cases r with
  | error result => exact safe_pure ht trivial
  | ok x =>
    dsimp only
    split
    · exact safe_setWorkplacementReady (hr x rfl) ht
    · refine safe_bind (safe_of_calls (calls_perform.mpr trivial) ht) fun r u hu _ => ?_
      cases r <;> exact safe_pure hu trivial

theorem safe_reconcile (ns name : String) (hs : AllSound s.world) :
    Safe env i (fun _ _ => True) (reconcile env ns name) s := by
  refine safe_bind (safe_getObject ns name hs) fun r t ht hr => ?_
  split
  · exact safe_pure ht trivial
  · exact safe_pure ht trivial
  · next wp =>
    have hwp := (hr wp rfl).1
    refine safe_bind (safe_of_calls (calls_perform.mpr trivial) ht) fun dest u hu _ => ?_
    split
    · exact safe_of_calls (calls_handleDeletion reading_reportsSound
        (fun _ _ _ _ _ => trivial) (fun _ _ => trivial) _) hu
    · split
      · exact safe_pure hu trivial
      · refine safe_bind (safe_writeToStateStore hwp _ hu) fun r v hv hr => ?_
        cases r with
        | error result => exact safe_pure hv trivial
        | ok out => exact safe_reconcileWritten (hr out rfl) _ _ hv

end WorkPlacementController

/-! ### All operations -/

theorem reportsSound_of_leavesStatus {call : Call} (h : LeavesStatus call) : ReportsSound call := by
  rcases call with call | _ | _ | _ | _ | _ | _ | _ | _ | _
  · cases call with
    | create k o =>
      rintro rfl
      rw [show o.status = {} from h]
      exact sound_nil ""
    | updateStatus k o =>
      rintro rfl
      exact h.elim
    | _ => exact trivial
  all_goals exact trivial

theorem Operation.safe (o : Operation) (hs : AllSound s.world) :
    Safe env i (fun _ _ => True) (o.program env) s := by
  cases o with
  | schedule work =>
    exact safe_bind (safe_reconcileWork work hs) fun _ t ht _ => safe_pure ht trivial
  | reconcile ns name =>
    exact safe_bind (safe_reconcile ns name hs) fun _ t ht _ => safe_pure ht trivial
  | change call hcall =>
    exact safe_bind (safe_of_calls (calls_perform.mpr (reportsSound_of_leavesStatus hcall)) hs)
      fun _ t ht _ => safe_pure ht trivial

def Session.start (s : World) : Session ι := ⟨s, fun _ _ => none⟩

/-- Decides `UpToDate` for a call that takes effect. -/
def isUpToDate (seen : String × String → Option WorkPlacement) (s : World) : Call → Bool
  | .api (.updateStatus .workPlacement o) => seen o.key = s.placement o.key
  | _ => true

theorem upToDate_of_isUpToDate {seen : String × String → Option WorkPlacement} {s t : World}
    {call : Call} (h : isUpToDate seen s call = true) : UpToDate seen s t call := by
  unfold isUpToDate at h
  unfold UpToDate
  split
  · exact Or.inr (of_decide_eq_true h)
  · trivial

/-- One outcome of each call, without faults. -/
def serveSession (env : Externals) (i : ι) (call : Call) (s : Session ι) :
    Option (call.Answer × Session ι) :=
  if isUpToDate (s.seen i) s.world call then
    (serveCall env call s.world).map fun out => (out.1,
      ⟨out.2, Function.update s.seen i (learn (s.seen i) (answered call out.1))⟩)
  else none

theorem concurrent_of_serveSession (i : ι) (call : Call) (s : Session ι) (r : call.Answer)
    (t : Session ι) (h : serveSession env i call s = some (r, t)) :
    concurrent env i call s r t := by
  unfold serveSession at h
  split_ifs at h with hcurrent
  obtain ⟨out, hserve, hout⟩ := Option.map_eq_some_iff.mp h
  cases hout
  exact ⟨faulty_of_serveCall call s.world _ _ hserve, upToDate_of_isUpToDate hcurrent, rfl⟩

/-- The conditions that decide whether a WorkPlacement may be ready. -/
def readiness (x : WorkPlacement) : List (Option ConditionStatus) :=
  [ConditionType.ready, ConditionType.writeSucceeded, ConditionType.scheduleSucceeded].map
    (conditionStatus x.status.conditions)

/-- A Destination is created, and a Work is scheduled to it. -/
def firstScheduling : Bool → Operation
  | false => .change (.api (.create .destination WorkPlacementController.nestedDestination)) trivial
  | true => .schedule WorkPlacementController.fileWork

set_option maxRecDepth 4096 in
/-- The WorkPlacement is ready before anything was written. -/
theorem ready_when_scheduled :
    ∃ (pool : Bool → Prog Unit) (t : Session Bool) (x : WorkPlacement),
      Interleaves (concurrent plainExternals)
        (fun i => (firstScheduling i).program plainExternals, Session.start emptyWorld) (pool, t) ∧
      x ∈ t.world.cluster.objects .workPlacement ∧
      readiness x = [some .conditionTrue, none, some .conditionTrue] := by
  have hrun : (runAll (serveSession plainExternals)
      (fun i => (firstScheduling i).program plainExternals) [false, true]
      (Session.start emptyWorld)).any (fun t => (t.world.cluster.objects .workPlacement).any
        fun x => readiness x = [some .conditionTrue, none, some .conditionTrue]) = true := by
    decide +kernel
  obtain ⟨t, ht, hany⟩ := (Option.any_eq_true _ _).mp hrun
  obtain ⟨x, hx, hready⟩ := List.any_eq_true.mp hany
  obtain ⟨pool, hpool⟩ := Interleaves.of_runAll (h := concurrent plainExternals)
    concurrent_of_serveSession (by decide) (fun i _ => rfl) ht
  exact ⟨pool, t, x, hpool, hx, of_decide_eq_true hready⟩

/-- When WorkPlacements are reported as scheduled only after they were written, those that
are ready were written and are not misplaced, in any interleaving. -/
theorem ready_of_reported_in_order (ops : ι → Operation) {s : World} (hs : AllSound s)
    {pool : ι → Prog Unit} {t : Session ι}
    (hrun : Interleaves (inOrder env) (fun i => (ops i).program env, Session.start s) (pool, t)) :
    ∀ x ∈ t.world.cluster.objects .workPlacement,
      conditionStatus x.status.conditions ConditionType.ready = some .conditionTrue →
        conditionStatus x.status.conditions ConditionType.writeSucceeded =
            some .conditionTrue ∧
          conditionStatus x.status.conditions ConditionType.scheduleSucceeded ≠
            some .conditionFalse := by
  have hsafe (i : ι) : Safe env i (fun _ _ => True) ((ops i).program env) (Session.start s) :=
    (ops i).safe hs
  have hsound : AllSound t.world := by
    refine Interleaves.invariant (P := fun s : Session ι => AllSound s.world) ?_ ?_ ?_ hrun
      hsafe ?_ hs
    · exact fun i s t u => Interferes.trans
    · exact Interferes.refl
    · exact fun i j c s t hij hdoes => ⟨hdoes.2 j (Ne.symm hij), hdoes.1⟩
    · exact fun i c s t hdoes => hdoes.1
  exact fun x hx => (hsound x hx).of_ready

/-- Decides `InOrder`. -/
def isInOrder (s : World) : Call → Bool
  | .api (.updateStatus .workPlacement o) => (s.placement o.key).all fun x =>
    (findCondition o.status.conditions ConditionType.scheduleSucceeded).all fun c =>
      c.status != .conditionTrue ||
        (findCondition x.status.conditions ConditionType.scheduleSucceeded == some c ||
          conditionStatus x.status.conditions ConditionType.writeSucceeded == some .conditionTrue)
  | _ => true

theorem inOrder_of_isInOrder {s : World} {call : Call} (h : isInOrder s call = true) :
    InOrder s call := by
  unfold isInOrder at h
  unfold InOrder
  split
  · intro x c hx hc hstatus hnew
    dsimp only at h
    rw [hx, Option.all_some, hc, Option.all_some] at h
    simpa [hstatus, hnew] using h
  · trivial

/-- Everything is created, the WorkPlacement written, and then the Work scheduled. -/
def writtenFirst : Fin 5 → Operation
  | 0 => .change (.api (.create .destination WorkPlacementController.nestedDestination)) trivial
  | 1 => .change (.api (.create (.stateStore .bucket) WorkPlacementController.bucketStore)) trivial
  | 2 => .change (.api (.create .workPlacement ⟨{ ns := "default", name := "work.destination-group" },
      { targetDestinationName := "destination" }, {}⟩)) rfl
  | 3 => .reconcile "default" "work.destination-group"
  | 4 => .schedule WorkPlacementController.fileWork

set_option maxRecDepth 4096 in
theorem ready_of_reported_in_order_sample :
    ∃ (pool : Fin 5 → Prog Unit) (t : Session (Fin 5)) (x : WorkPlacement),
      Interleaves (inOrder plainExternals)
        (fun i => (writtenFirst i).program plainExternals, Session.start emptyWorld) (pool, t) ∧
      x ∈ t.world.cluster.objects .workPlacement ∧
      conditionStatus x.status.conditions ConditionType.ready = some .conditionTrue ∧
      conditionStatus x.status.conditions ConditionType.writeSucceeded = some .conditionTrue ∧
      conditionStatus x.status.conditions ConditionType.scheduleSucceeded ≠
        some .conditionFalse := by
  have hserve (i : Fin 5) (call : Call) (s : Session (Fin 5)) (r : call.Answer)
      (t : Session (Fin 5)) (h : (if isInOrder s.world call then serveSession plainExternals i call s
        else none) = some (r, t)) : inOrder plainExternals i call s r t := by
    split_ifs at h with horder
    exact ⟨concurrent_of_serveSession i call s r t h, inOrder_of_isInOrder horder⟩
  have hrun : (runAll (fun i call s => if isInOrder s.world call then
      serveSession plainExternals i call s else none)
      (fun i => (writtenFirst i).program plainExternals) [0, 1, 2, 3, 4]
      (Session.start emptyWorld)).any (fun t => (t.world.cluster.objects .workPlacement).any
        fun x => conditionStatus x.status.conditions ConditionType.ready =
          some .conditionTrue) = true := by
    decide +kernel
  obtain ⟨t, ht, hany⟩ := (Option.any_eq_true _ _).mp hrun
  obtain ⟨x, hx, hready⟩ := List.any_eq_true.mp hany
  obtain ⟨pool, hpool⟩ := Interleaves.of_runAll (h := inOrder plainExternals) hserve (by decide)
    (fun i _ => rfl) ht
  have hstart : AllSound emptyWorld := fun x hx => by cases hx
  exact ⟨pool, t, x, hpool, hx, of_decide_eq_true hready,
    ready_of_reported_in_order writtenFirst hstart hpool x hx (of_decide_eq_true hready)⟩

end Kratix.Readiness
