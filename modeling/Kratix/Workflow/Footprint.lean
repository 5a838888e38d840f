import Kratix.Footprint
import Kratix.Workflow.Reconciler

/-!
# What the workflow reconciler writes

For every part of the reconciler, the calls that it makes and the policies that
it obeys.
-/

namespace Kratix.Workflow

open Apiserver Effect

/-- Among the calls are all that change nothing. -/
structure Observing (P : Call → Prop) : Prop where
  list : ∀ k ns sel, P (.api (.list k ns sel))
  get : ∀ ns name, P (.api (.get .serviceAccount ns name))
  uuid : P .newUUID
  now : P .now

theorem observing_obeys (policy : Policy) : Observing (Call.Obeys policy) :=
  ⟨fun _ _ _ => trivial, fun _ _ => trivial, trivial, trivial⟩

section Calls

variable {env : Externals} {p : ParentKind} {opts : Opts p} {P : Call → Prop}

/-! ### Reading -/

section

variable (hP : Observing P)
include hP

theorem calls_generateResources (fs : List PipelineFactory) :
    (generateResources env fs).Calls P := by
  induction fs with
  | nil => exact calls_pure _
  | cons f fs ih =>
    refine calls_bind (calls_bind (calls_perform.mpr hP.uuid) fun _ => calls_pure _) ?_
    rintro (e | res)
    · exact calls_pure _
    · refine calls_bind ih ?_
      rintro (e | rest) <;> exact calls_pure _

theorem calls_getJobsWithLabels (labels : Labels) (ns : String) :
    (getJobsWithLabels env labels ns).Calls P := by
  unfold getJobsWithLabels
  split
  · exact calls_pure _
  · refine calls_bind (calls_perform.mpr (hP.list _ _ _)) ?_
    rintro (e | jobs) <;> exact calls_pure _

theorem calls_getAllJobs : (getAllJobs env opts).Calls P := by
  refine calls_bind (calls_getJobsWithLabels hP _ _) ?_
  rintro (e | current)
  · exact calls_pure _
  · refine calls_bind (calls_getJobsWithLabels hP _ _) ?_
    rintro (e | legacy) <;> exact calls_pure _

theorem calls_getStale {k : Kind} (same : scheme.Obj k → scheme.Obj k → Bool)
    (desired : List (scheme.Obj k)) (selector : Selector) :
    (getStale k same desired selector).Calls P := by
  refine calls_bind (calls_perform.mpr (hP.list _ _ _)) ?_
  rintro ((_ | _ | _ | _ | _) | l) <;> exact calls_pure _

theorem calls_getObjectsToDelete (pipeline : PipelineJobResources) :
    (getObjectsToDelete pipeline).Calls P := by
  refine calls_bind (calls_getStale hP _ _ _) ?_
  rintro (e | roles)
  · exact calls_pure _
  refine calls_bind (calls_getStale hP _ _ _) ?_
  rintro (e | clusterRoles)
  · exact calls_pure _
  refine calls_bind (calls_getStale hP _ _ _) ?_
  rintro (e | roleBindings)
  · exact calls_pure _
  refine calls_bind (calls_getStale hP _ _ _) ?_
  rintro (e | clusterRoleBindings) <;> exact calls_pure _

theorem calls_getExistingWorks (ns : String) (l : Labels) :
    (getExistingWorks env ns l).Calls P := by
  unfold getExistingWorks
  split
  · exact calls_pure _
  · refine calls_bind (calls_perform.mpr (hP.list _ _ _)) ?_
    rintro (e | works) <;> exact calls_pure _

/-! ### The parent object -/

theorem calls_setConfigureWorkflowCompletedConditionStatus
    (h : ∀ o, P (.api (.updateStatus (.parent p) o))) (b : Bool) :
    (setConfigureWorkflowCompletedConditionStatus opts b).Calls P := by
  unfold setConfigureWorkflowCompletedConditionStatus
  split
  · exact calls_pure _
  · split
    · exact calls_pure _
    · refine calls_bind (calls_perform.mpr hP.now) fun now => ?_
      refine calls_bind (calls_perform.mpr (h _)) ?_
      rintro (e | o) <;> exact calls_pure _

theorem calls_markAsFailed (h : ∀ o, P (.api (.updateStatus (.parent p) o))) (obj : Parent p)
    (name : String) : (markAsFailed obj name).Calls P := by
  refine calls_bind (calls_perform.mpr hP.now) fun now => ?_
  refine calls_bind (calls_perform.mpr (h _)) ?_
  rintro (e | o) <;> exact calls_pure _

end

theorem calls_updateCounters (h : ∀ o, P (.api (.updateStatus (.parent p) o))) (obj : Parent p)
    (i : ℕ) : (updateCounters obj i).Calls P := by
  unfold updateCounters
  split
  · refine calls_bind (calls_perform.mpr (h _)) ?_
    rintro (e | o) <;> exact calls_pure _
  · exact calls_pure _

theorem calls_consumeManualReconciliation
    (h : ∀ labels, P (.api (.update (.parent p) (withLabels opts.parentObject labels)))) :
    (consumeManualReconciliation opts).Calls P := by
  unfold consumeManualReconciliation
  split
  · refine calls_bind (calls_perform.mpr (h _)) ?_
    rintro (e | o) <;> exact calls_pure _
  · exact calls_pure _

/-! ### Creating and deleting -/

theorem calls_applyResource (hP : Observing P) {o : AnyObject} (hcreate : P (.api (.create o.1 o.2)))
    (hupdate : P (.api (.update o.1 o.2))) : (applyResource o).Calls P := by
  refine calls_bind (calls_perform.mpr hcreate) ?_
  rintro ((_ | _ | _ | _ | _) | x)
  case error.alreadyExists =>
    dsimp only
    split
    · refine calls_bind (calls_perform.mpr (hP.get _ _)) ?_
      rintro (e | sa)
      · exact calls_pure _
      · dsimp only
        split
        · exact calls_pure _
        · exact calls_bind (calls_perform.mpr hupdate) fun _ => calls_pure _
    · exact calls_bind (calls_perform.mpr hupdate) fun _ => calls_pure _
  all_goals exact calls_pure _

theorem calls_applyResources (hP : Observing P) {objs : List AnyObject}
    (hcreate : ∀ o ∈ objs, P (.api (.create o.1 o.2)))
    (hupdate : ∀ o ∈ objs, P (.api (.update o.1 o.2))) : (applyResources objs).Calls P := by
  induction objs with
  | nil => exact calls_pure _
  | cons o objs ih =>
    refine calls_bind (calls_applyResource hP (hcreate o List.mem_cons_self)
      (hupdate o List.mem_cons_self)) fun _ => ?_
    exact ih (fun o' ho' => hcreate o' (List.mem_cons_of_mem _ ho'))
      fun o' ho' => hupdate o' (List.mem_cons_of_mem _ ho')

theorem calls_deleteResources {objs : List AnyObject}
    (h : ∀ o ∈ objs, ∀ ns name, P (.api (.delete o.1 ns name))) :
    (deleteResources objs).Calls P := by
  induction objs with
  | nil => exact calls_pure _
  | cons o objs ih =>
    exact calls_bind (calls_perform.mpr (h o List.mem_cons_self _ _)) fun _ =>
      ih fun o' ho' => h o' (List.mem_cons_of_mem _ ho')

theorem calls_suspendJob (h : ∀ ns name f, P (.api (.patch .job ns name f))) (job : Job) :
    (suspendJob job).Calls P := by
  refine calls_bind (calls_perform.mpr (h _ _ _)) ?_
  rintro (e | o) <;> exact calls_pure _

theorem calls_deleteJobs (h : ∀ ns name, P (.api (.delete .job ns name))) (jobs : List Job) :
    (deleteJobs jobs).Calls P := by
  induction jobs with
  | nil => exact calls_pure _
  | cons job jobs ih =>
    refine calls_bind (calls_perform.mpr (h _ _)) ?_
    rintro ((_ | _ | _ | _ | _) | x)
    case error.notFound => exact ih
    case ok => exact ih
    all_goals exact calls_pure _

theorem calls_cleanupPipelines (hP : Observing P)
    (h : ∀ ns name, P (.api (.delete .job ns name))) (ns : String)
    (pipelines : List PipelineJobResources) :
    (cleanupPipelines env opts ns pipelines).Calls P := by
  have hclean (jobs : List Job) : (cleanupJobs opts jobs).Calls P := by
    unfold cleanupJobs
    split
    · exact calls_pure _
    · exact calls_deleteJobs h _
  induction pipelines with
  | nil => exact calls_pure _
  | cons pipeline pipelines ih =>
    refine calls_bind (calls_getJobsWithLabels hP _ _) ?_
    rintro (e | jobs) <;> exact calls_bind (hclean _) fun _ => ih

theorem calls_deleteWorks (h : ∀ ns name, P (.api (.delete .work ns name))) (works : List Work) :
    (deleteWorks works).Calls P := by
  induction works with
  | nil => exact calls_pure _
  | cons w works ih =>
    refine calls_bind (calls_perform.mpr (h _ _)) ?_
    rintro (e | x)
    · exact calls_pure _
    · exact ih

theorem calls_cleanup (hP : Observing P) (hjob : ∀ ns name, P (.api (.delete .job ns name)))
    (hwork : ∀ ns name, P (.api (.delete .work ns name))) (ns : String) :
    (cleanup env opts ns).Calls P := by
  refine calls_bind (calls_cleanupPipelines hP hjob _ _) fun _ => ?_
  refine calls_bind (calls_getExistingWorks hP _ _) ?_
  rintro (e | works)
  · exact calls_pure _
  · exact calls_deleteWorks hwork _

end Calls

/-! ### Policies -/

variable {env : Externals} {p : ParentKind} {opts : Opts p} {policy : Policy}

theorem obeys_generateResources (fs : List PipelineFactory) :
    Obeys policy (generateResources env fs) :=
  calls_generateResources (observing_obeys policy) fs

theorem obeys_getJobsWithLabels (labels : Labels) (ns : String) :
    Obeys policy (getJobsWithLabels env labels ns) :=
  calls_getJobsWithLabels (observing_obeys policy) labels ns

theorem obeys_getAllJobs : Obeys policy (getAllJobs env opts) :=
  calls_getAllJobs (observing_obeys policy)

theorem obeys_getObjectsToDelete (pipeline : PipelineJobResources) :
    Obeys policy (getObjectsToDelete pipeline) :=
  calls_getObjectsToDelete (observing_obeys policy) pipeline

theorem obeys_getExistingWorks (ns : String) (l : Labels) :
    Obeys policy (getExistingWorks env ns l) :=
  calls_getExistingWorks (observing_obeys policy) ns l

theorem obeys_updateCounters (h : policy.status (.parent p)) (obj : Parent p) (i : ℕ) :
    Obeys policy (updateCounters obj i) := calls_updateCounters (fun _ => h) obj i

theorem obeys_setConfigureWorkflowCompletedConditionStatus (h : policy.status (.parent p))
    (b : Bool) : Obeys policy (setConfigureWorkflowCompletedConditionStatus opts b) :=
  calls_setConfigureWorkflowCompletedConditionStatus (observing_obeys policy) (fun _ => h) b

theorem obeys_markAsFailed (h : policy.status (.parent p)) (obj : Parent p) (name : String) :
    Obeys policy (markAsFailed obj name) :=
  calls_markAsFailed (observing_obeys policy) (fun _ => h) obj name

theorem obeys_consumeManualReconciliation
    (h : ∀ labels, policy.write ⟨.parent p, withLabels opts.parentObject labels⟩) :
    Obeys policy (consumeManualReconciliation opts) := calls_consumeManualReconciliation h

theorem obeys_applyResource {o : AnyObject} (h : policy.write o) : Obeys policy (applyResource o) :=
  calls_applyResource (observing_obeys policy) h h

theorem obeys_applyResources {objs : List AnyObject} (h : ∀ o ∈ objs, policy.write o) :
    Obeys policy (applyResources objs) := calls_applyResources (observing_obeys policy) h h

theorem obeys_deleteResources {objs : List AnyObject} (h : ∀ o ∈ objs, policy.delete o.1) :
    Obeys policy (deleteResources objs) := calls_deleteResources fun o ho _ _ => h o ho

theorem obeys_suspendJob (h : policy.patch .job) (job : Job) : Obeys policy (suspendJob job) :=
  calls_suspendJob (fun _ _ _ => h) job

theorem obeys_deleteWorks (h : policy.delete .work) (works : List Work) :
    Obeys policy (deleteWorks works) := calls_deleteWorks (fun _ _ => h) works

theorem obeys_cleanup (hj : policy.delete .job) (hw : policy.delete .work) (ns : String) :
    Obeys policy (cleanup env opts ns) :=
  calls_cleanup (observing_obeys policy) (fun _ _ => hj) (fun _ _ => hw) ns

end Kratix.Workflow
