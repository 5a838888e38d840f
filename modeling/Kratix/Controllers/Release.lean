import Kratix.Controllers.Deletion

/-!
# A deleted WorkPlacement is released

When every call works, a reconcile of a deleted WorkPlacement removes one of the
finalizers, so two of them release it. The exceptions are states that the
deletion cannot get past; a WorkPlacement that was deleted before its state file
was first written is one of them.
-/

namespace Kratix.WorkPlacementController

open Apiserver Effect GoPath

variable {env : Externals} {s t : World} {wp : WorkPlacement} {dest : Destination} {w : Writer}

def kratixFinalizers : List String := [Finalizer.repoCleanup, Finalizer.kratixFileCleanup]

/-- The WorkPlacement is gone, or has lost one of the finalizers and got no new one. -/
def Advanced (wp : WorkPlacement) (t : World) : Prop :=
  ∀ x, t.cluster.find .workPlacement wp.key = some x →
    x.metadata.finalizers ⊆ wp.metadata.finalizers ∧
      ∃ f ∈ kratixFinalizers, f ∈ wp.metadata.finalizers ∧ f ∉ x.metadata.finalizers

/-- The WorkPlacement is gone, unless finalizers of others hold it. -/
def Released (wp : WorkPlacement) (t : World) : Prop :=
  ∀ x, t.cluster.find .workPlacement wp.key = some x →
    x.metadata.finalizers ≠ [] ∧ ∀ f ∈ kratixFinalizers, f ∉ x.metadata.finalizers

/-- The files that are to be removed can be told. -/
def Tellable (env : Externals) (s : World) (wp : WorkPlacement) (dest : Destination) (w : Writer) :
    Prop :=
  match dest.spec.filepathMode with
  | .nestedByMetadata => True
  | .none => readFile w (kratixFilePath wp) (s.files w.backend) ≠ .error .fileNotFound ∧
      ∀ content, readFile w (kratixFilePath wp) (s.files w.backend) = .ok content →
        (env.unmarshalStateFile content).isSome = true
  | .aggregatedYAML => (workloadsOf (activeWorkPlacements s wp.spec.targetDestinationName)).all
      (isReadable env) = true

/-- The Destination is gone, or its state store exists and the files that are still to
be removed can be told. -/
def Releasable (env : Externals) (s : World) (wp : WorkPlacement) : Prop :=
  s.cluster.find .destination ("", wp.spec.targetDestinationName) = none ∨
    ∃ dest w, Targets s wp dest w ∧
      (Finalizer.repoCleanup ∈ wp.metadata.finalizers → Tellable env s wp dest w)

/-! ### What a removed finalizer leaves -/

theorem Loses.find {fs : List String} (h : Loses fs wp s t) :
    t.cluster.find .workPlacement wp.key = (withoutFinalizers fs wp).settle :=
  h.find_self

theorem Loses.finalizers {fs : List String} (h : Loses fs wp s t) {x : WorkPlacement}
    (hx : t.cluster.find .workPlacement wp.key = some x) :
    x = withoutFinalizers fs wp := by
  rw [h.find] at hx
  exact Object.settle_eq_some hx

theorem Loses.advanced {fs : List String} (h : Loses fs wp s t) {f : String} (hfs : f ∈ fs)
    (hkratix : f ∈ kratixFinalizers) (hf : f ∈ wp.metadata.finalizers) : Advanced wp t := by
  intro x hx
  obtain rfl := h.finalizers hx
  refine ⟨fun g hg => (mem_withoutFinalizers.mp hg).1, f, hkratix, hf, fun hmem => ?_⟩
  exact (mem_withoutFinalizers.mp hmem).2 hfs

theorem Loses.finalizers_ne_nil {fs : List String} (h : Loses fs wp s t)
    (hdel : wp.metadata.deleting = true) {x : WorkPlacement}
    (hx : t.cluster.find .workPlacement wp.key = some x) : x.metadata.finalizers ≠ [] := by
  obtain rfl := h.finalizers hx
  intro hnil
  have hdel' : (withoutFinalizers fs wp).metadata.deleting = true := hdel
  rw [h.find, Object.settle, hdel', hnil] at hx
  cases hx

theorem Loses.released {fs : List String} (h : Loses fs wp s t)
    (hdel : wp.metadata.deleting = true)
    (hall : ∀ f ∈ kratixFinalizers, f ∈ wp.metadata.finalizers → f ∈ fs) : Released wp t := by
  intro x hx
  refine ⟨h.finalizers_ne_nil hdel hx, fun f hf hmem => ?_⟩
  obtain rfl := h.finalizers hx
  obtain ⟨hold, hnot⟩ := mem_withoutFinalizers.mp hmem
  exact hnot (hall f hf hold)

theorem not_advanced (hf : s.cluster.find .workPlacement wp.key = some wp) : ¬ Advanced wp s := by
  intro h
  obtain ⟨-, f, -, hmem, hnot⟩ := h wp hf
  exact hnot hmem

/-! ### One reconcile -/

/-- The finalizers that one reconcile of a releasable WorkPlacement removes: at
least the first of those that are left. -/
structure TakesNext (fs : List String) (wp : WorkPlacement) (s t : World) : Prop where
  loses : Loses fs wp s t
  repo : Finalizer.repoCleanup ∈ wp.metadata.finalizers → Finalizer.repoCleanup ∈ fs
  file : Finalizer.repoCleanup ∉ wp.metadata.finalizers →
    Finalizer.kratixFileCleanup ∈ wp.metadata.finalizers → Finalizer.kratixFileCleanup ∈ fs

theorem takesNext_repo (hpending : Finalizer.repoCleanup ∈ wp.metadata.finalizers)
    (h : Loses [Finalizer.repoCleanup] wp s t) : TakesNext [Finalizer.repoCleanup] wp s t :=
  ⟨h, fun _ => List.mem_singleton.mpr rfl, fun hnot => absurd hpending hnot⟩

theorem Deletes.takesNext (h : Deletes env dest w wp s t)
    (htell : Finalizer.repoCleanup ∈ wp.metadata.finalizers → Tellable env s wp dest w) :
    (t = s ∧ ∀ f ∈ kratixFinalizers, f ∉ wp.metadata.finalizers) ∨ ∃ fs, TakesNext fs wp s t := by
  cases h with
  | directory hpending hmode h => exact Or.inr ⟨_, takesNext_repo hpending h.loses⟩
  | listed hpending hmode content files hread hparse h =>
    exact Or.inr ⟨_, takesNext_repo hpending h.loses⟩
  | missing hpending hmode hread =>
    have htold := htell hpending
    rw [Tellable, hmode] at htold
    exact absurd hread htold.1
  | unparsable hpending hmode content hread hparse =>
    have htold := htell hpending
    rw [Tellable, hmode] at htold
    have hsome := htold.2 content hread
    rw [hparse] at hsome
    cases hsome
  | unreadable hpending hmode hread =>
    have htold := htell hpending
    rw [Tellable, hmode] at htold
    exact absurd (hread.symm.trans htold) (by decide)
  | regenerated hpending hmode active hperm hne hread h =>
    exact Or.inr ⟨_, takesNext_repo hpending h.loses⟩
  | emptied hpending hmode hactive h => exact Or.inr ⟨_, takesNext_repo hpending h.loses⟩
  | stateFile hdone hpending h =>
    exact Or.inr ⟨_, h.loses, fun hrepo => absurd hrepo hdone, fun _ _ => List.mem_singleton.mpr rfl⟩
  | released hdone hfile =>
    refine Or.inl ⟨rfl, fun f hf => ?_⟩
    rcases List.mem_pair.mp hf with rfl | rfl
    · exact hdone
    · exact hfile

theorem DeletionStep.takesNext (h : DeletionStep env wp s t) (hrel : Releasable env s wp) :
    (t = s ∧ ∀ f ∈ kratixFinalizers, f ∉ wp.metadata.finalizers) ∨ ∃ fs, TakesNext fs wp s t := by
  cases h with
  | withoutDestination hmissing h hfiles =>
    exact Or.inr ⟨_, h, fun _ => by simp, fun _ _ => by simp⟩
  | withoutStore dest hdest hmissing ht =>
    rcases hrel with hnone | ⟨dest', w, htargets, -⟩
    · cases hnone.symm.trans hdest
    · obtain rfl : dest' = dest := Option.some.inj (htargets.destination.symm.trans hdest)
      obtain ⟨store, hstore, -⟩ := htargets.store
      cases hmissing.symm.trans hstore
  | withWriter dest w htargets h =>
    rcases hrel with hnone | ⟨dest', w', htargets', htell⟩
    · cases hnone.symm.trans htargets.destination
    · obtain rfl : dest' = dest :=
        Option.some.inj (htargets'.destination.symm.trans htargets.destination)
      obtain ⟨store, hstore, rfl⟩ := htargets.store
      obtain ⟨store', hstore', rfl⟩ := htargets'.store
      obtain rfl : store' = store := Option.some.inj (hstore'.symm.trans hstore)
      exact h.takesNext htell

theorem TakesNext.advanced {fs : List String} (h : TakesNext fs wp s t)
    (hheld : ∃ f ∈ kratixFinalizers, f ∈ wp.metadata.finalizers) : Advanced wp t := by
  by_cases hrepo : Finalizer.repoCleanup ∈ wp.metadata.finalizers
  · exact h.loses.advanced (h.repo hrepo) (by decide) hrepo
  · obtain ⟨f, hf, hmem⟩ := hheld
    rcases List.mem_pair.mp hf with rfl | rfl
    · exact absurd hmem hrepo
    · exact h.loses.advanced (h.file hrepo hmem) (by decide) hmem

/-! ### The next reconcile -/

/-- Of a releasable WorkPlacement at most the state file is left. -/
theorem TakesNext.releasable {fs : List String} (h : TakesNext fs wp s t)
    (hrel : Releasable env s wp) : Releasable env t (withoutFinalizers fs wp) := by
  have hsame (k : Kind) (hk : k ≠ .workPlacement) (key : String × String) :
      t.cluster.find k key = s.cluster.find k key := by
    rw [Cluster.find, Cluster.find, h.loses.others k hk]
  rcases hrel with hnone | ⟨dest, w, htargets, -⟩
  · exact Or.inl ((hsame _ (by decide) _).trans hnone)
  · obtain ⟨store, hstore, hw⟩ := htargets.store
    refine Or.inr ⟨dest, w, ⟨(hsame _ (by decide) _).trans htargets.destination, store,
      (hsame _ (by simp) _).trans hstore, hw⟩, fun hrepo => ?_⟩
    obtain ⟨hold, hnot⟩ := mem_withoutFinalizers.mp hrepo
    exact absurd (h.repo hold) hnot

theorem exec_reconcile_missing {ns name : String} {r : ReconcileResult}
    (hnone : s.cluster.find .workPlacement (ns, name) = none)
    (he : Exec (unordered env) (reconcile env ns name) s r t) : t = s := by
  obtain ⟨a, u, hget, he₁⟩ := exec_bind.mp he
  obtain ⟨rfl, ⟨rfl, -⟩ | ⟨wp, rfl, hfound⟩⟩ := exec_getObject_unordered hget
  · exact he₁.2
  · cases hnone.symm.trans hfound

theorem TakesNext.released {fs : List String} {u : World} {r : ReconcileResult}
    (h : TakesNext fs wp s t) (hrel : Releasable env s wp) (hdel : wp.metadata.deleting = true)
    (he : Exec (unordered env) (reconcile env wp.metadata.ns wp.metadata.name) t r u) :
    Released wp u := by
  cases hx : t.cluster.find .workPlacement wp.key with
  | none =>
    obtain rfl := exec_reconcile_missing hx he
    intro x hx'
    cases hx.symm.trans hx'
  | some x =>
    have hne := h.loses.finalizers_ne_nil hdel hx
    obtain rfl := h.loses.finalizers hx
    have hstep := @exec_reconcile_deleting env t u (withoutFinalizers fs wp) r hx hdel he
    rcases hstep.takesNext (h.releasable hrel) with ⟨rfl, hclear⟩ | ⟨fs', h'⟩
    · intro y hy
      obtain rfl : _ = y := Option.some.inj (hx.symm.trans hy)
      exact ⟨hne, hclear⟩
    · refine h'.loses.released hdel fun f hf hmem => ?_
      rcases List.mem_pair.mp hf with rfl | rfl
      · exact h'.repo hmem
      · refine h'.file (fun hrepo => ?_) hmem
        obtain ⟨hold, hnot⟩ := mem_withoutFinalizers.mp hrepo
        exact hnot (h.repo hold)

/-! ### States that stop the deletion -/

theorem answers_getAllWorkplacementsForDestination (env : Externals) (s : World) (name : String) :
    Exec (unfailing env) (getAllWorkplacementsForDestination name) s
      (.ok (activeWorkPlacements s name)) s :=
  exec_bind.mpr ⟨_, s, answers_listObjects env _ _ _ s, rfl, rfl⟩

theorem stuck_deleteFromDestination
    (hpending : Finalizer.repoCleanup ∈ wp.metadata.finalizers)
    (htell : ¬ Tellable env s wp dest w) :
    ∃ r, Exec (unfailing env) (deleteFromDestination env dest w wp) s r s := by
  unfold deleteFromDestination
  rw [if_pos (containsFinalizer_iff.mpr hpending)]
  unfold Tellable at htell
  cases hmode : dest.spec.filepathMode with
  | nestedByMetadata => simp [hmode] at htell
  | none =>
    rw [hmode] at htell
    cases hfile : readFile w (kratixFilePath wp) (s.files w.backend) with
    | error e =>
      have hmissing : e = .fileNotFound := by
        by_contra hne
        exact htell (by simp [hfile, hne])
      subst hmissing
      refine ⟨_, exec_bind.mpr ⟨.error .fileNotFound, s, exec_perform.mpr ⟨⟨hfile.symm, rfl⟩, ?_⟩,
        rfl, rfl⟩⟩
      exact fun e he => (Except.error.inj he).symm
    | ok content =>
      have hparse : env.unmarshalStateFile content = none := by
        simpa [hfile] using htell
      refine ⟨⟨.default, some (.message "failed to unmarshal .kratix state file")⟩,
        exec_bind.mpr ⟨.ok content, s, exec_perform.mpr ⟨⟨hfile.symm, rfl⟩, ?_⟩, ?_⟩⟩
      · exact fun e he => by cases he
      · simp only [hparse]
        exact ⟨rfl, rfl⟩
  | aggregatedYAML =>
    simp only [hmode, Bool.not_eq_true] at htell
    have hlist := answers_getAllWorkplacementsForDestination env s wp.spec.targetDestinationName
    cases hactive : activeWorkPlacements s wp.spec.targetDestinationName with
    | nil => simp [hactive, workloadsOf] at htell
    | cons x rest =>
      rw [hactive] at hlist htell
      have hyaml : Exec (unfailing env) (handleAggregatedYAML env wp dest [] w) s
          (.error (.message "unable to decompress file content")) s := by
        refine exec_bind.mpr ⟨_, s, hlist, ?_⟩
        simp only [combineWorkloads_eq, htell, Bool.false_eq_true, if_false]
        exact ⟨rfl, rfl⟩
      exact ⟨_, exec_bind.mpr ⟨_, s, hyaml, rfl, rfl⟩⟩

/-- In any other state a reconcile can end without a change. -/
theorem stuck_reconcile (hf : s.cluster.find .workPlacement wp.key = some wp)
    (hdel : wp.metadata.deleting = true) (hrel : ¬ Releasable env s wp) :
    ∃ r, Exec (unfailing env) (reconcile env wp.metadata.ns wp.metadata.name) s r s := by
  obtain ⟨hdest, hwriter⟩ := not_or.mp hrel
  obtain ⟨dest, hdest⟩ := Option.ne_none_iff_exists'.mp hdest
  -- the WorkPlacement and its Destination are read, and the rest is the deletion
  suffices hdeletion : ∃ r, Exec (unfailing env) (handleDeletion env wp (.ok dest)) s r s by
    obtain ⟨r, hr⟩ := hdeletion
    refine ⟨r, exec_bind.mpr ⟨_, s, answers_getObject env hf, ?_⟩⟩
    refine exec_bind.mpr ⟨_, s, answers_getObject env hdest, ?_⟩
    rw [if_pos hdel]
    exact hr
  cases hstore : s.cluster.find (.stateStore dest.spec.stateStoreRef.kind)
      ("", dest.spec.stateStoreRef.name) with
  | none =>
    have hnew : Exec (unfailing env) (newWriter dest.spec.stateStoreRef dest.spec.path) s
        (.error (.api .notFound)) s :=
      exec_bind.mpr ⟨_, s, answers_getObject_missing env hstore, rfl, rfl⟩
    exact ⟨_, exec_bind.mpr ⟨_, s, hnew, rfl, rfl⟩⟩
  | some store =>
    have hpending : ¬ (Finalizer.repoCleanup ∈ wp.metadata.finalizers → Tellable env s wp dest _) :=
      fun htell => hwriter ⟨dest, _, ⟨hdest, store, hstore, rfl⟩, htell⟩
    obtain ⟨hpending, htell⟩ := Classical.not_imp.mp hpending
    obtain ⟨r, hr⟩ := stuck_deleteFromDestination hpending htell
    exact ⟨r, exec_bind.mpr ⟨_, s, exists_newWriter dest.spec.path hstore, hr⟩⟩

/-! ### A WorkPlacement that was never written -/

/-- A Destination without directories of their own for WorkPlacements. -/
def flatDestination : Destination :=
  ⟨{ name := "destination" },
    { path := ["destination"], stateStoreRef := ⟨.bucket, "store"⟩, filepathMode := .none }, {}⟩

/-- A Destination with a directory for each WorkPlacement. -/
def nestedDestination : Destination :=
  ⟨{ name := "destination" },
    { path := ["destination"], stateStoreRef := ⟨.bucket, "store"⟩ }, {}⟩

def bucketStore : StateStore := ⟨{ name := "store" }, ⟨[], "bucket"⟩, ()⟩

def fileWork : Work :=
  ⟨{ ns := "default", name := "work" },
    { workloadGroups := [⟨[⟨["file.yaml"], [1]⟩], [], "group", []⟩], promiseName := "promise" }, {}⟩

/-- The Work is scheduled, and its WorkPlacement deleted before it is reconciled. -/
def scheduleAndDelete (env : Externals) (dest : Destination) : Prog (Except ApiError WorkPlacement) := do
  let _ ← createObject .destination dest
  let _ ← createObject (.stateStore .bucket) bucketStore
  match ← createObject .work fileWork with
  | .error e => return .error e
  | .ok work =>
    let _ ← reconcileWork env work
    let _ ← deleteObject .workPlacement "default" "work.destination-group"
    getObject .workPlacement "default" "work.destination-group"

/-- The WorkPlacement is stored, deleted, and held by the scheduler's finalizer. -/
def heldIn (s : World) (wp : WorkPlacement) : Bool :=
  s.cluster.find .workPlacement wp.key = some wp &&
    (wp.metadata.deleting && wp.metadata.finalizers = [Finalizer.repoCleanup])

theorem heldIn_iff : heldIn s wp = true ↔ s.cluster.find .workPlacement wp.key = some wp ∧
    wp.metadata.deleting = true ∧ wp.metadata.finalizers = [Finalizer.repoCleanup] := by
  simp [heldIn]

/-- The state after one reconcile without failures, if there is one. -/
def nextWorld (s : World) (wp : WorkPlacement) : Option (ReconcileResult × World) :=
  eval (serveAnswered plainExternals)
    (reconcile plainExternals wp.metadata.ns wp.metadata.name) s

/-- The Destination has directories for its WorkPlacements, and its state store exists. -/
def hasDirectory (s : World) (wp : WorkPlacement) : Bool :=
  (s.cluster.find .destination ("", wp.spec.targetDestinationName)).any fun dest =>
    dest.spec.filepathMode = .nestedByMetadata &&
      (s.cluster.find (.stateStore dest.spec.stateStoreRef.kind)
        ("", dest.spec.stateStoreRef.name)).isSome

theorem releasable_of_hasDirectory (h : hasDirectory s wp = true) : Releasable env s wp := by
  obtain ⟨dest, hdest, h⟩ := (Option.any_eq_true _ _).mp h
  obtain ⟨hmode, hstore⟩ := Bool.and_eq_true_iff.mp h
  obtain ⟨store, hstore⟩ := Option.isSome_iff_exists.mp hstore
  refine Or.inr ⟨dest, _, ⟨hdest, store, hstore, rfl⟩, fun _ => ?_⟩
  rw [Tellable, of_decide_eq_true hmode]
  trivial

end Kratix.WorkPlacementController
