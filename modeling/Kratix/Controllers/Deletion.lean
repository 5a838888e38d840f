import Kratix.Controllers.WorkPlacement

/-!
# Deleting a WorkPlacement

What one reconcile of a deleted WorkPlacement does when every call works: it
removes files and then the finalizer that stood for them, or it stops before
any change.
-/

namespace Kratix.WorkPlacementController

open Apiserver Effect GoPath

variable {env : Externals} {s t : World} {wp : WorkPlacement} {dest : Destination} {w : Writer}

/-! ### The writer of a WorkPlacement -/

/-- The Destination of a WorkPlacement, and the writer for it. -/
structure Targets (s : World) (wp : WorkPlacement) (dest : Destination) (w : Writer) : Prop where
  destination : s.cluster.find .destination ("", wp.spec.targetDestinationName) = some dest
  store : ∃ store, s.cluster.find (.stateStore dest.spec.stateStoreRef.kind)
      ("", dest.spec.stateStoreRef.name) = some store ∧
    w = newStateStoreWriter dest.spec.stateStoreRef.kind store.spec dest.spec.path

theorem exec_getObject_unordered {k : Kind} {ns name : String}
    {r : Except ApiError (scheme.Obj k)} (he : Exec (unordered env) (getObject k ns name) s r t) :
    t = s ∧ (r = .error .notFound ∧ s.cluster.find k (ns, name) = none ∨
      ∃ o, r = .ok o ∧ s.cluster.find k (ns, name) = some o) :=
  exec_getObject_unfailing (exec_unordered (fun k ns sel h => by cases h) he)

theorem exec_newWriter {ref : StateStoreRef} {path : Path} {r : Except Failure Writer}
    (he : Exec (unordered env) (newWriter ref path) s r t) : t = s ∧
      (r = .error (.api .notFound) ∧ s.cluster.find (.stateStore ref.kind) ("", ref.name) = none ∨
        ∃ store, s.cluster.find (.stateStore ref.kind) ("", ref.name) = some store ∧
          r = .ok (newStateStoreWriter ref.kind store.spec path)) := by
  obtain ⟨a, u, hget, he₁⟩ := exec_bind.mp he
  obtain ⟨rfl, ⟨rfl, hnone⟩ | ⟨store, rfl, hfound⟩⟩ := exec_getObject_unordered hget
  · obtain ⟨rfl, rfl⟩ := he₁
    exact ⟨rfl, Or.inl ⟨rfl, hnone⟩⟩
  · obtain ⟨b, v, hconnect, he₂⟩ := exec_bind.mp he₁
    obtain ⟨⟨rfl, rfl⟩, -⟩ := exec_perform.mp hconnect
    obtain ⟨rfl, rfl⟩ := he₂
    exact ⟨rfl, Or.inr ⟨store, hfound, rfl⟩⟩

theorem exists_newWriter {ref : StateStoreRef} (path : Path) {store : StateStore}
    (hstore : s.cluster.find (.stateStore ref.kind) ("", ref.name) = some store) :
    Exec (unfailing env) (newWriter ref path) s
      (.ok (newStateStoreWriter ref.kind store.spec path)) s := by
  refine exec_bind.mpr ⟨_, s, answers_getObject env hstore, ?_⟩
  exact exec_bind.mpr ⟨.ok (), s, exec_perform.mpr ⟨⟨rfl, rfl⟩, True.intro⟩, rfl, rfl⟩

/-! ### Decompressing -/

def isReadable (env : Externals) (workload : Workload) : Bool :=
  (env.decompressContent workload.content).isSome

def decompressed (env : Externals) (workload : Workload) : Workload :=
  { workload with content := (env.decompressContent workload.content).getD [] }

theorem decompressWorkloads_eq (env : Externals) (workloads : List Workload) :
    decompressWorkloads env workloads =
      if workloads.all (isReadable env) then .ok (workloads.map (decompressed env))
      else .error (.message "unable to decompress file content") := by
  induction workloads with
  | nil => rfl
  | cons workload rest ih =>
    rw [decompressWorkloads, ih]
    cases hread : env.decompressContent workload.content with
    | none =>
      simp only [List.all_cons, isReadable, hread, Option.isSome_none, Bool.false_and,
        Bool.false_eq_true, if_false]
      rfl
    | some content =>
      by_cases hrest : rest.all (isReadable env) = true
      · simp [isReadable, decompressed, hread, hrest, Bind.bind, Except.bind, pure, Except.pure]
      · simp [isReadable, hread, hrest, Bind.bind, Except.bind]

/-- The workloads of all these WorkPlacements. -/
def workloadsOf (workPlacements : List WorkPlacement) : List Workload :=
  workPlacements.flatMap fun x => x.spec.workloads

theorem combineWorkloads_eq (env : Externals) (workPlacements : List WorkPlacement) :
    combineWorkloads env workPlacements =
      if (workloadsOf workPlacements).all (isReadable env) then
        .ok ((workloadsOf workPlacements).map (decompressed env))
      else .error (.message "unable to decompress file content") :=
  decompressWorkloads_eq env _

def aggregated (env : Externals) (workPlacements : List WorkPlacement) : Bytes :=
  concatenateYAMLs ((workloadsOf workPlacements).map (decompressed env))

/-- The WorkPlacements labelled with the Destination that are not being deleted. -/
def activeWorkPlacements (s : World) (destinationName : String) : List WorkPlacement :=
  (s.cluster.listed .workPlacement "" (Selector.fromSet (destinationLabels destinationName))).filter
    fun x => !x.metadata.deleting

theorem exec_getAllWorkplacementsForDestination {name : String}
    {r : Except Failure (List WorkPlacement)}
    (he : Exec (unordered env) (getAllWorkplacementsForDestination name) s r t) :
    t = s ∧ ∃ active, r = .ok active ∧ active.Perm (activeWorkPlacements s name) := by
  obtain ⟨a, u, hlist, he₁⟩ := exec_bind.mp he
  obtain ⟨rfl, l, rfl, hperm⟩ := exec_listObjects_unordered hlist
  obtain ⟨rfl, rfl⟩ := he₁
  exact ⟨rfl, _, rfl, hperm.filter _⟩

theorem all_isReadable_of_perm (env : Externals) {l l' : List WorkPlacement} (hperm : l.Perm l') :
    (workloadsOf l).all (isReadable env) = (workloadsOf l').all (isReadable env) :=
  (hperm.flatMap_right _).all_eq

/-! ### Removing files and finalizers -/

/-- An update of the store by this writer, and of nothing else in the store. -/
def Stored (env : Externals) (w : Writer) (dir : Path) (create : List Workload)
    (delete : List Path) (s t : World) : Prop :=
  ∃ suffix files, updated env (cloneDirectory suffix) w dir create delete (s.files w.backend) =
    .ok files ∧ t.files = (s.withFiles w.backend files).files

def withoutFinalizers (fs : List String) (wp : WorkPlacement) : WorkPlacement :=
  withFinalizers wp (wp.metadata.finalizers.filter fun f => !fs.contains f)

theorem mem_withoutFinalizers {fs : List String} {f : String} :
    f ∈ (withoutFinalizers fs wp).metadata.finalizers ↔ f ∈ wp.metadata.finalizers ∧ f ∉ fs := by
  simp [withoutFinalizers, withFinalizers]

/-- The WorkPlacement loses these finalizers, and is gone with its last one. -/
def Loses (fs : List String) (wp : WorkPlacement) (s t : World) : Prop :=
  Replaces (S := scheme) Kind.workPlacement wp (withoutFinalizers fs wp).settle s.cluster t.cluster

/-- The store is updated, and then the finalizer removed. -/
structure Removal (env : Externals) (w : Writer) (dir : Path) (create : List Workload)
    (delete : List Path) (finalizer : String) (wp : WorkPlacement) (s t : World) : Prop where
  stored : Stored env w dir create delete s t
  loses : Loses [finalizer] wp s t
  cache : t.versionCache = s.versionCache

theorem exec_updateObject_finalizers {fs : List String} {r : Except ApiError WorkPlacement}
    (hf : s.cluster.find .workPlacement wp.key = some wp)
    (he : Exec (unordered env) (updateObject .workPlacement (withFinalizers wp fs)) s r t) :
    r = .ok (withFinalizers wp fs) ∧ ∃ c, Replaces (S := scheme) Kind.workPlacement wp
      (withFinalizers wp fs).settle s.cluster c ∧ t = s.withCluster c :=
  @exec_updateObject_stored env s t .workPlacement (withFinalizers wp fs) wp r hf
    (exec_unordered (fun k ns sel h => by cases h) he)

theorem removeFinalizer_eq (finalizer : String) :
    removeFinalizer wp finalizer = withoutFinalizers [finalizer] wp := by
  simp [removeFinalizer, withoutFinalizers]

theorem cleanupDeletionFinalizers_eq (wp : WorkPlacement) :
    cleanupDeletionFinalizers wp =
      withoutFinalizers [Finalizer.repoCleanup, Finalizer.kratixFileCleanup] wp := by
  simp [cleanupDeletionFinalizers, removeFinalizer, withoutFinalizers, withFinalizers,
    List.filter_filter, Bool.and_comm]

theorem removal_of_exec {dir : Path} {create : List Workload} {delete : List Path}
    {finalizer : String} {a : Except StoreError String} {b : Except ApiError WorkPlacement}
    {u : World} (hf : s.cluster.find .workPlacement wp.key = some wp)
    (hfiles : Exec (unordered env) (updateFiles w dir wp.metadata.name create delete) s a u)
    (hupdate : Exec (unordered env)
      (updateObject .workPlacement (removeFinalizer wp finalizer)) u b t) :
    (∃ x, b = .ok x) ∧ Removal env w dir create delete finalizer wp s t := by
  obtain ⟨versionID, suffix, files, rfl, hup, rfl⟩ :=
    exec_updateFiles_unfailing (exec_unordered (fun k ns sel h => by cases h) hfiles)
  rw [removeFinalizer_eq] at hupdate
  obtain ⟨rfl, c, hrep, rfl⟩ :=
    exec_updateObject_finalizers (s := s.withFiles w.backend files) hf hupdate
  exact ⟨⟨_, rfl⟩, ⟨suffix, files, hup, rfl⟩, hrep, rfl⟩

theorem exists_updateFiles {dir : Path} {name : String} {create : List Workload}
    {delete : List Path} {r : Except StoreError String}
    (he : Exec (unordered env) (updateFiles w dir name create delete) s r t) :
    ∃ versionID, r = .ok versionID := by
  obtain ⟨versionID, -, -, rfl, -⟩ :=
    exec_updateFiles_unfailing (exec_unordered (fun k ns sel h => by cases h) he)
  exact ⟨versionID, rfl⟩

theorem exec_delete {dir : Path} {paths : List Path} {finalizer : String} {r : ReconcileResult}
    (hf : s.cluster.find .workPlacement wp.key = some wp)
    (he : Exec (unordered env) (delete w dir wp paths finalizer) s r t) :
    Removal env w dir [] paths finalizer wp s t := by
  obtain ⟨a, u, hfiles, he₁⟩ := exec_bind.mp he
  obtain ⟨versionID, rfl⟩ := exists_updateFiles hfiles
  obtain ⟨b, v, hupdate, he₂⟩ := exec_bind.mp he₁
  obtain ⟨⟨x, rfl⟩, hremoval⟩ := removal_of_exec hf hfiles hupdate
  obtain ⟨-, rfl⟩ := he₂
  exact hremoval

/-- The regenerated file of a deleted WorkPlacement. -/
inductive Regenerated (env : Externals) (dest : Destination) (w : Writer) (wp : WorkPlacement)
    (s : World) : Except Failure (Workload × Bool) → World → Prop
  | unreadable (e : Failure)
      (hread : (workloadsOf (activeWorkPlacements s wp.spec.targetDestinationName)).all
        (isReadable env) = false) : Regenerated env dest w wp s (.error e) s
  | last (hactive : activeWorkPlacements s wp.spec.targetDestinationName = []) :
      Regenerated env dest w wp s (.ok (⟨[], []⟩, false)) s
  | written {t : World} (workload : Workload) (active : List WorkPlacement)
      (hperm : active.Perm (activeWorkPlacements s wp.spec.targetDestinationName))
      (hne : active ≠ []) (hread : (workloadsOf active).all (isReadable env) = true)
      (hremoval : Removal env w [] [⟨dest.spec.filename, aggregated env active⟩] []
        Finalizer.repoCleanup wp s t) : Regenerated env dest w wp s (.ok (workload, true)) t

theorem exec_handleAggregatedYAML {r : Except Failure (Workload × Bool)}
    (hf : s.cluster.find .workPlacement wp.key = some wp) (hdel : wp.metadata.deleting = true)
    (he : Exec (unordered env) (handleAggregatedYAML env wp dest [] w) s r t) :
    Regenerated env dest w wp s r t := by
  obtain ⟨a, u, hlist, he₁⟩ := exec_bind.mp he
  obtain ⟨rfl, active, rfl, hperm⟩ := exec_getAllWorkplacementsForDestination hlist
  cases active with
  | nil =>
    obtain ⟨rfl, rfl⟩ := he₁
    exact .last hperm.nil_eq.symm
  | cons x rest =>
    have hread := all_isReadable_of_perm env hperm
    dsimp only at he₁
    rw [combineWorkloads_eq] at he₁
    cases hall : (workloadsOf (x :: rest)).all (isReadable env) with
    | false =>
      rw [hall] at he₁
      obtain ⟨rfl, rfl⟩ := he₁
      exact .unreadable _ (hread ▸ hall)
    | true =>
      rw [hall] at he₁
      simp only [if_true, hdel] at he₁
      obtain ⟨b, v, hfiles, he₂⟩ := exec_bind.mp he₁
      obtain ⟨versionID, rfl⟩ := exists_updateFiles hfiles
      obtain ⟨c, y, hupdate, he₃⟩ := exec_bind.mp he₂
      obtain ⟨⟨z, rfl⟩, hremoval⟩ := removal_of_exec hf hfiles hupdate
      obtain ⟨rfl, rfl⟩ := he₃
      exact .written _ (x :: rest) hperm (by simp) hall hremoval

/-! ### One reconcile -/

/-- What one reconcile of a deleted WorkPlacement leaves, given its Destination. -/
inductive Deletes (env : Externals) (dest : Destination) (w : Writer) (wp : WorkPlacement)
    (s : World) : World → Prop
  | directory {t : World} (hpending : Finalizer.repoCleanup ∈ wp.metadata.finalizers)
      (hmode : dest.spec.filepathMode = .nestedByMetadata)
      (h : Removal env w (getDir wp ++ [""]) [] [] Finalizer.repoCleanup wp s t) :
      Deletes env dest w wp s t
  | listed {t : World} (hpending : Finalizer.repoCleanup ∈ wp.metadata.finalizers)
      (hmode : dest.spec.filepathMode = .none) (content : Bytes) (files : List Path)
      (hread : readFile w (kratixFilePath wp) (s.files w.backend) = .ok content)
      (hparse : env.unmarshalStateFile content = some files)
      (h : Removal env w [] [] files Finalizer.repoCleanup wp s t) : Deletes env dest w wp s t
  | missing (hpending : Finalizer.repoCleanup ∈ wp.metadata.finalizers)
      (hmode : dest.spec.filepathMode = .none)
      (hread : readFile w (kratixFilePath wp) (s.files w.backend) = .error .fileNotFound) :
      Deletes env dest w wp s s
  | unparsable (hpending : Finalizer.repoCleanup ∈ wp.metadata.finalizers)
      (hmode : dest.spec.filepathMode = .none) (content : Bytes)
      (hread : readFile w (kratixFilePath wp) (s.files w.backend) = .ok content)
      (hparse : env.unmarshalStateFile content = none) : Deletes env dest w wp s s
  | unreadable (hpending : Finalizer.repoCleanup ∈ wp.metadata.finalizers)
      (hmode : dest.spec.filepathMode = .aggregatedYAML)
      (hread : (workloadsOf (activeWorkPlacements s wp.spec.targetDestinationName)).all
        (isReadable env) = false) : Deletes env dest w wp s s
  | regenerated {t : World} (hpending : Finalizer.repoCleanup ∈ wp.metadata.finalizers)
      (hmode : dest.spec.filepathMode = .aggregatedYAML) (active : List WorkPlacement)
      (hperm : active.Perm (activeWorkPlacements s wp.spec.targetDestinationName))
      (hne : active ≠ []) (hread : (workloadsOf active).all (isReadable env) = true)
      (h : Removal env w [] [⟨dest.spec.filename, aggregated env active⟩] []
        Finalizer.repoCleanup wp s t) : Deletes env dest w wp s t
  | emptied {t : World} (hpending : Finalizer.repoCleanup ∈ wp.metadata.finalizers)
      (hmode : dest.spec.filepathMode = .aggregatedYAML)
      (hactive : activeWorkPlacements s wp.spec.targetDestinationName = [])
      (h : Removal env w [] [] [dest.spec.filename] Finalizer.repoCleanup wp s t) :
      Deletes env dest w wp s t
  | stateFile {t : World} (hdone : Finalizer.repoCleanup ∉ wp.metadata.finalizers)
      (hpending : Finalizer.kratixFileCleanup ∈ wp.metadata.finalizers)
      (h : Removal env w [] [] [kratixFilePath wp] Finalizer.kratixFileCleanup wp s t) :
      Deletes env dest w wp s t
  | released (hdone : Finalizer.repoCleanup ∉ wp.metadata.finalizers)
      (hfile : Finalizer.kratixFileCleanup ∉ wp.metadata.finalizers) : Deletes env dest w wp s s

theorem containsFinalizer_iff {finalizer : String} :
    containsFinalizer wp finalizer = true ↔ finalizer ∈ wp.metadata.finalizers :=
  List.contains_iff_mem

theorem exec_deleteListed {r : ReconcileResult}
    (hf : s.cluster.find .workPlacement wp.key = some wp)
    (hpending : Finalizer.repoCleanup ∈ wp.metadata.finalizers)
    (hmode : dest.spec.filepathMode = .none)
    (he : Exec (unordered env) (deleteFromDestination env dest w wp) s r t) :
    Deletes env dest w wp s t := by
  unfold deleteFromDestination at he
  rw [if_pos (containsFinalizer_iff.mpr hpending), hmode] at he
  obtain ⟨a, u, hread, he₁⟩ := exec_bind.mp he
  obtain ⟨rfl, ha, hanswer⟩ :=
    exec_readStoredFile_unfailing (exec_unordered (fun k ns sel h => by cases h) hread)
  cases a with
  | error e =>
    obtain rfl := hanswer e rfl
    obtain ⟨-, rfl⟩ := he₁
    exact .missing hpending hmode ha.symm
  | ok content =>
    dsimp only at he₁
    cases hparse : env.unmarshalStateFile content with
    | none =>
      rw [hparse] at he₁
      obtain ⟨-, rfl⟩ := he₁
      exact .unparsable hpending hmode content ha.symm hparse
    | some files =>
      rw [hparse] at he₁
      exact .listed hpending hmode content files ha.symm hparse (exec_delete hf he₁)

theorem exec_deleteAggregated {r : ReconcileResult}
    (hf : s.cluster.find .workPlacement wp.key = some wp) (hdel : wp.metadata.deleting = true)
    (hpending : Finalizer.repoCleanup ∈ wp.metadata.finalizers)
    (hmode : dest.spec.filepathMode = .aggregatedYAML)
    (he : Exec (unordered env) (deleteFromDestination env dest w wp) s r t) :
    Deletes env dest w wp s t := by
  unfold deleteFromDestination at he
  rw [if_pos (containsFinalizer_iff.mpr hpending), hmode] at he
  obtain ⟨a, u, hyaml, he₁⟩ := exec_bind.mp he
  cases exec_handleAggregatedYAML hf hdel hyaml with
  | unreadable e hread =>
    obtain ⟨-, rfl⟩ := he₁
    exact .unreadable hpending hmode hread
  | last hactive => exact .emptied hpending hmode hactive (exec_delete hf he₁)
  | written workload active hperm hne hread hremoval =>
    obtain ⟨-, rfl⟩ := he₁
    exact .regenerated hpending hmode active hperm hne hread hremoval

theorem exec_deleteFromDestination {r : ReconcileResult}
    (hf : s.cluster.find .workPlacement wp.key = some wp) (hdel : wp.metadata.deleting = true)
    (he : Exec (unordered env) (deleteFromDestination env dest w wp) s r t) :
    Deletes env dest w wp s t := by
  by_cases hpending : Finalizer.repoCleanup ∈ wp.metadata.finalizers
  · cases hmode : dest.spec.filepathMode with
    | none => exact exec_deleteListed hf hpending hmode he
    | aggregatedYAML => exact exec_deleteAggregated hf hdel hpending hmode he
    | nestedByMetadata =>
      unfold deleteFromDestination at he
      rw [if_pos (containsFinalizer_iff.mpr hpending), hmode] at he
      exact .directory hpending hmode (exec_delete hf he)
  · unfold deleteFromDestination at he
    rw [if_neg (mt containsFinalizer_iff.mp hpending)] at he
    by_cases hfile : Finalizer.kratixFileCleanup ∈ wp.metadata.finalizers
    · rw [if_pos (containsFinalizer_iff.mpr hfile)] at he
      exact .stateFile hpending hfile (exec_delete hf he)
    · rw [if_neg (mt containsFinalizer_iff.mp hfile)] at he
      obtain ⟨-, rfl⟩ := he
      exact .released hpending hfile

/-- A reconcile of a deleted WorkPlacement finds no Destination, no state store, or a writer. -/
inductive DeletionStep (env : Externals) (wp : WorkPlacement) (s t : World) : Prop
  | withoutDestination
      (hmissing : s.cluster.find .destination ("", wp.spec.targetDestinationName) = none)
      (h : Loses [Finalizer.repoCleanup, Finalizer.kratixFileCleanup] wp s t)
      (hfiles : t.files = s.files)
  | withoutStore (dest : Destination)
      (hdest : s.cluster.find .destination ("", wp.spec.targetDestinationName) = some dest)
      (hmissing : s.cluster.find (.stateStore dest.spec.stateStoreRef.kind)
        ("", dest.spec.stateStoreRef.name) = none) (ht : t = s)
  | withWriter (dest : Destination) (w : Writer) (htargets : Targets s wp dest w)
      (h : Deletes env dest w wp s t)

theorem exec_reconcile_deleting {r : ReconcileResult}
    (hf : s.cluster.find .workPlacement wp.key = some wp) (hdel : wp.metadata.deleting = true)
    (he : Exec (unordered env) (reconcile env wp.metadata.ns wp.metadata.name) s r t) :
    DeletionStep env wp s t := by
  obtain ⟨a, u, hget, he₁⟩ := exec_bind.mp he
  obtain ⟨rfl, ⟨rfl, hnone⟩ | ⟨wp', rfl, hfound⟩⟩ := exec_getObject_unordered hget
  · cases hnone.symm.trans hf
  obtain rfl : wp' = wp := Option.some.inj (hfound.symm.trans hf)
  obtain ⟨b, v, hgetDest, he₂⟩ := exec_bind.mp he₁
  rw [if_pos hdel] at he₂
  obtain ⟨rfl, ⟨rfl, hnone⟩ | ⟨dest, rfl, hdest⟩⟩ := exec_getObject_unordered hgetDest
  · obtain ⟨c, x, hupdate, he₃⟩ := exec_bind.mp he₂
    rw [cleanupDeletionFinalizers_eq] at hupdate
    obtain ⟨rfl, cluster, hrep, rfl⟩ := exec_updateObject_finalizers hf hupdate
    obtain ⟨-, rfl⟩ := he₃
    exact .withoutDestination hnone hrep rfl
  · obtain ⟨c, x, hwriter, he₃⟩ := exec_bind.mp he₂
    obtain ⟨rfl, ⟨rfl, hstore⟩ | ⟨store, hstore, rfl⟩⟩ := exec_newWriter hwriter
    · obtain ⟨-, rfl⟩ := he₃
      exact .withoutStore dest hdest hstore rfl
    · exact .withWriter dest _ ⟨hdest, store, hstore, rfl⟩ (exec_deleteFromDestination hf hdel he₃)

end Kratix.WorkPlacementController
